import Mathlib.Data.List.Sort
import Mathlib.Data.String.Basic
import Mathlib.Order.Bounds.Basic
import Re0Auth.Memory.Store

/-!
# Reads of the in-memory store

The reads of `OIDCStore` that no step of a grant goes through: introspection, userinfo and the list of
grants of a user.

* **`setIntrospectionFromToken`**, **`setUserinfoFromToken`**: one access token by its id;
* **`grants`**: what each client can still do as a subject, collected from its tokens in the order of a
  map;
* **`grants_congr`**: the order does not show, since the list is sorted by client and each list of scopes
  is sorted.
-/

namespace Re0Auth.Memory

open Lib OAuth Oidc Dict List

/-- What `SetIntrospectionFromToken` fills in. -/
structure Introspection where
  subject : String
  clientID : String
  scopes : List String
  expiration : Time
  deriving DecidableEq, Repr

/-- `oauth.Grant`. -/
structure Grant where
  clientID : String
  clientName : String
  scopes : List String
  hasRefresh : Bool
  issuedAt : Time
  expiresAt : Time
  deriving DecidableEq, Repr

/-- What `Grants` reads of a token. -/
structure TokenSummary where
  clientID : String
  scopes : List String
  issuedAt : Time
  expiresAt : Time
  refresh : Bool
  deriving DecidableEq, Repr

/-- An access token as `Grants` reads it. -/
def AccessToken.summary (t : AccessToken) : TokenSummary := ⟨t.clientID, t.scopes, t.issuedAt, t.expiresAt, false⟩

/-- A refresh token as `Grants` reads it. -/
def RefreshToken.summary (t : RefreshToken) : TokenSummary := ⟨t.clientID, t.scopes, t.issuedAt, t.expiresAt, true⟩

/-- `appendScopeUnique`. -/
def appendScopeUnique (dst : List String) (s : String) : List String := if s ∈ dst then dst else dst ++ [s]

/-- The scopes of a token join those of the grant, without `offline_access`. -/
def joinScopes (dst scopes : List String) : List String :=
  scopes.foldl (fun dst sc => if sc = scopeOfflineAccess then dst else appendScopeUnique dst sc) dst

/-- The second half of `collect`: a token joins a grant. -/
def Grant.join (g : Grant) (t : TokenSummary) : Grant :=
  { g with
    scopes := joinScopes g.scopes t.scopes
    issuedAt := if t.issuedAt < g.issuedAt then t.issuedAt else g.issuedAt
    expiresAt := if g.expiresAt < t.expiresAt then t.expiresAt else g.expiresAt
    hasRefresh := g.hasRefresh || t.refresh }

/-- The grant `collect` starts a client with. -/
def TokenSummary.grant (t : TokenSummary) : Grant := ⟨t.clientID, "", [], false, t.issuedAt, t.expiresAt⟩

/-- `collect`: a token that has not expired joins the grant of its client. -/
def collect (now : Time) (byClient : Dict String Grant) (t : TokenSummary) : Dict String Grant :=
  if now < t.expiresAt then
    byClient.set t.clientID (((byClient.get t.clientID).getD t.grant).join t)
  else byClient

/-- `LookupClientNames`, for one client. A suspended client keeps its name. -/
def lookupClientName (clients : MemoryClientRegistry) (id : String) : String :=
  ((Dict.get clients id).map (·.name)).getD ""

/-- `sortScopes`. -/
def sortScopes (scopes : List String) : List String := scopes.insertionSort (· ≤ ·)

/-- `sortGrants`. -/
def sortGrants (grants : List Grant) : List Grant := grants.insertionSort (·.clientID ≤ ·.clientID)

/-- A grant as it is listed, named and with its scopes in order. -/
def Grant.listed (clients : MemoryClientRegistry) (g : Grant) : Grant :=
  { g with clientName := lookupClientName clients g.clientID, scopes := sortScopes g.scopes }

/-- The grants by client, as they are listed. -/
def listGrants (clients : MemoryClientRegistry) (byClient : Dict String Grant) : List Grant :=
  sortGrants (byClient.entries.map fun e => e.2.listed clients)

namespace OIDCStore

/-- `SetIntrospectionFromToken`. -/
def setIntrospectionFromToken (env : Env) (now : Time) (tokenID subject : String) (s : OIDCStore) :
    Except Err Introspection :=
  match s.accessTokens.get (env.tokenHash tokenID) with
  | none => .error .tokenNotFound
  | some t =>
    if now < t.expiresAt then .ok ⟨subject, t.clientID, t.scopes, t.expiresAt⟩
    else .error .tokenNotFound

/-- `SetUserinfoFromToken`: the subject of the record. -/
def setUserinfoFromToken (env : Env) (now : Time) (tokenID subject : String) (s : OIDCStore) :
    Except Err String :=
  if tokenID = "" then .error (.new "not a live access token")
  else
    match (s.accessTokens.get (env.tokenHash tokenID)).filter
      fun t => t.subject = subject ∧ now < t.expiresAt with
    | none => .error (.new "not a live access token")
    | some t => .ok t.subject

/-- The tokens of a subject `Grants` ranges over. -/
def tokensOf (subject : String) (s : OIDCStore) : List TokenSummary :=
  (s.accessBySubject.bucket subject).filterMap (fun k => (s.accessTokens.get k).map AccessToken.summary) ++
    (s.refreshBySubject.bucket subject).filterMap fun k => (s.refreshTokens.get k).map RefreshToken.summary

/-- **`Grants`**. -/
def grants (now : Time) (clients : MemoryClientRegistry) (subject : String) (s : OIDCStore) :
    Except Err (List Grant) :=
  if subject = "" then .error (.new "memory: subject is required")
  else .ok (listGrants clients ((s.tokensOf subject).foldl (collect now) ∅))

end OIDCStore

/-! ## The order of a map does not show -/

/-- The live tokens of a client among those of a list. -/
def Holds (now : Time) (ts : List TokenSummary) (c : String) (t : TokenSummary) : Prop :=
  t ∈ ts ∧ now < t.expiresAt ∧ t.clientID = c

/-- **Summarises**: the grant is the one the live tokens of a client add up to. -/
structure Summarises (now : Time) (ts : List TokenSummary) (c : String) (g : Grant) : Prop where
  clientID : g.clientID = c
  clientName : g.clientName = ""
  nodup : g.scopes.Nodup
  scopes : ∀ sc, sc ∈ g.scopes ↔ sc ≠ scopeOfflineAccess ∧ ∃ t, Holds now ts c t ∧ sc ∈ t.scopes
  hasRefresh : g.hasRefresh = true ↔ ∃ t, Holds now ts c t ∧ t.refresh = true
  issuedAt : IsLeast {i | ∃ t, Holds now ts c t ∧ t.issuedAt = i} g.issuedAt
  expiresAt : IsGreatest {e | ∃ t, Holds now ts c t ∧ t.expiresAt = e} g.expiresAt

section Order

variable {now : Time} {ts ts' : List TokenSummary} {c : String} {g g' : Grant} {t u : TokenSummary}
  {dst scopes : List String} {s sc : String} {byClient : Dict String Grant}

theorem mem_appendScopeUnique : sc ∈ appendScopeUnique dst s ↔ sc ∈ dst ∨ sc = s := by
  rw [appendScopeUnique]
  split_ifs with h
  · exact ⟨.inl, fun hsc => hsc.elim id fun heq => heq ▸ h⟩
  · simp

theorem nodup_appendScopeUnique (h : dst.Nodup) : (appendScopeUnique dst s).Nodup := by
  rw [appendScopeUnique]
  split_ifs with hs
  · exact h
  · rw [← concat_eq_append]
    exact (nodup_concat dst s).2 ⟨hs, h⟩

theorem mem_joinScopes : sc ∈ joinScopes dst scopes ↔ sc ∈ dst ∨ sc ∈ scopes ∧ sc ≠ scopeOfflineAccess := by
  induction scopes generalizing dst with
  | nil => simp [joinScopes]
  | cons s scopes ih =>
    rw [joinScopes, foldl_cons, ← joinScopes, ih]
    split_ifs with hs
    · grind
    · rw [mem_appendScopeUnique]
      grind

theorem nodup_joinScopes (h : dst.Nodup) : (joinScopes dst scopes).Nodup := by
  induction scopes generalizing dst with
  | nil => exact h
  | cons s scopes ih =>
    rw [joinScopes, foldl_cons, ← joinScopes]
    split_ifs
    · exact ih h
    · exact ih (nodup_appendScopeUnique h)

/-- A token is added to what was collected. -/
theorem holds_append : Holds now (ts ++ [u]) c t ↔
    Holds now ts c t ∨ t = u ∧ now < u.expiresAt ∧ u.clientID = c := by
  rw [Holds, Holds, mem_append, mem_singleton]
  constructor
  · rintro ⟨hmem | rfl, hlive, hc⟩
    · exact .inl ⟨hmem, hlive, hc⟩
    · exact .inr ⟨rfl, hlive, hc⟩
  · rintro (⟨hmem, hlive, hc⟩ | ⟨rfl, hlive, hc⟩)
    · exact ⟨.inl hmem, hlive, hc⟩
    · exact ⟨.inr rfl, hlive, hc⟩

/-- The tokens of the client are all that counts. -/
theorem Summarises.congr (h : Summarises now ts c g) (hts : ∀ t, Holds now ts c t ↔ Holds now ts' c t) :
    Summarises now ts' c g := by
  obtain ⟨hid, hname, hnodup, hscopes, hrefresh, hissued, hexpires⟩ := h
  simp only [hts] at hscopes hrefresh hissued hexpires
  exact ⟨hid, hname, hnodup, hscopes, hrefresh, hissued, hexpires⟩

/-- The first token of a client. -/
theorem Summarises.first (hnone : ∀ t, ¬ Holds now ts c t) (hlive : now < u.expiresAt)
    (hc : u.clientID = c) : Summarises now (ts ++ [u]) c (u.grant.join u) := by
  have hold : ∀ t, Holds now (ts ++ [u]) c t ↔ t = u := by
    intro t
    rw [holds_append]
    exact ⟨fun h => (h.resolve_left (hnone t)).1, fun h => .inr ⟨h, hlive, hc⟩⟩
  refine ⟨hc, rfl, nodup_joinScopes nodup_nil, fun sc => ?_, ?_, ?_, ?_⟩
  · simp only [hold, exists_eq_left, Grant.join, mem_joinScopes, TokenSummary.grant, not_mem_nil, false_or]
    exact and_comm
  all_goals simp [hold, Grant.join, TokenSummary.grant]

/-- One more token of a client. -/
theorem Summarises.join (h : Summarises now ts c g) (hlive : now < u.expiresAt) (hc : u.clientID = c) :
    Summarises now (ts ++ [u]) c (g.join u) := by
  have hold : ∀ {P : TokenSummary → Prop}, (∃ t, Holds now (ts ++ [u]) c t ∧ P t) ↔
      (∃ t, Holds now ts c t ∧ P t) ∨ P u := by
    intro P
    simp only [holds_append, or_and_right, exists_or, hlive, hc, and_true, exists_eq_left]
  refine ⟨h.clientID, h.clientName, nodup_joinScopes h.nodup, fun sc => ?_, ?_, ?_, ?_⟩
  · rw [hold, Grant.join, mem_joinScopes, h.scopes]
    grind
  · simp only [hold, Grant.join, Bool.or_eq_true, h.hasRefresh]
  · have hset : {i | ∃ t, Holds now (ts ++ [u]) c t ∧ t.issuedAt = i} =
        insert u.issuedAt {i | ∃ t, Holds now ts c t ∧ t.issuedAt = i} := by
      ext i
      simp only [Set.mem_ofPred_eq, hold, Set.mem_insert_iff, eq_comm (a := i), or_comm]
    rw [hset, show (g.join u).issuedAt = min u.issuedAt g.issuedAt by
      simp only [Grant.join]
      grind]
    exact h.issuedAt.insert _
  · have hset : {e | ∃ t, Holds now (ts ++ [u]) c t ∧ t.expiresAt = e} =
        insert u.expiresAt {e | ∃ t, Holds now ts c t ∧ t.expiresAt = e} := by
      ext e
      simp only [Set.mem_ofPred_eq, hold, Set.mem_insert_iff, eq_comm (a := e), or_comm]
    rw [hset, show (g.join u).expiresAt = max u.expiresAt g.expiresAt by
      simp only [Grant.join]
      grind]
    exact h.expiresAt.insert _

/-- **Collected**: the grants by client, of the clients that have one. -/
def Collected (now : Time) (ts : List TokenSummary) (byClient : Dict String Grant) : Prop :=
  ∀ c, (∀ g, byClient.get c = some g → Summarises now ts c g) ∧
    (byClient.get c = none → ∀ t, ¬ Holds now ts c t)

theorem collected_collect (h : Collected now ts byClient) :
    Collected now (ts ++ [u]) (collect now byClient u) := by
  intro c
  obtain ⟨hsome, hnone⟩ := h c
  rw [collect]
  by_cases hu : now < u.expiresAt ∧ u.clientID = c
  · obtain ⟨hlive, rfl⟩ := hu
    rw [if_pos hlive, get_set_self]
    refine ⟨?_, nofun⟩
    rintro g' ⟨⟩
    cases hg : byClient.get u.clientID with
    | none => exact .first (hnone hg) hlive rfl
    | some g => exact (hsome g hg).join hlive rfl
  · -- the grant of this client is left alone
    have hsame : ∀ t, Holds now ts c t ↔ Holds now (ts ++ [u]) c t := by
      intro t
      rw [holds_append]
      exact ⟨.inl, fun ht => ht.resolve_right fun ht => hu ht.2⟩
    have hget : (if now < u.expiresAt then byClient.set u.clientID
        (((byClient.get u.clientID).getD u.grant).join u) else byClient).get c = byClient.get c := by
      split_ifs with hlive
      · rw [get_set, if_neg fun hc => hu ⟨hlive, hc.symm⟩]
      · rfl
    rw [hget]
    exact ⟨fun g hg => (hsome g hg).congr hsame, fun hg t ht => hnone hg t ((hsame t).2 ht)⟩

theorem collected_foldl {pre : List TokenSummary}
    (h : Collected now pre byClient) : Collected now (pre ++ ts) (ts.foldl (collect now) byClient) := by
  induction ts generalizing pre byClient with
  | nil => simpa using h
  | cons u ts ih =>
    rw [foldl_cons, append_cons]
    exact ih (collected_collect h)

theorem sortScopes_congr {scopes' : List String} (h : scopes.Nodup) (h' : scopes'.Nodup)
    (hmem : ∀ sc, sc ∈ scopes ↔ sc ∈ scopes') : sortScopes scopes = sortScopes scopes' := by
  have hperm : scopes.Perm scopes' := (perm_ext_iff_of_nodup h h').2 hmem
  refine Perm.eq_of_pairwise' (pairwise_insertionSort _ _) (pairwise_insertionSort _ _) ?_
  exact (perm_insertionSort _ _).trans (hperm.trans (perm_insertionSort _ _).symm)

/-- What the live tokens of a client add up to is one grant. -/
theorem Summarises.listed_eq (clients : MemoryClientRegistry) (h : Summarises now ts c g)
    (h' : Summarises now ts c g') : g.listed clients = g'.listed clients := by
  have hscopes : sortScopes g.scopes = sortScopes g'.scopes :=
    sortScopes_congr h.nodup h'.nodup fun sc => (h.scopes sc).trans (h'.scopes sc).symm
  have hrefresh : g.hasRefresh = g'.hasRefresh := by
    rw [Bool.eq_iff_iff, h.hasRefresh, h'.hasRefresh]
  have hissued := h.issuedAt.unique h'.issuedAt
  have hexpires := h.expiresAt.unique h'.expiresAt
  have hid := h.clientID.trans h'.clientID.symm
  simp [Grant.listed, hscopes, hrefresh, hissued, hexpires, hid]

theorem mem_listGrants {clients : MemoryClientRegistry} :
    g ∈ listGrants clients byClient ↔ ∃ c g', byClient.get c = some g' ∧ g'.listed clients = g := by
  rw [listGrants, sortGrants, (perm_insertionSort _ _).mem_iff, mem_map]
  constructor
  · rintro ⟨⟨c, g'⟩, hmem, heq⟩
    exact ⟨c, g', (get_eq_some_iff _ _ _).2 hmem, heq⟩
  · rintro ⟨c, g', hget, heq⟩
    exact ⟨⟨c, g'⟩, (get_eq_some_iff _ _ _).1 hget, heq⟩

/-- Each client is listed once, in order. -/
theorem pairwise_listGrants (clients : MemoryClientRegistry) (h : Collected now ts byClient) :
    (listGrants clients byClient).Pairwise (·.clientID < ·.clientID) := by
  have hsorted : (listGrants clients byClient).Pairwise (·.clientID ≤ ·.clientID) :=
    pairwise_insertionSort _ _
  have hids : ((listGrants clients byClient).map (·.clientID)).Nodup := by
    rw [listGrants, sortGrants, ((perm_insertionSort _ _).map _).nodup_iff, map_map]
    have hkeys : byClient.entries.map ((·.clientID) ∘ fun e => e.2.listed clients) = byClient.keys := by
      refine map_congr_left fun e he => ?_
      exact ((h e.1).1 e.2 ((get_eq_some_iff _ _ _).2 he)).clientID
    rw [hkeys]
    exact byClient.nodupKeys
  rw [nodup_iff_pairwise_ne, pairwise_map] at hids
  exact (hsorted.and hids).imp fun hlt => lt_of_le_of_ne hlt.1 hlt.2

/-- **Order**: two lists with the same live tokens are listed as the same grants. -/
theorem listGrants_congr (clients : MemoryClientRegistry)
    (h : ∀ t : TokenSummary, now < t.expiresAt → (t ∈ ts ↔ t ∈ ts')) :
    listGrants clients (ts.foldl (collect now) ∅) = listGrants clients (ts'.foldl (collect now) ∅) := by
  have hempty : Collected now [] (∅ : Dict String Grant) := fun c => ⟨nofun, fun _ t ht => by cases ht.1⟩
  have hall : Collected now ts (ts.foldl (collect now) ∅) := collected_foldl hempty
  have hall' : Collected now ts' (ts'.foldl (collect now) ∅) := collected_foldl hempty
  have hholds : ∀ c t, Holds now ts c t ↔ Holds now ts' c t := fun c t =>
    ⟨fun ht => ⟨(h t ht.2.1).1 ht.1, ht.2⟩, fun ht => ⟨(h t ht.2.1).2 ht.1, ht.2⟩⟩
  -- a grant of the first list is one of the second
  have hsub : ∀ {ts ts' : List TokenSummary} {m m' : Dict String Grant}, Collected now ts m →
      Collected now ts' m' → (∀ c t, Holds now ts c t ↔ Holds now ts' c t) → ∀ g,
      g ∈ listGrants clients m → g ∈ listGrants clients m' := by
    intro ts ts' m m' hm hm' hholds g hg
    obtain ⟨c, g₀, hget, rfl⟩ := mem_listGrants.1 hg
    have hsum := ((hm c).1 g₀ hget).congr (hholds c)
    cases hget' : m'.get c with
    | none =>
      obtain ⟨t, ht, -⟩ := hsum.issuedAt.1
      exact absurd ht ((hm' c).2 hget' t)
    | some g₁ =>
      exact mem_listGrants.2 ⟨c, g₁, hget', ((hm' c).1 g₁ hget').listed_eq clients hsum⟩
  refine (pairwise_listGrants clients hall).eq_of_mem_iff (pairwise_listGrants clients hall') fun g => ?_
  exact ⟨hsub hall hall' hholds g, hsub hall' hall (fun c t => (hholds c t).symm) g⟩

end Order

end Re0Auth.Memory

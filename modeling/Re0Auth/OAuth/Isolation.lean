import Re0Auth.Lib.Hoare
import Re0Auth.OAuth.Scopes

/-!
# Clients do not reach each other's records

A request that is authenticated as one client leaves every code, token record, tombstone and device
request of every other client as it is. There is one way around this: a refresh value that was spent is
taken as a sign of theft whoever presents it, and its family is revoked.

* **`Ownership`**: who the records under a key were issued to, and what an answer about the owner of a
  value is worth later;
* **`Spares`**: the records of a client are the same before and after;
* **`spares_step`**: what one operation of a request spares, whatever the other calls do;
* **`client_isolation`**: what a whole request spares.
-/

namespace Re0Auth.OAuth

open Lib Function Pool MemoryStore Prog List Evidence MemoryDeviceStore

variable {cfg : Config} {op : Op} {ω : String} {sh sh' : Shared} {r : op.Res} {p : Phase}
  {x : Evidence} {ph ph' : ℕ → Option (Phase × Evidence)} {i : ℕ} {B : String} {n : ℕ}
  {k clientID v id subject familyID : String} {scopes : List Scope} {c cl : Client}
  {σ₀ σ σ₁ τ : Observed cfg} {tomb : RefreshTombstone} {α : Type}
  {Q : Except Error α → Shared → Prop} {req : RefreshRequest}

/-! ## Who a record was issued to -/

/-- The key is that of the `n`-th value a call has drawn for its client. -/
def IssuedTo (env : Env) (ph : ℕ → Option (Phase × Evidence)) (n : ℕ) (k clientID : String) : Prop :=
  ∃ j q v id c, ph j = some q ∧ q.2.drawn[n]? = some v ∧ k = env.tokenHash v ∧
    q.2.client = some (id, c) ∧ clientID = c.id

theorem IssuedTo.mono {env : Env} (h : IssuedTo env ph n k clientID)
    (hg : Grows ph ph') : IssuedTo env ph' n k clientID := by
  obtain ⟨j, q, v, id, c, hj, hv, hk, hclient, hid⟩ := h
  obtain ⟨q', hj', hkept⟩ := hg j q hj
  exact ⟨j, q', v, id, c, hj', hkept.getElem hv, hk, hkept.client _ hclient, hid⟩

/-- What an answer of `TokenOwner` and of `SpentRefreshOwner` is worth: the records the value has now
are those of the owner that was named. -/
structure OwnersKnown (env : Env) (sh : Shared) (p : Phase) (x : Evidence) : Prop where
  owner : ∀ v answer, x.owner = some (v, answer) → v ∈ p.presented ∧
    (∀ t, sh.tokens.access.get (env.tokenHash v) = some t → answer = .ok t.clientID) ∧
    (∀ t, sh.tokens.refresh.get (env.tokenHash v) = some t → answer = .ok t.clientID) ∧
    ∀ id, answer = .ok id → ∀ tomb, sh.tokens.tombstones.get (env.tokenHash v) = some tomb →
      tomb.clientID = id
  spentOwner : ∀ v id, x.spentOwner = some (v, .ok id) → v ∈ p.presented ∧
    sh.tokens.refresh.get (env.tokenHash v) = none ∧
    ∀ tomb, sh.tokens.tombstones.get (env.tokenHash v) = some tomb → tomb.clientID = id

/-- **Ownership** of the token records. -/
structure Ownership (cfg : Config) (sh : Shared) (ph : ℕ → Option (Phase × Evidence)) : Prop where
  access : ∀ k t, sh.tokens.access.get k = some t → IssuedTo cfg.env ph 0 k t.clientID
  refresh : ∀ k t, sh.tokens.refresh.get k = some t → IssuedTo cfg.env ph 1 k t.clientID
  tombstones : ∀ k t, sh.tokens.tombstones.get k = some t → IssuedTo cfg.env ph 1 k t.clientID ∧
    Confined cfg ph t.clientID t.subject [] t.familyID
  nodup : ∀ j q, ph j = some q → q.2.drawn.Nodup
  known : ∀ j q, ph j = some q → OwnersKnown cfg.env sh q.1 q.2

variable (h : Ownership cfg sh ph) (hprov : Provenance cfg sh ph) (hO : Observes cfg.env sh ph)
  (hi : ph i = some (p, x)) (ha : Allowed cfg.env p op) (he : Entitled cfg x op)
  (hex : exec cfg op ω sh = some (r, sh'))

include hO hi in
/-- A record under a value the call has drawn is one of the call's client. -/
theorem IssuedTo.own (hv : v ∈ x.drawn) (h : IssuedTo cfg.env ph n (cfg.env.tokenHash v) clientID) :
    ∃ id c, x.client = some (id, c) ∧ clientID = c.id := by
  obtain ⟨j, q, v', id, c, hj, hv', hk, hclient, hid⟩ := h
  obtain rfl := cfg.env.tokenHash_injective hk
  obtain rfl := hO.eq_of_drawn hi hj hv (mem_of_getElem? hv')
  exact ⟨id, c, hclient, hid⟩

include h hO in
/-- A key is that of an access value or that of a refresh value. -/
theorem Ownership.access_none (h₁ : IssuedTo cfg.env ph 1 k id) : sh.tokens.access.get k = none := by
  refine Option.eq_none_iff_forall_ne_some.2 fun t ht => ?_
  obtain ⟨j, q, v, _, _, hj, hv, rfl, -⟩ := h.access k t ht
  obtain ⟨l, z, v', _, _, hl, hv', hk, -⟩ := h₁
  obtain rfl := cfg.env.tokenHash_injective hk
  obtain rfl := hO.eq_of_drawn hj hl (mem_of_getElem? hv) (mem_of_getElem? hv')
  have h01 := (List.getElem?_inj (List.getElem?_eq_some_iff.1 hv).1 (h.nodup j q hj)).1 (hv.trans hv'.symm)
  exact absurd h01 (by decide)

/-- The client of a claim is the one that was authenticated. -/
theorem Evidence.Claims.client (h : x.Claims cfg clientID subject scopes familyID) :
    ∃ id c, x.client = some (id, c) ∧ clientID = c.id := by
  cases h with
  | code _ hclient => exact ⟨_, _, hclient.1, rfl⟩
  | refresh _ hclient => exact ⟨_, _, hclient.1, rfl⟩
  | device _ hclient => exact ⟨_, _, hclient.1, rfl⟩

theorem Evidence.Issues.client (h : x.Issues cfg clientID subject scopes familyID) :
    ∃ id c, x.client = some (id, c) ∧ clientID = c.id := by
  obtain ⟨family, hclaims, -⟩ := h
  exact hclaims.client

include ha hex in
/-- An answer is worth as much after an operation of any call. -/
theorem OwnersKnown.stable {q : Phase} {y : Evidence} (h : OwnersKnown cfg.env sh q y)
    (hq : TidyAt cfg.env sh q) (hp : TidyAt cfg.env sh p) : OwnersKnown cfg.env sh' q y := by
  have haccess : ∀ v ∈ q.presented, ∀ t, sh'.tokens.access.get (cfg.env.tokenHash v) = some t →
      sh.tokens.access.get (cfg.env.tokenHash v) = some t := by
    intro v hv t ht
    obtain hold | ⟨value, rfl, hk⟩ := exec_access hex ht
    · exact hold
    · obtain ⟨hdrawn, c, hs, -⟩ := ha
      have hne := hp.ne_presented hq (by rw [hs]; nofun) hdrawn hv
      exact absurd (cfg.env.tokenHash_injective hk) hne
  have hrefresh : ∀ v ∈ q.presented, ∀ t, sh'.tokens.refresh.get (cfg.env.tokenHash v) = some t →
      sh.tokens.refresh.get (cfg.env.tokenHash v) = some t := by
    intro v hv t ht
    obtain hold | ⟨value, rfl, hk⟩ := exec_refresh hex ht
    · exact hold
    · obtain ⟨hdrawn, c, at_, hs, -⟩ := ha
      have hne := hp.ne_presented hq (by rw [hs]; nofun) hdrawn hv
      exact absurd (cfg.env.tokenHash_injective hk) hne
  refine ⟨fun v answer hv => ?_, fun v id hv => ?_⟩
  · obtain ⟨hpres, hat, hrt, htomb⟩ := h.owner v answer hv
    refine ⟨hpres, fun t ht => hat t (haccess v hpres t ht), fun t ht => hrt t (hrefresh v hpres t ht),
      fun id hid tomb ht => ?_⟩
    obtain hold | ⟨value, t, -, -, ht', -, rfl⟩ := exec_tombstones hex ht
    · exact htomb id hid tomb hold
    · -- the value was rotated: its record had the same owner
      exact Except.ok.inj ((hrt t ht').symm.trans hid)
  · obtain ⟨hpres, hnone, htomb⟩ := h.spentOwner v id hv
    refine ⟨hpres, ?_, fun tomb ht => ?_⟩
    · cases hget : sh'.tokens.refresh.get (cfg.env.tokenHash v) with
      | none => rfl
      | some t =>
        rw [hrefresh v hpres t hget] at hnone
        cases hnone
    · obtain hold | ⟨value, t, -, -, ht', -⟩ := exec_tombstones hex ht
      · exact htomb tomb hold
      · rw [hnone] at ht'
        cases ht'

include hO ha hex in
/-- What the answers of a call's own reads are worth. -/
theorem OwnersKnown.self (h : OwnersKnown cfg.env sh p x) (hown : Ownership cfg sh ph)
    (honce : ∀ k t, sh.tokens.refresh.get k = some t → sh.tokens.tombstones.get k = none)
    (hp : TidyAt cfg.env sh p) : OwnersKnown cfg.env sh' (p.advance op r) (x.advance op r) := by
  have hs := h.stable ha hex hp hp
  cases op with
  | receive values =>
    refine ⟨fun v answer hv => ?_, fun v id hv => ?_⟩
    · exact absurd (h.owner v answer hv).1 (by rw [ha.2.1]; exact not_mem_nil)
    · exact absurd (h.spentOwner v id hv).1 (by rw [ha.2.1]; exact not_mem_nil)
  | tokenOwner value =>
    cases hex
    refine ⟨fun v answer hv => ?_, hs.spentOwner⟩
    cases hv
    refine ⟨ha, fun t ht => ?_, fun t ht => ?_, fun id hid tomb htomb => ?_⟩
    · rw [tokenOwner, ht]
    · rw [tokenOwner, hown.access_none hO (hown.refresh _ _ ht), ht]
    · -- a value with a tombstone has no record
      cases hrt : sh.tokens.refresh.get (cfg.env.tokenHash value) with
      | none =>
        rw [tokenOwner, hown.access_none hO (hown.tombstones _ _ htomb).1, hrt] at hid
        cases hid
      | some t =>
        rw [honce _ t hrt] at htomb
        cases htomb
  | spentRefreshOwner value =>
    cases hex
    refine ⟨hs.owner, fun v id hv => ?_⟩
    obtain ⟨hval, hid⟩ := Prod.mk.inj (Option.some.inj hv)
    subst hval
    rw [spentRefreshOwner] at hid
    split at hid
    · cases hid
    · rename_i tomb htomb
      split at hid
      · cases hid
      cases hid
      refine ⟨ha, ?_, fun tomb' htomb' => ?_⟩
      · cases hrt : sh.tokens.refresh.get (cfg.env.tokenHash value) with
        | none => rfl
        | some t =>
          rw [honce _ t hrt] at htomb
          cases htomb
      · cases htomb.symm.trans htomb'
        rfl
  | grantEpoch => exact readEpoch_cases fun _ _ => ⟨hs.owner, hs.spentOwner⟩
  | recordDecision hash d =>
    dsimp only [advance]
    split <;> exact ⟨hs.owner, hs.spentOwner⟩
  | _ => exact ⟨hs.owner, hs.spentOwner⟩

include h in
theorem Ownership.start (hi : ph i = none) (c : Call) :
    Ownership cfg sh (update ph i (some (Phase.start c, start c))) := by
  have hg := Grows.start hi (Phase.start c, Evidence.start c)
  exact ⟨fun k t ht => (h.access k t ht).mono hg, fun k t ht => (h.refresh k t ht).mono hg,
    fun k t ht => ⟨(h.tombstones k t ht).1.mono hg, (h.tombstones k t ht).2.mono hg⟩,
    forall_kept nodup_nil h.nodup,
    forall_kept ⟨nofun, nofun⟩ h.known⟩

include h hO hi ha he hex in
/-- **Step lemma.** -/
theorem Ownership.step (hprov : Provenance cfg sh ph)
    (honce : ∀ k t, sh.tokens.refresh.get k = some t → sh.tokens.tombstones.get k = none) :
    Ownership cfg sh' (update ph i (some (p.advance op r, x.advance op r))) := by
  have hg := Grows.step (r := r) hi he
  have hi' := update_self i (some (p.advance op r, x.advance op r)) ph
  have htidy : ∀ j q, ph j = some q → TidyAt cfg.env sh q.1 := fun j q hj =>
    hO.tidy.each j q.1 (phases_some hj)
  refine ⟨fun k t ht => ?_, fun k t ht => ?_, fun k t ht => ?_,
    forall_kept ?_ h.nodup,
    forall_kept ((h.known i _ hi).self hO ha hex h honce (htidy i _ hi)) fun j q hj =>
      (h.known j q hj).stable ha hex (htidy j q hj) (htidy i _ hi)⟩
  · obtain hold | ⟨value, rfl, rfl⟩ := exec_access hex ht
    · exact (h.access k t hold).mono hg
    · obtain ⟨id, c, hclient, hid⟩ := he.2.client
      exact ⟨i, _, value, id, c, hi', he.1, rfl, hclient, hid⟩
  · obtain hold | ⟨value, rfl, rfl⟩ := exec_refresh hex ht
    · exact (h.refresh k t hold).mono hg
    · obtain ⟨id, c, hclient, hid⟩ := he.2.client
      exact ⟨i, _, value, id, c, hi', he.1, rfl, hclient, hid⟩
  · obtain hold | ⟨value, t', -, -, ht', -, rfl⟩ := exec_tombstones hex ht
    · exact ⟨(h.tombstones k t hold).1.mono hg, (h.tombstones k t hold).2.mono hg⟩
    · obtain ⟨hne, j, q, c, approved, explicit, hj, hfam, hfounds, hid, -⟩ := hprov.refresh k t' ht'
      have hconfined : Confined cfg ph t'.clientID t'.subject [] t'.familyID :=
        ⟨hne, j, q, c, approved, explicit, hj, hfam, hfounds, hid, nil_subset _⟩
      exact ⟨(h.refresh k t' ht').mono hg, hconfined.mono hg⟩
  · have hnodup := h.nodup i _ hi
    cases op with
    | newToken =>
      obtain ⟨⟨-, hseen, -⟩, rfl⟩ := exec_newToken hex
      refine nodup_append.2 ⟨hnodup, nodup_singleton _, ?_⟩
      rintro v hv w hw rfl
      obtain rfl := mem_singleton.1 hw
      rw [(hO.agrees i _ hi).drawn, mem_reverse] at hv
      exact hseen ((htidy i _ hi).drawn v hv)
    | recordDecision hash d =>
      dsimp only [advance]
      split <;> exact hnodup
    | _ => exact hnodup

/-! ## Families of one client -/

theorem Founds.redeemer {approved explicit : List Scope} (h : Founds cfg ph x c subject approved explicit) :
    ∃ id cl, x.client = some (id, cl) ∧ cl.id = c.id := by
  cases h with
  | code _ _ _ hredeemer => exact hredeemer
  | device _ _ _ _ _ hredeemer => exact hredeemer

include hO in
/-- The records of a family have one client. -/
theorem Confined.client_unique {a b s s' : String} {scopes' : List Scope}
    (h : Confined cfg ph a s scopes familyID) (h' : Confined cfg ph b s' scopes' familyID) : a = b := by
  obtain ⟨-, j, q, c, _, _, hj, hfam, hfounds, rfl, -⟩ := h
  obtain ⟨-, l, z, c', _, _, hl, hfam', hfounds', rfl, -⟩ := h'
  obtain rfl := hO.eq_of_drawn hj hl (mem_of_getElem? hfam) (mem_of_getElem? hfam')
  obtain ⟨id, cl, hclient, hid⟩ := hfounds.redeemer
  obtain ⟨id', cl', hclient', hid'⟩ := hfounds'.redeemer
  cases hclient.symm.trans hclient'
  exact hid.symm.trans hid'

/-! ## What an operation spares -/

/-- **Spares**: the codes, the device requests and, in the families that are kept, the token records and
tombstones of a client are the same before and after. -/
structure Spares (B : String) (keep : String → Prop) (sh sh' : Shared) : Prop where
  codes : Dict.AgreeOn (fun c => c.clientID = B) sh.tokens.codes sh'.tokens.codes
  access : Dict.AgreeOn (fun t => t.clientID = B ∧ keep t.familyID) sh.tokens.access sh'.tokens.access
  refresh : Dict.AgreeOn (fun t => t.clientID = B ∧ keep t.familyID) sh.tokens.refresh sh'.tokens.refresh
  tombstones : Dict.AgreeOn (fun t => t.clientID = B ∧ keep t.familyID) sh.tokens.tombstones
    sh'.tokens.tombstones
  devices : Dict.AgreeOn (fun d => d.clientID = B) sh.devices.byDev sh'.devices.byDev

/-- No family is left out. -/
abbrev Untouched (B : String) (sh sh' : Shared) : Prop := Spares B (fun _ => True) sh sh'

namespace Spares

variable {keep : String → Prop}

theorem of_eq (htokens : sh'.tokens = sh.tokens) (hdevices : sh'.devices = sh.devices) :
    Spares B keep sh sh' := by
  constructor
  all_goals first
    | rw [htokens]
      exact .refl _ _
    | rw [hdevices]
      exact .refl _ _

theorem trans {sh'' : Shared} (h : Spares B keep sh sh') (h' : Spares B keep sh' sh'') :
    Spares B keep sh sh'' :=
  ⟨h.codes.trans h'.codes, h.access.trans h'.access, h.refresh.trans h'.refresh,
    h.tombstones.trans h'.tombstones, h.devices.trans h'.devices⟩

theorem mono {keep' : String → Prop} (h : Spares B keep sh sh') (hk : ∀ F, keep' F → keep F) :
    Spares B keep' sh sh' :=
  ⟨h.codes, h.access.mono fun _ ht => ⟨ht.1, hk _ ht.2⟩, h.refresh.mono fun _ ht => ⟨ht.1, hk _ ht.2⟩,
    h.tombstones.mono fun _ ht => ⟨ht.1, hk _ ht.2⟩, h.devices⟩

end Spares

/-- The calls a client makes with its own credentials: `Exchange`, `Refresh`, `Revoke` and
`PollDeviceAuthorization`. -/
def Call.AsClient (c : Call) : Prop := c.credentials.isSome = true

theorem Call.AsClient.credentials_ne {c c' : Call} (h : c.AsClient) (hc : c = c') :
    c'.credentials ≠ none := by
  rintro hnone
  rw [AsClient, hc, hnone] at h
  cases h

/-- The revocation of a family spares every other family. -/
theorem spares_revokeRefreshFamily (sh : Shared) (F : String) :
    Spares B (· ≠ F) sh { sh with tokens := (sh.tokens.revokeRefreshFamily F).2 } := by
  rw [revokeRefreshFamily]
  split_ifs with hF
  · exact .of_eq rfl rfl
  · refine ⟨.refl _ _, .filter ?_, .filter ?_, .filter ?_, .refl _ _⟩ <;>
      exact fun _ t ht => by simpa using ht.2

include hO hi in
/-- The client of a device request that was read is that of the stored one. -/
theorem Provenance.device_client (h : Provenance cfg sh ph) {d d' : DeviceAuthorizationRecord}
    (hread : x.device = some d)
    (hstored : sh.devices.byDev.get d.deviceCodeHash = some d') : d'.clientID = d.clientID := by
  obtain ⟨hk, j, q, req, c, hj, hbegins, hid, -⟩ := h.devices _ d' hstored
  obtain ⟨l, z, req', c', hl, hbegins', hid', -⟩ := (h.calls i _ hi).device d (.inl hread)
  rw [hk] at hbegins
  obtain ⟨rfl, rfl⟩ := begins_unique hO hj hl hbegins hbegins'
  exact hid.trans hid'.symm

include h hO hi in
/-- The records a request may delete are those of its client. -/
theorem Ownership.deletes (he : Entitled cfg x (.deleteAccess v)) :
    ∃ id c, x.client = some (id, c) ∧
      (∀ t, sh.tokens.access.get (cfg.env.tokenHash v) = some t → t.clientID = c.id) ∧
      (∀ t, sh.tokens.refresh.get (cfg.env.tokenHash v) = some t → t.clientID = c.id) ∧
      ∀ t, sh.tokens.tombstones.get (cfg.env.tokenHash v) = some t → t.clientID = c.id := by
  obtain ⟨req, c, -, -, hclient, howns⟩ | ⟨hv, clientID, subject, scopes, family, hclaims⟩ := he
  · refine ⟨_, c, hclient.1, ?_⟩
    obtain howner | ⟨howner, hspent⟩ := howns
    · obtain ⟨-, hat, hrt, htomb⟩ := (h.known i _ hi).owner _ _ howner
      exact ⟨fun t ht => (Except.ok.inj (hat t ht)).symm, fun t ht => (Except.ok.inj (hrt t ht)).symm,
        fun t ht => htomb _ rfl t ht⟩
    · obtain ⟨-, hat, hrt, -⟩ := (h.known i _ hi).owner _ _ howner
      obtain ⟨-, -, htomb⟩ := (h.known i _ hi).spentOwner _ _ hspent
      exact ⟨fun t ht => (by cases hat t ht), fun t ht => (by cases hrt t ht), htomb⟩
  · obtain ⟨id, c, hclient, -⟩ := hclaims.client
    have howned : ∀ {n k}, IssuedTo cfg.env ph n (cfg.env.tokenHash v) k → k = c.id := by
      intro n k hk
      obtain ⟨id', c', hclient', hid'⟩ := hk.own hO hi hv
      cases hclient.symm.trans hclient'
      exact hid'
    exact ⟨id, c, hclient, fun t ht => howned (h.access _ t ht), fun t ht => howned (h.refresh _ t ht),
      fun t ht => howned (h.tombstones _ t ht).1⟩

include h hi in
/-- The refresh record a request may claim is one of its client, and so is what the value has left
before. -/
theorem Ownership.claims {t : RefreshToken} (he : Entitled cfg x (.consumeRefresh v))
    (ht : sh.tokens.refresh.get (cfg.env.tokenHash v) = some t) :
    ∃ id c, x.client = some (id, c) ∧ t.clientID = c.id ∧
      ∀ tomb, sh.tokens.tombstones.get (cfg.env.tokenHash v) = some tomb → tomb.clientID = c.id := by
  obtain ⟨req, c, answer, -, rfl, hclient, howner, hforeign⟩ := he
  obtain ⟨-, -, hrt, htomb⟩ := (h.known i _ hi).owner _ _ howner
  obtain rfl := hrt t ht
  rw [foreignOwner] at hforeign
  split_ifs at hforeign with hid
  have hid := not_not.1 hid
  exact ⟨_, c, hclient.1, hid, fun tomb htomb' => (htomb _ rfl tomb htomb').trans hid⟩

include h hprov hO hi ha he hex in
/-- **What an operation of a request spares**: the records of every client but the one that was
authenticated, unless a replay was found and its family is revoked. -/
theorem spares_step (hcall : x.call.AsClient) (hB : ∀ id c, x.client = some (id, c) → c.id ≠ B) :
    Untouched B sh sh' ∨ ∃ F, op = .revokeRefreshFamily F ∧ p.stage = .reused F := by
  rw [(hO.agrees i _ hi).call] at hcall
  -- the calls that are not a client's have no credentials
  cases op with
  | revokeRefreshFamily F => exact .inr ⟨F, rfl, ha⟩
  | consumeCode v =>
    obtain ⟨-, req, cl, code, n, -, rfl, hclient, hread, -, hbound⟩ := he
    have hread' : p.readCode = some (req.code, code) := (hO.agrees i _ hi).code.symm.trans hread
    have hstored := ((hO.tidy.each i p (phases_some hi)).readCode hread').2
    cases hex
    left
    rw [consumeCode]
    split
    · exact .of_eq rfl rfl
    · refine ⟨.del fun w hw hwB => ?_, .refl _ _, .refl _ _, .refl _ _, .refl _ _⟩
      obtain rfl := hstored w hw
      exact hB _ cl hclient.1 (hbound.client.symm.trans hwB)
  | consumeRefresh v =>
    cases hex
    left
    cases hv : sh.tokens.refresh.get (cfg.env.tokenHash v) with
    | none => exact .of_eq (consumeRefresh_of_get_none hv) rfl
    | some t =>
      obtain ⟨id, c, hclient, hid, htomb⟩ := h.claims hi he hv
      have hne := hB id c hclient
      rw [consumeRefresh_of_get hv]
      refine ⟨.refl _ _, .refl _ _, .del fun w hw hwB => ?_,
        .set (fun w hw hwB => hne ((htomb w hw).symm.trans hwB.1)) fun hwB => ?_, .refl _ _⟩
      · cases hv.symm.trans hw
        exact hne (hid.symm.trans hwB.1)
      · exact hne (hid.symm.trans hwB.1)
  | saveAccess v t =>
    cases hex
    left
    obtain ⟨id, c, hclient, hid⟩ := he.2.client
    refine ⟨.refl _ _, .set (fun w hw hwB => ?_) fun hwB => hB id c hclient (hid.symm.trans hwB.1),
      .refl _ _, .refl _ _, .refl _ _⟩
    obtain ⟨id', c', hclient', hid'⟩ := (h.access _ w hw).own hO hi (mem_of_getElem? he.1)
    exact hB id' c' hclient' (hid'.symm.trans hwB.1)
  | saveRefresh v t =>
    cases hex
    left
    obtain ⟨id, c, hclient, hid⟩ := he.2.client
    refine ⟨.refl _ _, .refl _ _,
      .set (fun w hw hwB => ?_) fun hwB => hB id c hclient (hid.symm.trans hwB.1), .refl _ _, .refl _ _⟩
    obtain ⟨id', c', hclient', hid'⟩ := (h.refresh _ w hw).own hO hi (mem_of_getElem? he.1)
    exact hB id' c' hclient' (hid'.symm.trans hwB.1)
  | deleteAccess v =>
    cases hex
    left
    obtain ⟨id, c, hclient, hat, -, -⟩ := h.deletes hO hi he
    exact ⟨.refl _ _, .del fun w hw hwB => hB id c hclient ((hat w hw).symm.trans hwB.1), .refl _ _,
      .refl _ _, .refl _ _⟩
  | deleteRefresh v =>
    cases hex
    left
    obtain ⟨id, c, hclient, -, hrt, htomb⟩ := h.deletes hO hi he
    exact ⟨.refl _ _, .refl _ _, .del fun w hw hwB => hB id c hclient ((hrt w hw).symm.trans hwB.1),
      .del fun w hw hwB => hB id c hclient ((htomb w hw).symm.trans hwB.1), .refl _ _⟩
  | recordPoll hash at_ =>
    obtain ⟨req, c, d, -, hclient, hread, rfl, hid⟩ := he
    cases hex
    left
    rw [recordPoll]
    split
    · exact .of_eq rfl rfl
    · rename_i d' hd'
      have hd'c := (hprov.device_client hO hi hread hd').trans hid
      refine ⟨.refl _ _, .refl _ _, .refl _ _, .refl _ _, .set (fun w hw hwB => ?_) fun hwB => ?_⟩
      · cases hd'.symm.trans hw
        exact hB _ c hclient.1 (hd'c.symm.trans hwB)
      · exact hB _ c hclient.1 (hd'c.symm.trans hwB)
  | consumeDevice hash =>
    obtain ⟨-, req, c, d, n, -, hclient, hread, rfl, hid, -⟩ := he
    cases hex
    left
    rw [consumeDevice]
    split
    · exact .of_eq rfl rfl
    · rename_i d' hd'
      have hd'c := (hprov.device_client hO hi hread hd').trans hid
      split
      · refine ⟨.refl _ _, .refl _ _, .refl _ _, .refl _ _, .del fun w hw hwB => ?_⟩
        cases hd'.symm.trans hw
        exact hB _ c hclient.1 (hd'c.symm.trans hwB)
      · exact .of_eq rfl rfl
  | saveCode v c =>
    obtain ⟨-, -, req, hcall', -⟩ := ha
    exact absurd rfl (hcall.credentials_ne hcall')
  | saveDevice v d =>
    obtain ⟨-, ⟨req, hcall'⟩, -⟩ := ha
    exact absurd rfl (hcall.credentials_ne hcall')
  | recordDecision hash d =>
    obtain ⟨_, _, _, _, _, hcall', -⟩ := ha
    exact absurd rfl (hcall.credentials_ne hcall')
  | deleteBySubjectClient subject clientID => exact absurd rfl (hcall.credentials_ne ha.2.2)
  | revokeTokens f =>
    obtain ⟨-, hcall' | ⟨id', hcall', -⟩⟩ := ha <;> exact absurd rfl (hcall.credentials_ne hcall')
  | sweepTokens now => exact absurd rfl (hcall.credentials_ne ha)
  | sweepDevices now => exact absurd rfl (hcall.credentials_ne ha)
  | _ =>
    dsimp only [exec] at hex
    try split at hex
    all_goals cases hex
    all_goals exact .inl (.of_eq rfl rfl)

/-! ## How a replay is found -/

include ha in
/-- A call that has claimed nothing had claimed nothing before. -/
theorem open_of_advance (h : (p.advance op r).stage = .open) : p.stage = .open := by
  cases turns ha h with
  | still h => exact h
  | _ => contradiction

include ha hex in
/-- A replay is found where a value is claimed that has left a tombstone, and until the family is
revoked the call leaves the token store alone. -/
theorem reused_advance (hcall : p.call.AsClient) {F : String} (h : (p.advance op r).stage = .reused F) :
    sh'.tokens = sh.tokens ∧ (p.stage = .reused F ∨ ∃ v tomb, op = .consumeRefresh v ∧
      p.stage = .open ∧ sh.tokens.refresh.get (cfg.env.tokenHash v) = none ∧
      sh.tokens.tombstones.get (cfg.env.tokenHash v) = some tomb ∧
      tomb.expired (some sh.now) = false ∧ tomb.familyID = F) := by
  have hkept (hs : p.stage = .reused F) (h : (p.advance op r).stage = .reused F) : sh'.tokens = sh.tokens := by
    cases op with
    | consumeCode | consumeRefresh | consumeDevice => cases hs.symm.trans ha.1
    | bumpGrantEpoch | deleteBySubjectClient | revokeRefreshFamily => cases h
    | saveAccess value t =>
      obtain ⟨-, c, hs', -⟩ := ha
      cases hs.symm.trans hs'
    | saveRefresh value t =>
      obtain ⟨-, c, at_, hs', -⟩ := ha
      cases hs.symm.trans hs'
    | deleteAccess value =>
      rcases ha with ⟨hs', -⟩ | ⟨c, familyID, rt, hs'⟩ <;> cases hs.symm.trans hs'
    | deleteRefresh value =>
      rcases ha with ⟨hs', -⟩ | ⟨c, familyID, hs'⟩ <;> cases hs.symm.trans hs'
    | saveCode v c => cases hs.symm.trans ha.2.1
    | revokeTokens f =>
      obtain ⟨-, hcall' | ⟨id', hcall', -⟩⟩ := ha <;> exact absurd rfl (hcall.credentials_ne hcall')
    | sweepTokens now => exact absurd rfl (hcall.credentials_ne ha)
    | _ =>
      dsimp only [exec] at hex
      try split at hex
      all_goals cases hex
      all_goals rfl
  cases turns ha h with
  | still hs => exact ⟨hkept hs h, .inl hs⟩
  | finds hs hop _ =>
    subst hop
    change Stage.ofRefresh r = _ at h
    cases hex
    rename_i v _
    cases hv : sh.tokens.refresh.get (cfg.env.tokenHash v) with
    | some t =>
      rw [consumeRefresh_of_get hv] at h
      cases h
    | none =>
      have hconsume := @consumeRefresh_error _ _ _ (some sh.now) hv
      refine ⟨consumeRefresh_of_get_none hv, .inr ?_⟩
      obtain hres | ⟨tomb, htomb, hexp, hres⟩ := hconsume
      · rw [hres] at h
        cases h
      · rw [hres] at h
        cases h
        exact ⟨v, tomb, rfl, hs, hv, htomb, hexp, rfl⟩
  | _ => contradiction

/-! ## Runs -/

/-- What holds in every state a service reaches. -/
structure Regular (cfg : Config) (sh : Shared) (ph : ℕ → Option (Phase × Evidence)) : Prop where
  provenance : Provenance cfg sh ph
  ownership : Ownership cfg sh ph
  families : Families cfg.env sh (phases ph)

theorem Regular.start (h : Regular cfg sh ph) (hi : ph i = none) (c : Call) :
    Regular cfg sh (update ph i (some (Phase.start c, start c))) := by
  refine ⟨h.provenance.start hi c, h.ownership.start hi c, ?_⟩
  rw [phases_update]
  exact h.families.start (by rw [phases, hi]; rfl) c

include hO hi ha he hex in
theorem Regular.step (h : Regular cfg sh ph) :
    Regular cfg sh' (update ph i (some (p.advance op r, x.advance op r))) := by
  refine ⟨h.provenance.step hO hi he hex, h.ownership.step hO hi ha he hex h.provenance h.families.once, ?_⟩
  rw [phases_update]
  exact h.families.step hO.tidy (phases_some hi) ha hex

theorem Observed.Started.regular (h : σ₀.Started) : Regular cfg σ₀.sh σ₀.phase := by
  have hnone : ∀ j q, σ₀.phase j ≠ some q := fun j q hq => by
    rw [phase, h.idle j] at hq
    cases hq
  have hnone' : ∀ j q, phases σ₀.phase j ≠ some q := fun j q hq => by
    rw [phases, phase, h.idle j] at hq
    cases hq
  refine ⟨h.provenance, ⟨?_, ?_, ?_, fun j q hq => absurd hq (hnone j q), fun j q hq => absurd hq (hnone j q)⟩,
    ⟨?_, ?_, ?_, fun j q hq => absurd hq (hnone' j q), fun j q hq => absurd hq (hnone' j q),
      fun j q hq => absurd hq (hnone' j q), fun j q hq => absurd hq (hnone' j q)⟩⟩
  all_goals
    rw [h.tokens]
    rintro _ _ ⟨⟩

theorem Regular.runs {ok : Observed cfg → Event (service cfg) → Prop} (h : Pool.Reaches ok σ τ)
    (hσ : σ.Sound) (hreg : Regular cfg σ.sh σ.phase) : τ.Sound ∧ Regular cfg τ.sh τ.phase :=
  Observed.invariant (I := Regular cfg) h hσ (fun _ _ c _ hI hi => hI.start hi c)
    (fun _ _ _ _ _ _ _ _ _ hO hI hi _ ha he hex => hI.step hO hi ha he hex) hreg

/-! ## A request on its own -/

/-- The call is a `Refresh` that presents a spent refresh value of the client: the value has left a
tombstone that has not expired. -/
def PresentsSpent (cfg : Config) (sh : Shared) (B : String) (c : Call) (tomb : RefreshTombstone) : Prop :=
  ∃ req, c = .refresh req ∧ sh.tokens.refresh.get (cfg.env.tokenHash req.refreshToken) = none ∧
    sh.tokens.tombstones.get (cfg.env.tokenHash req.refreshToken) = some tomb ∧
    sh.now < tomb.expiresAt ∧ tomb.clientID = B

/-- The request is one of this client: it is registered under the id that is presented, and where it has
a secret, that is presented too. -/
def AuthenticatedAs (cfg : Config) (sh : Shared) (c : Call) (cl : Client) : Prop :=
  ∃ id secret, c.credentials = some (id, secret) ∧ sh.clients.lookup id = .ok cl ∧
    (cl.type = .confidential → cl.authenticate cfg.env secret = true)

/-- What a request of the client `cl` has spared so far, that began in `sh₀`. -/
structure Sparing (cfg : Config) (B : String) (c : Call) (cl : Client) (sh₀ sh : Shared) (p : Phase)
    (x : Evidence) : Prop where
  call : x.call = c
  now : sh.now = sh₀.now
  clients : sh.clients = sh₀.clients
  client : ∀ id cl', x.client = some (id, cl') → cl' = cl
  spares : Untouched B sh₀ sh ∨ ∃ tomb, PresentsSpent cfg sh₀ B c tomb ∧
    Spares B (· ≠ tomb.familyID) sh₀ sh
  opened : p.stage = .open → Untouched B sh₀ sh
  reused : ∀ F, p.stage = .reused F → Untouched B sh₀ sh ∧
    ∃ req tomb, c = .refresh req ∧
      sh.tokens.tombstones.get (cfg.env.tokenHash req.refreshToken) = some tomb ∧
      sh.now < tomb.expiresAt ∧ tomb.familyID = F

include h hprov hO in
/-- Revoking a family spares the clients that have none of its records. -/
theorem Ownership.spares_family (htomb : sh.tokens.tombstones.get k = some tomb) (hB : tomb.clientID ≠ B) :
    Untouched B sh { sh with tokens := (sh.tokens.revokeRefreshFamily tomb.familyID).2 } := by
  have hspares : Spares B (· ≠ tomb.familyID) sh _ := spares_revokeRefreshFamily sh tomb.familyID
  have hwithin := @revokeRefreshFamily_within sh.tokens tomb.familyID
  -- a record of the family is one of the client of the tombstone
  have hother : ∀ {a s familyID scopes}, Confined cfg ph a s scopes familyID → a = B →
      familyID ≠ tomb.familyID := by
    rintro a s familyID scopes hc rfl rfl
    exact hB ((h.tombstones k tomb htomb).2.client_unique hO hc)
  refine ⟨hspares.codes, fun k' t ht => ?_, fun k' t ht => ?_, fun k' t ht => ?_, hspares.devices⟩
  · refine ⟨hwithin.access, fun hget => (hspares.access k' t ⟨ht.1, ?_⟩).2 hget⟩
    exact hother (hprov.access k' t hget) ht.1
  · refine ⟨hwithin.refresh, fun hget => (hspares.refresh k' t ⟨ht.1, ?_⟩).2 hget⟩
    exact hother (hprov.refresh k' t hget) ht.1
  · refine ⟨hwithin.tombstones, fun hget => (hspares.tombstones k' t ⟨ht.1, ?_⟩).2 hget⟩
    exact hother (h.tombstones k' t hget).2 ht.1

include ha hex in
/-- Neither the clock nor the registry moves while a client's request runs. -/
theorem exec_now_eq (hcall : p.call.AsClient) : sh'.now = sh.now ∧ sh'.clients = sh.clients := by
  cases op with
  | advanceClock | createClient | setStatus | rotateSecret | removeClient =>
    exact absurd rfl (hcall.credentials_ne ha)
  | _ =>
    dsimp only [exec] at hex
    try split at hex
    all_goals cases hex
    all_goals exact ⟨rfl, rfl⟩

include he hex in
/-- The client a request finds is the one it is authenticated as. -/
theorem client_advance {cl' : Client} (hauth : AuthenticatedAs cfg sh x.call cl)
    (hold : ∀ id cl', x.client = some (id, cl') → cl' = cl)
    (h : (x.advance op r).client = some (id, cl')) : cl' = cl := by
  cases op with
  | getClient id' =>
    obtain ⟨id₀, secret, hcred, hlookup, -⟩ := hauth
    obtain rfl := he.2 id₀ secret hcred
    cases hex
    change (sh.clients.lookup id').toOption.map (id', ·) = some (id, cl') at h
    rw [hlookup] at h
    cases h
    rfl
  | recordDecision hash d =>
    dsimp only [advance] at h
    split at h <;> exact hold id cl' h
  | _ => exact hold id cl' h

include hO hi ha he hex in
/-- **Step lemma.** -/
theorem Sparing.step {c : Call} {sh₀ : Shared} (h : Sparing cfg B c cl sh₀ sh p x) (hreg : Regular cfg sh ph)
    (honce : ∀ k t, sh₀.tokens.refresh.get k = some t → sh₀.tokens.tombstones.get k = none)
    (hauth : AuthenticatedAs cfg sh₀ c cl) (hB : cl.id ≠ B) :
    Sparing cfg B c cl sh₀ sh' (p.advance op r) (x.advance op r) := by
  obtain rfl := h.call
  have hcall : x.call.AsClient := by
    obtain ⟨id, secret, hcred, -⟩ := hauth
    rw [Call.AsClient, hcred]
    rfl
  have hpcall : p.call.AsClient := (hO.agrees i _ hi).call ▸ hcall
  have hauth' : AuthenticatedAs cfg sh x.call cl := by
    obtain ⟨id, secret, hcred, hlookup, hsecret⟩ := hauth
    exact ⟨id, secret, hcred, by rw [h.clients]; exact hlookup, hsecret⟩
  obtain ⟨hnow, hclients⟩ := exec_now_eq ha hex hpcall
  have hcl : ∀ id cl', x.client = some (id, cl') → cl'.id ≠ B := fun id cl' hc => by
    rw [h.client id cl' hc]
    exact hB
  obtain hspares | ⟨F, rfl, hstage⟩ := spares_step hreg.ownership hreg.provenance hO hi ha he hex hcall hcl
  · refine ⟨(kept_advance he).call, hnow.trans h.now, hclients.trans h.clients,
      fun id cl' hc => client_advance he hex hauth' h.client hc, ?_, fun hopen => ?_, fun F hF => ?_⟩
    · obtain hold | ⟨tomb, hpres, hold⟩ := h.spares
      · exact .inl (hold.trans hspares)
      · exact .inr ⟨tomb, hpres, hold.trans (hspares.mono fun _ _ => trivial)⟩
    · exact (h.opened (open_of_advance ha hopen)).trans hspares
    · obtain ⟨htokens, hold | ⟨v, tomb, rfl, hopen, hrt, htomb, hexp, hfam⟩⟩ :=
        reused_advance ha hex hpcall hF
      · obtain ⟨hunt, req, tomb, hc, htomb, hexp, hfam⟩ := h.reused F hold
        refine ⟨hunt.trans hspares, req, tomb, hc, ?_, ?_, hfam⟩
        · rw [htokens]
          exact htomb
        · rw [hnow]
          exact hexp
      · obtain ⟨req, -, -, hc, rfl, -⟩ := he
        refine ⟨(h.opened hopen).trans hspares, req, tomb, hc, ?_, ?_, hfam⟩
        · rw [htokens]
          exact htomb
        · rw [hnow]
          simpa [RefreshTombstone.expired] using hexp
  · -- the family of the replay is revoked
    obtain ⟨hunt, req, tomb, hc, htomb, hexp, rfl⟩ := h.reused F hstage
    cases hex
    refine ⟨rfl, h.now, h.clients, h.client, ?_, by rintro ⟨⟩, by rintro _ ⟨⟩⟩
    by_cases hid : tomb.clientID = B
    · have htomb₀ := (hunt.tombstones _ tomb ⟨hid, trivial⟩).1 htomb
      have hrt₀ : sh₀.tokens.refresh.get (cfg.env.tokenHash req.refreshToken) = none := by
        cases hrt : sh₀.tokens.refresh.get (cfg.env.tokenHash req.refreshToken) with
        | none => rfl
        | some t =>
          rw [honce _ t hrt] at htomb₀
          cases htomb₀
      rw [h.now] at hexp
      exact .inr ⟨tomb, ⟨req, hc, hrt₀, htomb₀, hexp, hid⟩,
        (hunt.mono fun _ _ => trivial).trans (spares_revokeRefreshFamily sh tomb.familyID)⟩
    · exact .inl (hunt.trans (hreg.ownership.spares_family hreg.provenance hO htomb hid))

/-! ## A replay on its own -/

/-- No record and no tombstone of the family is stored. -/
def NoneOf (F : String) (sh : Shared) : Prop :=
  (∀ k t, sh.tokens.access.get k = some t → t.familyID ≠ F) ∧
  (∀ k t, sh.tokens.refresh.get k = some t → t.familyID ≠ F) ∧
  ∀ k t, sh.tokens.tombstones.get k = some t → t.familyID ≠ F

/-- A client that is known and, where it has a secret, proves it presents a value that was spent. -/
structure Replays (cfg : Config) (sh : Shared) (req : RefreshRequest) (cl : Client)
    (tomb : RefreshTombstone) : Prop where
  client : sh.clients.lookup req.clientID = .ok cl
  secret : cl.type = .confidential → cl.authenticate cfg.env req.clientSecret = true
  access : sh.tokens.access.get (cfg.env.tokenHash req.refreshToken) = none
  refresh : sh.tokens.refresh.get (cfg.env.tokenHash req.refreshToken) = none
  tombstone : sh.tokens.tombstones.get (cfg.env.tokenHash req.refreshToken) = some tomb
  live : tomb.expired (some sh.now) = false
  family : tomb.familyID ≠ ""

theorem wp_act_bind {o : Op} {f : o.Res → Svc cfg α} : wp (M := machine cfg) (act o >>= f).run Q sh ↔
      ∀ ω r sh', exec cfg o ω sh = some (r, sh') → wp (M := machine cfg) (f r).run Q sh' := Iff.rfl

theorem client_wp {secret : String} {f : Client → Svc cfg α} (hclient : sh.clients.lookup id = .ok cl)
    (hsecret : cl.type = .confidential → cl.authenticate cfg.env secret = true) :
    wp (M := machine cfg) (client id secret true >>= f).run Q sh ↔
      wp (M := machine cfg) (f cl).run Q sh := by
  have hpass : ¬ (true && decide (cl.type = .confidential) && !cl.authenticate cfg.env secret) = true := by
    intro hbad
    simp only [Bool.true_and, Bool.and_eq_true, decide_eq_true_eq, Bool.not_eq_true'] at hbad
    rw [hsecret hbad.1] at hbad
    cases hbad.2
  refine wp_bindE.trans (wp_act_bind.trans ⟨fun h => ?_, fun h ω r sh' hex => ?_⟩)
  · replace h := h "" _ _ rfl
    rw [hclient] at h
    dsimp only at h
    rw [if_neg hpass] at h
    exact h
  · cases hex
    rw [hclient]
    dsimp only
    rw [if_neg hpass]
    exact h

/-- Under the turnstile the claim reports the replay, and the family is revoked. -/
theorem claimRefresh_wp {epoch : UInt64} (h : Replays cfg sh req cl tomb) :
    wp (M := machine cfg) (claimRefresh c req epoch : Svc cfg TokenResponse).run
      (fun _ => NoneOf tomb.familyID) sh := by
  refine wp_act_bind.2 fun ω r sh' hex => ?_
  have hreuse : sh.tokens.consumeRefresh cfg.env (some sh.now) req.refreshToken =
      (.error (.refreshTokenReused tomb.familyID), sh.tokens) := by
    simp [consumeRefresh, h.refresh, h.tombstone, h.live]
  cases hex
  rw [hreuse]
  refine wp_act_bind.2 fun ω r sh' hex => ?_
  cases hex
  exact revokeRefreshFamily_spec h.family

/-- **A replay ends with its family gone.** -/
theorem refresh_wp (h : Replays cfg sh req cl tomb) :
    wp (M := machine cfg) (Call.body cfg (.refresh req)) (fun _ => NoneOf tomb.familyID) sh := by
  refine wp_bind.2 (wp_call.2 fun ω r sh₁ hex => ?_)
  obtain ⟨-, rfl⟩ := @exec_receive cfg ω _ _ _ _ hex
  replace h : Replays cfg { sh with seen := (Call.refresh req).presents ++ sh.seen } req cl tomb := { h with }
  generalize { sh with seen := (Call.refresh req).presents ++ sh.seen } = sh at h
  refine wp_bind.2 (wp_mono (Q := fun _ => NoneOf tomb.familyID) (wp_mapE ?_) ?_)
  · refine (client_wp h.client h.secret).2 ?_
    refine wp_act_bind.2 fun ω r sh' hex => ?_
    cases hex
    have howner : sh.tokens.tokenOwner cfg.env req.refreshToken = .error .tokenNotFound := by
      rw [tokenOwner, h.access, h.refresh]
    rw [howner]
    refine wp_act_bind.2 fun ω r sh' hex => ?_
    cases hex
    have hget : sh.tokens.getRefresh cfg.env req.refreshToken = .error .tokenNotFound := by
      rw [getRefresh, h.refresh]
    rw [hget]
    refine wp_act_bind.2 fun ω r sh' hex => ?_
    cases hex
    rw [refreshFamily_of_tombstone h.refresh h.tombstone h.live, refreshKey_ok h.family]
    refine wp_act_bind.2 fun ω r sh' hex => ?_
    obtain ⟨locked, rfl⟩ : ∃ locked, sh' = { sh with locked := locked } := by
      dsimp only [exec] at hex
      split at hex
      · cases hex
      · cases hex
        exact ⟨_, rfl⟩
    replace h : Replays cfg { sh with locked := locked } req cl tomb := { h with }
    refine wp_bindE.2 (wp_bind.2 (wp_mono (claimRefresh_wp h) ?_))
    intro outcome sh' hnone
    refine wp_act_bind.2 fun ω r sh'' hex => ?_
    cases hex
    rcases outcome with e | resp <;> exact hnone
  · intro r sh' hnone ω u sh'' hex
    cases hex
    exact hnone

/-- **Cross-client isolation**: a request that is authenticated as one client leaves the codes, the token
records, the tombstones and the device requests of every other client as they are, at each point while it
runs on its own. The exception is a `Refresh` that presents a spent value of the other client: it removes
at most the family of that value, and when it has returned it has removed all of it. -/
theorem client_isolation {c : Call} {cl : Client} (h₀ : σ₀.Started)
    (h : Pool.Reaches (fun _ _ => True) σ₀ σ) (hauth : AuthenticatedAs cfg σ.sh c cl)
    (hstart : σ.next (.start i c) = some σ₁) (hrun : Pool.Reaches (fun _ e => e.Of i) σ₁ τ) (hB : cl.id ≠ B) :
    (Untouched B σ.sh τ.sh ∨ ∃ tomb, PresentsSpent cfg σ.sh B c tomb ∧
      Spares B (· ≠ tomb.familyID) σ.sh τ.sh) ∧
    ∀ tomb, PresentsSpent cfg σ.sh B c tomb → (∃ a, τ.reply i = some a) →
      NoneOf tomb.familyID τ.sh := by
  obtain ⟨hsound, hreg⟩ := Regular.runs h (Observed.sound_of_idle h₀.idle) h₀.regular
  have h₁ : Pool.Reaches (fun _ _ => True) σ₀ σ₁ := h.tail ⟨_, trivial, hstart⟩
  obtain ⟨hsound₁, hreg₁⟩ := Regular.runs h₁ (Observed.sound_of_idle h₀.idle) h₀.regular
  obtain ⟨j, c', hev, -, rfl⟩ | ⟨_, _, _, _, _, _, _, _, hev, -⟩ := next_cases hstart
  swap
  · cases hev
  cases hev
  constructor
  · have hbegin : Sparing cfg B c cl σ.sh σ.sh (Phase.start c) (start c) :=
      ⟨rfl, rfl, rfl, nofun, .inl (.of_eq rfl rfl), fun _ => .of_eq rfl rfl, nofun⟩
    have key : Regular cfg τ.sh τ.phase ∧ ∃ p x, τ.phase i = some (p, x) ∧
        Sparing cfg B c cl σ.sh τ.sh p x := by
      refine (Observed.invariant (I := fun sh ph => Regular cfg sh ph ∧ ∃ p x, ph i = some (p, x) ∧
        Sparing cfg B c cl σ.sh sh p x) hrun hsound₁ (fun _ _ _ hok => hok.elim) ?_
        ⟨hreg₁, _, _, by rw [put_phase, update_self], hbegin⟩).2
      rintro σ' j ω p x op r sh rfl hO ⟨hreg', p', x', hj', hsparing⟩ hj - ha he hex
      cases hj.symm.trans hj'
      exact ⟨hreg'.step hO hj ha he hex, _, _, update_self ..,
        hsparing.step hO hj ha he hex hreg' hreg.families.once hauth hB⟩
    obtain ⟨-, p, x, -, hsparing⟩ := key
    exact hsparing.spares
  · rintro tomb ⟨req, rfl, hrt, htomb, hexp, -⟩ ⟨a, ha⟩
    obtain ⟨id, secret, hcred, hlookup, hsecret⟩ := hauth
    cases hcred
    have hreplays : Replays cfg σ.sh req cl tomb := by
      have hissued := hreg.ownership.tombstones _ tomb htomb
      refine ⟨hlookup, hsecret, hreg.ownership.access_none hsound.observes hissued.1, hrt, htomb, ?_, hissued.2.1⟩
      simpa [RefreshTombstone.expired] using hexp
    exact (hrun.ends (ends_of_start hstart (refresh_wp hreplays))).reply ha

/-! ### A replay by a stranger -/

/-- Two clients are registered, and nothing is issued. -/
def twoClients : Observed sampleConfig where
  sh := { Shared.init 0 with
    clients := ((∅ : Dict String Client).set "c"
      ⟨"c", "app", .public, .active, 0, ["https://r"], ["a.b"], false, []⟩).set "d"
      ⟨"d", "other", .public, .active, 0, ["https://d"], [], false, []⟩ }
  threads _ := none

theorem twoClients_started : twoClients.Started := ⟨fun _ => rfl, rfl, rfl, rfl⟩

/-- A spent value of the client `c`, in the hands of the client `d`. -/
def strangersRefresh : Call := .refresh ⟨"d", "", "rt", []⟩

/-- The family of a spent value that a stranger presents is gone, and nothing else of its owner. -/
theorem client_isolation_replayed : ∃ σ τ : Observed sampleConfig,
    (∃ tomb, PresentsSpent sampleConfig σ.sh "c" strangersRefresh tomb ∧
      NoneOf tomb.familyID τ.sh) ∧
    (Untouched "c" σ.sh τ.sh ∨ ∃ tomb, PresentsSpent sampleConfig σ.sh "c" strangersRefresh tomb ∧
      Spares "c" (· ≠ tomb.familyID) σ.sh τ.sh) := by
  let es : List (Event (service sampleConfig)) := rotating
  have h := reaches_of_run (σ := twoClients) es rfl
  have hthird : ∀ e ∈ steps 3 10, ∀ _ : Observed sampleConfig, e.Of 3 := fun e he _ => by
    obtain ⟨-, rfl⟩ := mem_replicate.1 he
    rfl
  obtain ⟨hspares, hgone⟩ := client_isolation (B := "c") (c := strangersRefresh) twoClients_started h
    ⟨"d", "", rfl, rfl, nofun⟩ rfl (reaches_of_forall _ hthird rfl) (by decide)
  exact ⟨(twoClients.runIf (fun _ _ => true) es).get rfl, _, ⟨_, ⟨_, rfl, rfl, rfl, by decide, rfl⟩,
    hgone _ ⟨_, rfl, rfl, rfl, by decide, rfl⟩ ⟨_, rfl⟩⟩, hspares⟩

end Re0Auth.OAuth

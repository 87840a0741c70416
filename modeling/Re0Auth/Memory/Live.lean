import Re0Auth.Memory.Orderly

/-!
# The live part of the in-memory store

Two stores side by side: one from which the records that had expired at a certain time have been removed,
and one that still has them. Every method does the same to what is live in both, so that the two stay
alike.

* **`Removes`**, **`Purges`**: exactly which records a deleting method takes;
* **`Keeps`**: the second has the tokens of the first that were live at the time, and no others;
* **`Awaits`**: the same of the requests. A code may be left over whose request is gone.
-/

namespace Re0Auth.Memory

open Lib OAuth Oidc OIDCStore Dict Option

variable {env : Env} {now t₀ : Time} {drawn : List String} {s s' : OIDCStore}
  {T T' T₁ T₁' : TokenTables} {P P' P₁ P₁' : PendingTables} {token c h k h' id : String} {V : Type}
  {m m' : Dict String V} {a : AccessToken} {chosen : AuthRequest → Prop}

/-! ## Tokens -/

/-- **Aim** of a `RevokeToken`: an access token by its id, a refresh token by its value, or nothing. -/
inductive Aim
  | nothing
  | accessID
  | value (idHash : String)

/-- What `RevokeToken` finds under a hash. -/
def aim (c h : String) (s : OIDCStore) : Aim :=
  match s.accessTokens.get h with
  | some t => if t.clientID ≠ c then .nothing else .accessID
  | none =>
    match s.refreshByIDHash.get h with
    | some key => if (s.refreshTokens.get key).any (·.clientID != c) then .nothing else .accessID
    | none =>
      match s.refreshTokens.get h with
      | none => .nothing
      | some t => if t.clientID ≠ c then .nothing else .value t.idHash

/-- The access token that goes. -/
def Aim.Access (h : String) : Aim → String → Prop
  | nothing, _ => False
  | accessID, h' => h' = h
  | value idHash, h' => h' = idHash

/-- The refresh token or the tombstone that goes, by its key and its id hash. -/
def Aim.Refresh (h : String) : Aim → String → String → Prop
  | nothing, _, _ => False
  | accessID, _, idHash => idHash = h
  | value _, k, _ => k = h

theorem removes_nothing : Removes (fun _ _ => False) (fun _ _ => False) (fun _ _ => False) T T := by
  refine ⟨fun h t => ?_, fun k t => ?_, fun k m => ?_⟩ <;> simp

theorem removes_revokeToken (hs : Issued env drawn s.tokens) (hh : env.tokenHash token = h) :
    Removes (fun h' _ => (aim c h s).Access h h') (fun k t => (aim c h s).Refresh h k t.idHash)
      (fun k m => (aim c h s).Refresh h k m.idHash) s.tokens (s.revokeToken env token c).tokens := by
  -- the index by id hash finds the rows with that hash and no others
  have hfiled := hs.filed.byIDHash
  have hindexed := hs.byIDHash
  have hindex : (s.deleteAccessLocked h).refreshByIDHash = s.refreshByIDHash := by
    rw [deleteAccessLocked]
    split <;> rfl
  dsimp only [tokens] at hfiled hindexed
  rw [revokeToken, hh, aim]
  cases hacc : s.accessTokens.get h with
  | some t =>
    dsimp only
    split_ifs
    · exact removes_nothing
    cases hkey : s.refreshByIDHash.get h
    all_goals
      refine ⟨?_, ?_, ?_⟩ <;> dsimp only [tokens, Aim.Access, Aim.Refresh] <;> grind
  | none =>
    cases hkey : s.refreshByIDHash.get h with
    | some key =>
      dsimp only
      split_ifs
      · exact removes_nothing
      refine ⟨?_, ?_, ?_⟩ <;> dsimp only [tokens, Aim.Access, Aim.Refresh] <;> grind
    | none =>
      cases hval : s.refreshTokens.get h with
      | none => exact removes_nothing
      | some t =>
        dsimp only
        split_ifs
        · exact removes_nothing
        refine ⟨?_, ?_, ?_⟩ <;> dsimp only [tokens, Aim.Access, Aim.Refresh] <;> grind

/-- **Keeps**: the second has the tokens of the first that were live at a time. -/
structure Keeps (t₀ : Time) (T T' : TokenTables) : Prop where
  access : ∀ h t, T'.accessTokens.get h = some t ↔ T.accessTokens.get h = some t ∧ t₀ < t.expiresAt
  refresh : ∀ k t, T'.refreshTokens.get k = some t ↔ T.refreshTokens.get k = some t ∧ t₀ < t.expiresAt
  tombstone : ∀ k m, T'.refreshTombstones.get k = some m ↔
    T.refreshTombstones.get k = some m ∧ t₀ < m.expiresAt
  bounds : T'.bounds = T.bounds

/-- A read that finds nothing expired. -/
theorem get_eq_of_live {live : V → Prop}
    (h : ∀ v, m'.get k = some v ↔ m.get k = some v ∧ live v) (hk : ∀ v, m.get k = some v → live v) :
    m'.get k = m.get k := by
  ext v
  rw [h v]
  exact ⟨And.left, fun hv => ⟨hv, hk v hv⟩⟩

namespace Keeps

theorem marked (h : Keeps t₀ T T') {k : String} {m : RefreshTombstone} :
    Marked T' k m ↔ Marked T k m ∧ t₀ < m.expiresAt :=
  marked_filter (fun m => t₀ < m.expiresAt) h.refresh h.tombstone

/-- The same tokens go in both, as far as they are live. -/
theorem removes {access access' : String → AccessToken → Prop} {refresh refresh' : String → RefreshToken → Prop}
    {tombstone tombstone' : String → RefreshTombstone → Prop} (h : Keeps t₀ T T')
    (hT : Removes access refresh tombstone T T₁) (hT' : Removes access' refresh' tombstone' T' T₁')
    (haccess : ∀ h t, T.accessTokens.get h = some t → t₀ < t.expiresAt → (access h t ↔ access' h t))
    (hrefresh : ∀ k t, T.refreshTokens.get k = some t → t₀ < t.expiresAt → (refresh k t ↔ refresh' k t))
    (htombstone : ∀ k m, T.refreshTombstones.get k = some m → t₀ < m.expiresAt →
      (tombstone k m ↔ tombstone' k m)) (hbounds : T₁.bounds = T.bounds) (hbounds' : T₁'.bounds = T'.bounds) :
    Keeps t₀ T₁ T₁' := by
  refine ⟨?_, ?_, ?_, by rw [hbounds, hbounds', h.bounds]⟩
  all_goals
    cases h
    cases hT
    cases hT'
    grind

theorem revokeFamily (h : Keeps t₀ s.tokens s'.tokens) (hs : Issued env drawn s.tokens) (familyID : String) :
    Keeps t₀ (s.revokeFamilyLocked familyID).tokens (s'.revokeFamilyLocked familyID).tokens := by
  by_cases hfamily : familyID = ""
  · simpa [revokeFamilyLocked, hfamily] using h
  have hdel : ∀ s : OIDCStore, Deletes env s (s.revokeFamilyLocked familyID) := fun _ =>
    Deletes.refl.revokeFamily familyID
  refine h.removes (removes_revokeFamily hfamily) (removes_revokeFamily hfamily) (fun h' t ht hlive => ?_)
    (fun _ _ _ _ => Iff.rfl) (fun _ _ _ _ => Iff.rfl) (hdel s).trims.bounds (hdel s').trims.bounds
  -- the mark of a live access token is live
  refine exists₂_congr fun k m => ?_
  rw [h.marked]
  constructor
  · rintro ⟨hm, hfam, hid⟩
    exact ⟨⟨hm, Int.lt_of_lt_of_le hlive (hs.signed h' t k m ht hm hid).2.2.2⟩, hfam, hid⟩
  · rintro ⟨⟨hm, -⟩, hfam, hid⟩
    exact ⟨hm, hfam, hid⟩

theorem removeOwned {owned spent : String → String → Prop} {sel : OIDCStore.Selection}
    (h : Keeps t₀ s.tokens s'.tokens) (hsel : Selects owned spent sel) (hs : Issued env drawn s.tokens)
    (hs' : Issued env drawn s'.tokens) : Keeps t₀ (s.removeOwned sel).tokens (s'.removeOwned sel).tokens := by
  refine h.removes (removes_removeOwned hsel hs.filed) (removes_removeOwned hsel hs'.filed)
    (fun h' t ht hlive => or_congr Iff.rfl ?_) (fun _ _ _ _ => Iff.rfl) (fun _ _ _ _ => Iff.rfl)
    (trims_removeOwned sel).bounds (trims_removeOwned sel).bounds
  refine exists₂_congr fun k m => ?_
  rw [h.tombstone]
  refine ⟨fun ⟨hm, hsp, hid⟩ => ⟨⟨hm, ?_⟩, hsp, hid⟩, fun ⟨⟨hm, _⟩, hsp, hid⟩ => ⟨hm, hsp, hid⟩⟩
  exact Int.lt_of_lt_of_le hlive (hs.signed h' t k m ht (.inr hm) hid).2.2.2

theorem sweepExpired (h : Keeps t₀ s.tokens s'.tokens) (env : Env) (now : Time) :
    Keeps t₀ (s.sweepExpired env now).2.tokens (s'.sweepExpired env now).2.tokens := by
  have hdel : ∀ s : OIDCStore, Deletes env s (s.sweepExpired env now).2 := fun _ => .sweepExpired
  exact h.removes (removes_sweepExpired env now s) (removes_sweepExpired env now s')
    (fun _ _ _ _ => Iff.rfl) (fun _ _ _ _ => Iff.rfl) (fun _ _ _ _ => Iff.rfl) (hdel s).trims.bounds
    (hdel s').trims.bounds

/-- What a sweep leaves are the live tokens. -/
theorem of_sweepExpired (env : Env) (now : Time) (s : OIDCStore) :
    Keeps now s.tokens (s.sweepExpired env now).2.tokens := by
  have h := removes_sweepExpired env now s
  have hdel : Deletes env s (s.sweepExpired env now).2 := .sweepExpired
  refine ⟨fun h' t => ?_, fun k t => ?_, fun k m => ?_, hdel.trims.bounds⟩
  · rw [h.access, Int.not_le]
  · rw [h.refresh, Int.not_le]
  · rw [h.tombstone, Int.not_le]

end Keeps

/-- What a `RevokeToken` finds under a hash has not expired. -/
def TargetLive (now : Time) (h : String) (s : OIDCStore) : Prop :=
  (∀ t, s.accessTokens.get h = some t → now < t.expiresAt) ∧
    ∀ k t, s.refreshTokens.get k = some t → k = h ∨ t.idHash = h → now < t.expiresAt

/-- It aims at the same then. -/
theorem Keeps.aim_eq (hkeeps : Keeps t₀ s.tokens s'.tokens)
    (hs : Issued env drawn s.tokens) (hs' : Issued env drawn s'.tokens) (hlive : TargetLive t₀ h s) :
    aim c h s' = aim c h s := by
  obtain ⟨haccess, hrefresh, -, -⟩ := hkeeps
  have hacc : s'.accessTokens.get h = s.accessTokens.get h := get_eq_of_live (haccess h) hlive.1
  have hvalue : s'.refreshTokens.get h = s.refreshTokens.get h :=
    get_eq_of_live (hrefresh h) fun t ht => hlive.2 h t ht (.inl rfl)
  have hfiled := hs.filed.byIDHash
  have hfiled' := hs'.filed.byIDHash
  have hindexed := hs.byIDHash
  have hindexed' := hs'.byIDHash
  obtain ⟨-, hlive⟩ := hlive
  dsimp only [tokens] at hrefresh hfiled hfiled' hindexed hindexed'
  -- the index by id hash finds the row in both or in none
  have hindex : s'.refreshByIDHash.get h = s.refreshByIDHash.get h := by
    ext k
    grind
  have hrow : ∀ key, s.refreshByIDHash.get h = some key →
      s'.refreshTokens.get key = s.refreshTokens.get key := by
    intro key hkey
    exact get_eq_of_live (hrefresh key) (by grind)
  rw [aim, aim, hacc, hindex, hvalue]
  cases s.accessTokens.get h with
  | some t => rfl
  | none =>
    cases hkey : s.refreshByIDHash.get h with
    | none => rfl
    | some key =>
      dsimp only
      rw [hrow key hkey]

theorem Keeps.revokeToken (h : Keeps t₀ s.tokens s'.tokens)
    (hs : Issued env drawn s.tokens) (hs' : Issued env drawn s'.tokens)
    (hlive : TargetLive t₀ (env.tokenHash token) s) (c : String) :
    Keeps t₀ (s.revokeToken env token c).tokens (s'.revokeToken env token c).tokens := by
  have hdel : ∀ s : OIDCStore, Deletes env s (s.revokeToken env token c) := fun _ => .revokeToken token c
  have haim := h.aim_eq (c := c) hs hs' hlive
  refine h.removes (removes_revokeToken hs rfl) (removes_revokeToken hs' rfl) ?_ ?_ ?_
    (hdel s).trims.bounds (hdel s').trims.bounds
  all_goals
    intro k v _ _
    rw [haim]

/-! ### Mints -/

/-- What a mint finds under the value it is presented with has not expired, and there is room for one more
tombstone. -/
def ClaimLive (env : Env) (now : Time) (current : String) (s : OIDCStore) : Prop :=
  current ≠ "" → s.refreshTombstones.size < s.maxTombstones ∧
    (∀ t, s.refreshTokens.get (env.tokenHash current) = some t → now < t.expiresAt) ∧
    ∀ m, s.refreshTombstones.get (env.tokenHash current) = some m → now < m.expiresAt

theorem Keeps.sub_tombstones (h : Keeps t₀ T T') : T'.refreshTombstones.Sub T.refreshTombstones :=
  fun k m hm => ((h.tombstone k m).1 hm).1

/-- A refresh token leaves its tombstone in both. -/
theorem Keeps.spend (h : Keeps t₀ s.tokens s'.tokens) (key : String) {m : RefreshTombstone}
    (hm : t₀ < m.expiresAt) :
    Keeps t₀
      ({ s with refreshTombstones := s.refreshTombstones.set key m }.deleteRefreshLocked key).tokens
      ({ s' with refreshTombstones := s'.refreshTombstones.set key m }.deleteRefreshLocked key).tokens := by
  obtain ⟨haccess, hrefresh, htombstone, hbounds⟩ := h
  refine ⟨?_, ?_, ?_, ?_⟩
  case refine_4 =>
    rw [(trims_deleteRefresh _ key).bounds, (trims_deleteRefresh _ key).bounds]
    exact hbounds
  all_goals
    dsimp only [tokens] at haccess hrefresh htombstone ⊢
    grind [get_set]

/-- An access token is stored in both. -/
theorem Keeps.putAccess (h : Keeps t₀ s.tokens s'.tokens) (ha : t₀ < a.expiresAt) :
    Keeps t₀ (s.putAccessLocked h' a).tokens (s'.putAccessLocked h' a).tokens := by
  refine ⟨?_, h.refresh, h.tombstone, h.bounds⟩
  have haccess := h.access
  dsimp only [tokens, putAccessLocked] at haccess ⊢
  grind [get_set]

/-- A pair is stored in both. -/
theorem Keeps.putPair (h : Keeps t₀ s.tokens s'.tokens) {t : RefreshToken}
    (ha : t₀ < a.expiresAt) (ht : t₀ < t.expiresAt) :
    Keeps t₀ ((s.putAccessLocked h' a).putRefreshLocked k t).tokens
      ((s'.putAccessLocked h' a).putRefreshLocked k t).tokens := by
  refine ⟨(h.putAccess ha).access, ?_, h.tombstone, h.bounds⟩
  have hrefresh := h.refresh
  dsimp only [tokens, putAccessLocked, putRefreshLocked] at hrefresh ⊢
  grind [get_set]

/-- The first half of a mint goes the same way in both. -/
theorem Keeps.mintFamily (h : Keeps t₀ s.tokens s'.tokens) (hs : Issued env drawn s.tokens)
    {current : String} (hlive : ClaimLive env t₀ current s) (draws : MintDraws) :
    (s'.mintFamily env draws current).1 = (s.mintFamily env draws current).1 ∧
      Keeps t₀ (s.mintFamily env draws current).2.tokens (s'.mintFamily env draws current).2.tokens := by
  rw [OIDCStore.mintFamily, OIDCStore.mintFamily]
  split_ifs with hcurrent
  · exact ⟨rfl, h⟩
  obtain ⟨hroom, hrow, htombstone⟩ := hlive hcurrent
  have hrefresh : s'.refreshTokens.get (env.tokenHash current) =
      s.refreshTokens.get (env.tokenHash current) := get_eq_of_live (h.refresh _) hrow
  have hspent : s'.refreshTombstones.get (env.tokenHash current) =
      s.refreshTombstones.get (env.tokenHash current) := get_eq_of_live (h.tombstone _) htombstone
  have hroom' : s'.refreshTombstones.size < s'.maxTombstones := by
    have hmax : s'.maxTombstones = s.maxTombstones := (Prod.ext_iff.1 h.bounds).1
    rw [hmax]
    exact Nat.lt_of_le_of_lt h.sub_tombstones.size_le hroom
  rw [OIDCStore.claimRefresh, OIDCStore.claimRefresh, hrefresh, hspent]
  cases hr : s.refreshTokens.get (env.tokenHash current) with
  | none =>
    cases hts : s.refreshTombstones.get (env.tokenHash current) with
    | none => exact ⟨rfl, h⟩
    | some m => exact ⟨rfl, h.revokeFamily hs _⟩
  | some held =>
    rw [evictTombstone_eq hroom, evictTombstone_eq hroom']
    exact ⟨rfl, h.spend _ (hrow held hr)⟩

/-! ## Requests and codes that go -/

/-- A pending request and its deadline. -/
def Pending (P : PendingTables) (id : String) (a : AuthRequest) (e : Time) : Prop :=
  P.authRequests.get id = some a ∧ P.authRequestExpiry.get id = some e

theorem Awaited.pending_of_request (h : Awaited drawn P) {a : AuthRequest}
    (ha : P.authRequests.get id = some a) : ∃ e, Pending P id a e := by
  have hsome := h.deadline id
  rw [ha] at hsome
  obtain ⟨e, he⟩ := isSome_iff_exists.1 hsome.symm
  exact ⟨e, ha, he⟩

/-- What no deletion changes beside the records. -/
def PendingTables.bounds (P : PendingTables) : Dict RevocationScope ℤ × ℕ × Duration :=
  (P.revocationEpochs, P.maxPendingAuthRequests, P.requestTTL)

/-- **Purges**: the requests and codes that go are those the tests name. -/
structure Purges (request : String → AuthRequest → Time → Prop) (code : String → CodeRecord → Prop)
    (P P₁ : PendingTables) : Prop where
  request : ∀ id a e, Pending P₁ id a e ↔ Pending P id a e ∧ ¬ request id a e
  code : ∀ k c, P₁.codes.get k = some c ↔ P.codes.get k = some c ∧ ¬ code k c
  bounds : P₁.bounds = P.bounds

section PendingFrame

variable (s) {k : String} {c : CodeRecord}

@[simp] theorem codes_deleteRequest (id : String) : (s.deleteRequestLocked id).codes = s.codes := by
  rw [deleteRequestLocked]
  split <;> rfl

@[simp] theorem authRequests_deleteCodes (id : String) :
    (s.deleteCodesForRequestLocked id).2.authRequests = s.authRequests := by
  rw [deleteCodesForRequestLocked]
  split_ifs <;> rfl

@[simp] theorem authRequests_deleteCode (k : String) :
    (s.deleteCodeLocked k).authRequests = s.authRequests := by
  rw [deleteCodeLocked]
  split <;> rfl

theorem get_deleteCode {k' : String} :
    (s.deleteCodeLocked k).codes.get k' = some c ↔ k' ≠ k ∧ s.codes.get k' = some c := by
  rw [deleteCodeLocked]
  split <;> grind [get_del]

/-- The codes of a request go. -/
theorem get_deleteCodesForRequest (hs : Awaited drawn s.pending) {id : String} :
    (s.deleteCodesForRequestLocked id).2.codes.get k = some c ↔
      s.codes.get k = some c ∧ c.requestID ≠ id := by
  have hbucket : s.codes.get k = some c → (k ∈ s.codeByRequest.bucket id ↔ c.requestID = id) := by
    intro hc
    refine (hs.code k id).trans ?_
    show (∃ v, s.codes.get k = some v ∧ some v.requestID = some id) ↔ _
    simp [hc]
  rw [deleteCodesForRequestLocked]
  split_ifs with hempty
  · grind
  · grind [get_foldl_del]

@[simp] theorem pending_removeAccess (p : AccessToken → Bool) (keys : List String) :
    (removeAccess p keys s).2.pending = s.pending :=
  table_removeAll s pending fun s k _ => pending_deleteAccess s k

@[simp] theorem pending_removeRefresh (p : RefreshToken → Bool) (keys : List String) :
    (removeRefresh p keys s).2.pending = s.pending :=
  table_removeAll s pending fun s k _ => pending_deleteRefresh s k

@[simp] theorem pending_removeTombstones (p : RefreshTombstone → Bool) :
    (removeTombstones p s).pending = s.pending :=
  table_removeAll s pending fun _ _ _ => pending_deleteAccess _ _

@[simp] theorem pending_forgetTombstones (h : String) : (s.forgetTombstones h).pending = s.pending :=
  table_removeAll s pending fun _ _ _ => rfl

@[simp] theorem pending_removeDevices (env : Env) (p : DeviceRecord → Bool) :
    (removeDevices env p s).2.pending = s.pending :=
  table_removeAll s pending fun _ _ _ => rfl

@[simp] theorem pending_revokeFamily (familyID : String) :
    (s.revokeFamilyLocked familyID).pending = s.pending := by
  rw [revokeFamilyLocked]
  split_ifs
  · rfl
  · refine (pending_removeTombstones _ _).trans ?_
    exact table_removeAll s pending fun s k _ => by simp

@[simp] theorem pending_terminateSession (u c : String) : (s.terminateSession u c).pending = s.pending := by
  simp [terminateSession]

theorem pending_tokenRequestByRefreshToken (env : Env) (now : Time) (v : String) :
    (s.tokenRequestByRefreshToken env now v).2.pending = s.pending := by
  rw [tokenRequestByRefreshToken]
  split
  · rfl
  · split
    · exact pending_revokeFamily _ _
    · rfl

theorem pending_revokeToken (env : Env) (token c : String) :
    (s.revokeToken env token c).pending = s.pending := by
  rw [revokeToken]
  dsimp only
  split
  · split_ifs
    · rfl
    · split <;> simp
  · split
    · split_ifs <;> simp
    · split
      · rfl
      · split_ifs <;> simp

theorem pending_mintFamily (env : Env) (draws : MintDraws) (current : String) :
    (s.mintFamily env draws current).2.pending = s.pending := by
  have hevict : ∀ spent, (s.evictTombstone draws.evict spent).pending = s.pending := by
    intro spent
    rw [evictTombstone]
    split_ifs <;> rfl
  rw [mintFamily]
  split_ifs
  · rfl
  · rw [OIDCStore.claimRefresh]
    split
    · split
      · rfl
      · exact pending_revokeFamily _ _
    · exact (pending_deleteRefresh _ _).trans (hevict _)

theorem pending_mint (env : Env) (draws : MintDraws) (now : Time) (request : TokenRequest)
    (captured : Option RevocationEpochs) (current : String) :
    (s.createAccessAndRefreshTokens env draws now request captured current).2.pending = s.pending := by
  have hfamily := pending_mintFamily s env draws current
  rw [createAccessAndRefreshTokens]
  rcases hclaim : s.mintFamily env draws current with ⟨x, s₁⟩
  rw [hclaim] at hfamily
  cases x with
  | error e => exact hfamily
  | ok familyID =>
    dsimp only
    split_ifs <;> exact hfamily

end PendingFrame

/-- A deletion changes no request that stays. -/
structure ShrinksTo (P P₁ : PendingTables) : Prop where
  authRequests : P₁.authRequests.Sub P.authRequests
  authRequestExpiry : P₁.authRequestExpiry.Sub P.authRequestExpiry
  bounds : P₁.bounds = P.bounds

theorem ShrinksTo.refl (P : PendingTables) : ShrinksTo P P := ⟨.refl _, .refl _, rfl⟩

theorem ShrinksTo.trans {P₂ : PendingTables} (h : ShrinksTo P P₁) (h' : ShrinksTo P₁ P₂) : ShrinksTo P P₂ :=
  ⟨h'.authRequests.trans h.authRequests, h'.authRequestExpiry.trans h.authRequestExpiry,
    h'.bounds.trans h.bounds⟩

theorem Deletes.shrinksTo (h : Deletes env s s') : ShrinksTo s.pending s'.pending := by
  induction h with
  | refl => exact .refl _
  | access _ k ih => rwa [pending_deleteAccess]
  | refresh _ k ih => rwa [pending_deleteRefresh]
  | tombstone _ k ih => exact ih
  | request _ id ih =>
    refine ih.trans ?_
    rw [deleteRequestLocked]
    split
    · exact .refl _
    · exact ⟨sub_del _ _, sub_del _ _, rfl⟩
  | code _ k ih =>
    refine ih.trans ?_
    rw [deleteCodeLocked]
    split
    · exact .refl _
    · exact ⟨.refl _, .refl _, rfl⟩
  | codes _ id ih =>
    refine ih.trans ?_
    rw [deleteCodesForRequestLocked]
    split_ifs
    · exact .refl _
    · exact ⟨.refl _, .refl _, rfl⟩
  | device _ _ ih => exact ih

/-- A deleting method, by the requests that are left. -/
theorem Deletes.purges {request : String → AuthRequest → Time → Prop} {code : String → CodeRecord → Prop}
    (h : Deletes env s s') (hs : Orderly env drawn s) (hrequest : ∀ id a e, Pending s.pending id a e →
      ((s'.authRequests.get id).isSome = true ↔ ¬ request id a e))
    (hcode : ∀ k c, s'.codes.get k = some c ↔ s.codes.get k = some c ∧ ¬ code k c) :
    Purges request code s.pending s'.pending := by
  have hshrinks := h.shrinksTo
  refine ⟨fun id a e => ⟨fun ⟨ha, he⟩ => ?_, fun ⟨hp, hkept⟩ => ?_⟩, hcode, hshrinks.bounds⟩
  · have hp : Pending s.pending id a e := ⟨hshrinks.authRequests id a ha, hshrinks.authRequestExpiry id e he⟩
    exact ⟨hp, (hrequest id a e hp).1 (isSome_iff_exists.2 ⟨a, ha⟩)⟩
  · obtain ⟨a', ha'⟩ := isSome_iff_exists.1 ((hrequest id a e hp).2 hkept)
    obtain ⟨e', hp'⟩ := (h.orderly hs).awaited.pending_of_request ha'
    cases hp.1.symm.trans (hshrinks.authRequests id a' ha')
    cases hp.2.symm.trans (hshrinks.authRequestExpiry id e' hp'.2)
    exact hp'

theorem isSome_get_iff {v : V} {q : Prop}
    (h : ∀ v, m'.get k = some v ↔ m.get k = some v ∧ q) (hv : m.get k = some v) :
    (m'.get k).isSome = true ↔ q := by
  rw [isSome_iff_exists]
  constructor
  · rintro ⟨v', hv'⟩
    exact ((h v').1 hv').2
  · exact fun hq => ⟨v, (h v).2 ⟨hv, hq⟩⟩

theorem purges_deleteAuthRequest (hs : Orderly env drawn s) (id : String) :
    Purges (fun id' _ _ => id' = id) (fun _ c => c.requestID = id) s.pending
      (s.deleteAuthRequest id).pending := by
  refine (Deletes.deleteAuthRequest id).purges hs (fun id' a e hp => ?_) fun k c => ?_
  · refine isSome_get_iff (fun a' => ?_) hp.1
    rw [deleteAuthRequest, authRequests_deleteCodes, get_deleteRequest]
    exact and_comm
  · rw [deleteAuthRequest, get_deleteCodesForRequest _ (hs.awaited.deleteRequest id), codes_deleteRequest]

/-- A code that is redeemed goes with its request. -/
theorem purges_redeemed (hs : Orderly env drawn s) (k id : String) :
    Purges (fun id' _ _ => id' = id) (fun k' _ => k' = k) s.pending
      ((s.deleteCodeLocked k).deleteRequestLocked id).pending := by
  refine ((Deletes.refl.code k).request id : Deletes env s _).purges hs (fun id' a e hp => ?_) fun k' c => ?_
  · refine isSome_get_iff (fun a' => ?_) hp.1
    rw [get_deleteRequest, authRequests_deleteCode]
    exact and_comm
  · rw [codes_deleteRequest, get_deleteCode]
    exact and_comm

/-- The codes of a list of requests go. -/
theorem get_foldl_deleteCodes (hs : Orderly env drawn s) (purged : List String) (n : ℕ) {c : CodeRecord} :
    (purged.foldl (fun (n, s) id =>
      let (removed, s) := deleteCodesForRequestLocked s id
      (n + removed, s)) (n, s)).2.codes.get k = some c ↔
      s.codes.get k = some c ∧ c.requestID ∉ purged := by
  induction purged generalizing n s with
  | nil => simp
  | cons id purged ih =>
    have hs' : Orderly env drawn (s.deleteCodesForRequestLocked id).2 := (Deletes.refl.codes id).orderly hs
    refine (ih hs' _).trans ?_
    rw [get_deleteCodesForRequest s hs.awaited, List.mem_cons, not_or, and_assoc]

/-- The pending requests that pass a test go, each with its codes. -/
theorem purges_removeRequests {p : AuthRequest → Bool} {keys : List String}
    (hs : Orderly env drawn s) (hchosen : ∀ id a, s.authRequests.get id = some a →
      (id ∈ keys ∧ p a = true ↔ chosen a)) :
    Purges (fun _ a _ => chosen a) (fun _ c => ∃ a, s.authRequests.get c.requestID = some a ∧ chosen a)
      s.pending (removeRequests p keys s).2.pending := by
  have hdel : Deletes env s (removeRequests p keys s).2 := Deletes.refl.removeRequests p keys
  have hloop : Deletes env s
      (removeAll authRequests p (fun s id _ => s.deleteRequestLocked id) keys s).2 :=
    Deletes.refl.removeAll fun _ id _ _ h => h.request id
  refine hdel.purges hs (fun id a e hp => ?_) fun k c => ?_
  · refine isSome_get_iff (m := s.authRequests) (fun a' => ?_) hp.1
    rw [removeRequests]
    rw [table_foldl_deleteCodes _ authRequests authRequests_deleteCodes, get_removeAll deletesOne_request]
    refine and_congr_right fun ha' => ?_
    cases hp.1.symm.trans ha'
    rw [← hchosen id a hp.1, not_and, Bool.not_eq_true]
  · rw [removeRequests]
    rw [get_foldl_deleteCodes (hloop.orderly hs), mem_removeAll deletesOne_request,
      table_removeAll s codes fun s id _ => codes_deleteRequest s id]
    refine and_congr_right fun _ => not_congr ?_
    constructor
    · rintro ⟨hkeys, a, ha, hp⟩
      exact ⟨a, ha, (hchosen _ a ha).1 ⟨hkeys, hp⟩⟩
    · rintro ⟨a, ha, hc⟩
      obtain ⟨hkeys, hp⟩ := (hchosen _ a ha).2 hc
      exact ⟨hkeys, a, ha, hp⟩

theorem deletesOne_code : DeletesOne codes fun s k (_ : CodeRecord) => s.deleteCodeLocked k :=
  fun s _ _ _ _ => get_deleteCode s

/-- The loop over the deadlines: a request and its deadline go together. -/
theorem get_sweepRequests (hs : Awaited drawn s.pending) {e : Time} :
    (s.sweepRequests now).2.authRequestExpiry.get id = some e ↔
      s.authRequestExpiry.get id = some e ∧ ¬ e < now := by
  have hone : ∀ s : OIDCStore, Awaited drawn s.pending → ∀ k (v : Time) k' v',
      (s.deleteRequestLocked k).authRequestExpiry.get k' = some v' ↔
        k' ≠ k ∧ s.authRequestExpiry.get k' = some v' := by
    intro s hs k v k' v'
    -- without the request there is no deadline either
    have hdeadline := hs.deadline k
    dsimp only [pending] at hdeadline
    rw [deleteRequestLocked]
    split <;> grind [get_del]
  refine (get_removeAll_of (I := fun s => Awaited drawn s.pending)
    (fun s k _ h => h.deleteRequest k) hone hs).trans ?_
  refine and_congr_right fun he => ?_
  have hmem : id ∈ s.authRequestExpiry.keys := mem_keys_iff.2 ⟨e, he⟩
  simp [hmem]

/-- What is past its deadline goes. -/
theorem purges_sweepExpired (hs : Orderly env drawn s) (now : Time) :
    Purges (fun _ _ e => e < now) (fun _ c => c.expiresAt < now) s.pending
      (s.sweepExpired env now).2.pending := by
  have hdel : Deletes env s (s.sweepExpired env now).2 := .sweepExpired
  obtain ⟨s₀, h₀⟩ : ∃ s₀, s₀ = (s.sweepRequests now).2 := ⟨_, rfl⟩
  obtain ⟨s₁, h₁⟩ : ∃ s₁, s₁ = (removeAll codes (fun c => c.expiresAt < now)
      (fun s k _ => s.deleteCodeLocked k) s₀.codes.keys s₀).2 := ⟨_, rfl⟩
  have hrequests : Deletes env s s₀ := h₀ ▸ Deletes.refl.removeAll fun _ id _ _ h => h.request id
  have hlast : (s.sweepExpired env now).2.pending = s₁.pending := by
    have htombstones : ∀ (s : OIDCStore) p keys, (removeAll refreshTombstones p
        (fun s k _ => s.deleteTombstone k) keys s).2.pending = s.pending := fun s _ _ =>
      table_removeAll s pending fun _ _ _ => rfl
    rw [sweepExpired]
    rw [pending_removeDevices, htombstones, pending_removeRefresh, pending_removeAccess, h₁, h₀]
  obtain ⟨s₂, h₂⟩ : ∃ s₂, s₂ = (s.sweepExpired env now).2 := ⟨_, rfl⟩
  rw [← h₂] at hdel hlast ⊢
  have hauth : s₁.authRequests = s₀.authRequests := by
    rw [h₁]
    exact table_removeAll s₀ authRequests fun s k _ => authRequests_deleteCode s k
  refine hdel.purges hs (fun id a e hp => ?_) fun k c => ?_
  · -- what is left of the requests is what has a deadline left
    have hleft := (hrequests.orderly hs).awaited.deadline id
    rw [show s₂.authRequests = s₁.authRequests from congrArg PendingTables.authRequests hlast, hauth,
      show (s₀.authRequests.get id).isSome = _ from hleft]
    refine isSome_get_iff (fun e' => ?_) hp.2
    show s₀.authRequestExpiry.get id = some e' ↔ _
    rw [h₀, get_sweepRequests hs.awaited]
    refine and_congr_right fun he' => ?_
    cases hp.2.symm.trans he'
    rfl
  · rw [show s₂.codes = s₁.codes from congrArg PendingTables.codes hlast, h₁,
      get_removeAll_keys deletesOne_code, h₀]
    rw [show (s.sweepRequests now).2.codes = s.codes from
      table_removeAll s codes fun s id _ => codes_deleteRequest s id]
    simp

/-- The requests a selection names. -/
theorem purges_removeSelected {sel : OIDCStore.Selection}
    (hs : Orderly env drawn s) (hchosen : ∀ s : OIDCStore, Awaited drawn s.pending → ∀ id a,
      s.authRequests.get id = some a → (id ∈ sel.requestKeys s ∧ sel.request a = true ↔ chosen a)) :
    Purges (fun _ a _ => chosen a) (fun _ c => ∃ a, s.authRequests.get c.requestID = some a ∧ chosen a)
      s.pending (s.removeSelected env sel).2.pending := by
  obtain ⟨s₁, h₁⟩ : ∃ s₁, s₁ = s.removeOwned sel := ⟨_, rfl⟩
  have hdel : Deletes env s s₁ :=
    h₁ ▸ ((Deletes.refl.removeAccess _ _).removeRefresh _ _).removeTombstones _
  have hpending : s₁.pending = s.pending := by
    rw [h₁]
    simp [removeOwned]
  have hlast : (s.removeSelected env sel).2.pending =
      (removeRequests sel.request (sel.requestKeys s₁) s₁).2.pending := by
    rw [h₁]
    simp [removeSelected, removeOwned]
  have hs₁ := hdel.orderly hs
  have hpurges := purges_removeRequests hs₁ (hchosen s₁ hs₁.awaited)
  rw [hpending] at hpurges
  rw [hlast]
  rwa [show s.authRequests = s₁.authRequests from congrArg PendingTables.authRequests hpending.symm]

/-! ## Requests and codes -/

/-- **Awaits**: the second has the requests of the first whose deadline had not passed at a time, and the
codes. A code of the second that the first has lost has no request and never will. -/
structure Awaits (t₀ : Time) (drawn : List String) (P P' : PendingTables) : Prop where
  request : ∀ id a e, Pending P' id a e ↔ Pending P id a e ∧ t₀ ≤ e
  code : ∀ k c, P.codes.get k = some c → t₀ ≤ c.expiresAt → P'.codes.get k = some c
  stray : ∀ k c, P'.codes.get k = some c → P.codes.get k = some c ∨
    P'.authRequests.get c.requestID = none ∧ c.requestID ∈ drawn
  bounds : P'.bounds = P.bounds

namespace Awaits

variable {id : String} {a a' : AuthRequest} {drawn' : List String}
  {request : String → AuthRequest → Time → Prop} {code : String → CodeRecord → Prop}
  {ix : Index String String}

section

variable (hw : Awaits t₀ drawn P P') (hA : Awaited drawn P) (hA' : Awaited drawn P')
  (hsub : P₁'.authRequests.Sub P'.authRequests)
include hw

include hA' in
theorem sub_authRequests : P'.authRequests.Sub P.authRequests := by
  intro id a ha
  obtain ⟨e, hp⟩ := hA'.pending_of_request ha
  exact ((hw.request id a e).1 hp).1.1

include hA' in
/-- A request is in both, or in neither, or the second has lost it. -/
theorem request_cases (id : String) :
    P.authRequests.get id = none ∧ P'.authRequests.get id = none ∨
      ∃ a, P.authRequests.get id = some a ∧
        (P'.authRequests.get id = some a ∨ P'.authRequests.get id = none) := by
  have hsub := hw.sub_authRequests hA' id
  cases ha : P.authRequests.get id <;> cases ha' : P'.authRequests.get id <;> grind

theorem mono (hd : ∀ v ∈ drawn, v ∈ drawn') : Awaits t₀ drawn' P P' :=
  { hw with stray := fun k c hc => (hw.stray k c hc).imp_right fun hs => ⟨hs.1, hd _ hs.2⟩ }

include hsub in
/-- The same requests go in both. A code that goes in the first only has no request left. -/
theorem purges {request' : String → AuthRequest → Time → Prop} {code' : String → CodeRecord → Prop}
    (hP : Purges request code P P₁) (hP' : Purges request' code' P' P₁')
    (hrequest : ∀ id a e, Pending P' id a e → (request id a e ↔ request' id a e))
    (hcode : ∀ k c, P.codes.get k = some c → P'.codes.get k = some c → code' k c → code k c)
    (hstray : ∀ k c, P.codes.get k = some c → P'.codes.get k = some c → code k c → ¬ code' k c →
      P'.authRequests.get c.requestID = none ∧ c.requestID ∈ drawn) : Awaits t₀ drawn P₁ P₁' := by
  refine ⟨?_, ?_, fun k c hc => ?_, by rw [hP.bounds, hP'.bounds, hw.bounds]⟩
  · cases hw
    cases hP
    cases hP'
    grind
  · cases hw
    cases hP
    cases hP'
    grind
  · -- a request that is gone stays gone
    have hgone : ∀ {id}, P'.authRequests.get id = none → P₁'.authRequests.get id = none := by
      intro id hnone
      refine eq_none_iff_forall_ne_some.2 fun a ha => ?_
      exact absurd (hnone.symm.trans (hsub id a ha)) nofun
    obtain ⟨hc', hkept'⟩ := (hP'.code k c).1 hc
    obtain hc | ⟨hnone, hdrawn⟩ := hw.stray k c hc'
    · by_cases hgo : code k c
      · exact .inr ((hstray k c hc hc' hgo hkept').imp_left hgone)
      · exact .inl ((hP.code k c).2 ⟨hc, hgo⟩)
    · exact .inr ⟨hgone hnone, hdrawn⟩

include hsub in
/-- Both delete by the same tests. -/
theorem purges_same (hP : Purges request code P P₁) (hP' : Purges request code P' P₁') :
    Awaits t₀ drawn P₁ P₁' :=
  hw.purges hsub hP hP' (fun _ _ _ _ => Iff.rfl) (fun _ _ _ _ => id) fun _ _ _ _ hc hc' => absurd hc hc'

include hA hA' hsub in
/-- The requests of an owner go, with the codes of those that are there. -/
theorem purges_chosen {chosen : AuthRequest → Prop} (hP : Purges (fun _ a _ => chosen a)
      (fun _ c => ∃ a, P.authRequests.get c.requestID = some a ∧ chosen a) P P₁)
    (hP' : Purges (fun _ a _ => chosen a)
      (fun _ c => ∃ a, P'.authRequests.get c.requestID = some a ∧ chosen a) P' P₁') :
    Awaits t₀ drawn P₁ P₁' := by
  refine hw.purges hsub hP hP' (fun _ _ _ _ => Iff.rfl) ?_ ?_
  · rintro k c - - ⟨a, ha, hc⟩
    exact ⟨a, hw.sub_authRequests hA' _ a ha, hc⟩
  · rintro k c - - ⟨a, ha, hc⟩ hkept
    obtain ⟨hnone, -⟩ | ⟨a', ha', hboth⟩ := hw.request_cases hA' c.requestID
    · cases hnone.symm.trans ha
    · cases ha'.symm.trans ha
      exact ⟨hboth.resolve_left fun ha' => hkept ⟨a, ha', hc⟩, hA.drawn _ a ha⟩

include hA' in
/-- A request changes in both. -/
theorem setRequest {ix' : Index String String} (ha : P'.authRequests.get id = some a) :
    Awaits t₀ drawn { P with authRequests := P.authRequests.set id a', requestBySubject := ix }
      { P' with authRequests := P'.authRequests.set id a', requestBySubject := ix' } := by
  -- the deadlines agree, since the request is pending in both
  obtain ⟨e₀, hp'⟩ := hA'.pending_of_request ha
  obtain ⟨hp, hlive⟩ := (hw.request id a e₀).1 hp'
  obtain ⟨hrequest, hcode, hstray, hbounds⟩ := hw
  refine ⟨?_, hcode, ?_, hbounds⟩
  all_goals
    dsimp only [Pending] at hp hp' hrequest ⊢
    grind [get_set]

include hA in
/-- A request changes in the first that the second has lost. -/
theorem setRequest_lost (ha : P.authRequests.get id = some a) (hnone : P'.authRequests.get id = none) :
    Awaits t₀ drawn { P with authRequests := P.authRequests.set id a', requestBySubject := ix } P' := by
  obtain ⟨e₀, hp⟩ := hA.pending_of_request ha
  have hrequest := hw.request
  refine ⟨?_, hw.code, hw.stray, hw.bounds⟩
  dsimp only [Pending] at hp hrequest ⊢
  grind [get_set]

end

section

variable (hP : Awaits t₀ drawn s.pending s'.pending) (hA : Awaited drawn s.pending)
  (hA' : Awaited drawn s'.pending)
include hP hA hA'

theorem setAuthTime (id : String) (t : Time) :
    Awaits t₀ drawn (s.setAuthTime id t).2.pending (s'.setAuthTime id t).2.pending := by
  rw [OIDCStore.setAuthTime, OIDCStore.setAuthTime]
  obtain ⟨ha, ha'⟩ | ⟨a, ha, ha' | ha'⟩ := hP.request_cases hA' id
  all_goals
    dsimp only [pending] at ha ha'
    rw [ha, ha']
  · exact hP
  · exact hP.setRequest hA' ha'
  · exact hP.setRequest_lost hA ha ha'

theorem completeLogin (now : Time) (id u : String) (scopes : List String) :
    Awaits t₀ drawn (s.completeLogin now id u scopes).2.pending
      (s'.completeLogin now id u scopes).2.pending := by
  rw [OIDCStore.completeLogin, OIDCStore.completeLogin]
  obtain ⟨ha, ha'⟩ | ⟨a, ha, ha' | ha'⟩ := hP.request_cases hA' id
  all_goals
    dsimp only [pending] at ha ha'
    rw [ha, ha']
    dsimp only
  · exact hP
  · split
    · exact hP
    · exact hP.setRequest hA' ha'
  · split
    · exact hP
    · exact hP.setRequest_lost hA ha ha'

/-- A request under a new id is stored in both. -/
theorem createAuthRequest
    (hroom : s.authRequests.size < s.maxPendingAuthRequests) (hid : id ∉ drawn)
    (hd : ∀ v ∈ drawn, v ∈ drawn') (hnow : t₀ ≤ now) (req : AuthorizeParams) (u : String) :
    (s'.createAuthRequest now id req u).1 = (s.createAuthRequest now id req u).1 ∧
      Awaits t₀ drawn' (s.createAuthRequest now id req u).2.pending
        (s'.createAuthRequest now id req u).2.pending := by
  obtain ⟨hrequest, hcode, hstray, hbounds⟩ := hP
  have hlive : t₀ ≤ now + s.requestTTL :=
    Int.le_trans hnow (Int.le_add_of_nonneg_right (Int.le_of_lt hA.lifetime))
  obtain ⟨-, hmax, httl⟩ := Prod.ext_iff.1 hbounds |>.imp_right Prod.ext_iff.1
  replace httl : s'.requestTTL = s.requestTTL := httl
  have hroom' : ¬ s'.maxPendingAuthRequests ≤ s'.authRequests.size := by
    rw [show s'.maxPendingAuthRequests = s.maxPendingAuthRequests from hmax, Nat.not_le]
    have hsub := sub_authRequests ⟨hrequest, hcode, hstray, hbounds⟩ hA'
    exact Nat.lt_of_le_of_lt hsub.size_le hroom
  rw [OIDCStore.createAuthRequest, OIDCStore.createAuthRequest, if_neg (Nat.not_le.2 hroom), if_neg hroom']
  refine ⟨rfl, ⟨?_, hcode, ?_, hbounds⟩⟩
  all_goals
    dsimp only [pending, Pending] at hrequest hstray ⊢
    grind [get_set]

end

/-- A code is saved in both. -/
theorem saveAuthCode (h : Awaits t₀ drawn s.pending s'.pending) (now : Time) (id v : String) :
    Awaits t₀ drawn (s.saveAuthCode env now id v).pending (s'.saveAuthCode env now id v).pending := by
  obtain ⟨-, -, httl⟩ := Prod.ext_iff.1 h.bounds |>.imp_right Prod.ext_iff.1
  replace httl : s'.requestTTL = s.requestTTL := httl
  obtain ⟨hrequest, hcode, hstray, hbounds⟩ := h
  refine ⟨hrequest, ?_, ?_, hbounds⟩
  all_goals
    dsimp only [OIDCStore.pending, OIDCStore.saveAuthCode, OIDCStore.putCodeLocked] at hcode hstray ⊢
    grind [Dict.get_set]

end Awaits

end Re0Auth.Memory

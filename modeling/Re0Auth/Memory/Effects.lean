import Re0Auth.Memory.Store

/-!
# What the methods of the in-memory store do

* **`Indexed`**: the indexes by subject miss no record;
* **`Drops`**: a part of a method that only deletes. Every deleting write is one, so every loop of
  deletions is one;
* **`Additions`**, **`Effect`**: what a whole method may leave behind: records that were there, and the
  ones it adds;
* **`Cleared`**: nothing of the owners a filter selects is left.
-/

namespace Re0Auth.Memory

open Lib OAuth Oidc OIDCStore Dict

/-- The bucket a record of a subject is filed in. -/
def filedUnder (subject : String) : Option String := if subject = "" then none else some subject

theorem filedUnder_eq_some {subject j : String} :
    filedUnder subject = some j ↔ subject ≠ "" ∧ subject = j := by
  rw [filedUnder]
  split_ifs with h <;> simp [h]

/-- **Indexed**: no access token, refresh token or request is missing from the bucket of its
subject. -/
structure Indexed (s : OIDCStore) : Prop where
  access : s.accessBySubject.Covers (fun t : AccessToken => filedUnder t.subject) s.accessTokens
  refresh : s.refreshBySubject.Covers (fun t : RefreshToken => filedUnder t.subject) s.refreshTokens
  request : s.requestBySubject.Covers (fun a : AuthRequest => filedUnder a.subject) s.authRequests

/-- **Drops**: records go, and nothing else happens. -/
structure Drops (s s' : OIDCStore) : Prop where
  accessTokens : s'.accessTokens.Sub s.accessTokens := by exact .refl _
  refreshTokens : s'.refreshTokens.Sub s.refreshTokens := by exact .refl _
  authRequests : s'.authRequests.Sub s.authRequests := by exact .refl _
  codes : s'.codes.Sub s.codes := by exact .refl _
  devices : s'.devices.Sub s.devices := by exact .refl _
  revocationEpochs : s'.revocationEpochs = s.revocationEpochs := by rfl
  indexed : Indexed s → Indexed s' := by exact fun h => ⟨h.access, h.refresh, h.request⟩

namespace Drops

variable {s s' s'' : OIDCStore}

theorem refl (s : OIDCStore) : Drops s s :=
  ⟨.refl _, .refl _, .refl _, .refl _, .refl _, rfl, id⟩

theorem trans (h : Drops s s') (h' : Drops s' s'') : Drops s s'' where
  accessTokens := h'.accessTokens.trans h.accessTokens
  refreshTokens := h'.refreshTokens.trans h.refreshTokens
  authRequests := h'.authRequests.trans h.authRequests
  codes := h'.codes.trans h.codes
  devices := h'.devices.trans h.devices
  revocationEpochs := h'.revocationEpochs.trans h.revocationEpochs
  indexed hs := h'.indexed (h.indexed hs)

theorem epoch (h : Drops s s') (scope : RevocationScope) : s'.epoch scope = s.epoch scope := by
  rw [OIDCStore.epoch, h.revocationEpochs, OIDCStore.epoch]

end Drops

section Deletions

variable (env : Env) (s : OIDCStore) (key : String)

theorem drops_deleteAccess : Drops s (s.deleteAccessLocked key) := by
  rw [deleteAccessLocked]
  split
  · exact .refl s
  · exact
      { Drops.refl s with
        accessTokens := sub_del _ _
        indexed := fun h => ⟨h.access.del_remove, h.refresh, h.request⟩ }

theorem drops_deleteRefresh : Drops s (s.deleteRefreshLocked key) := by
  rw [deleteRefreshLocked]
  split
  · exact .refl s
  · exact
      { Drops.refl s with
        refreshTokens := sub_del _ _
        indexed := fun h => ⟨h.access, h.refresh.del_remove, h.request⟩ }

theorem drops_deleteRequest : Drops s (s.deleteRequestLocked key) := by
  rw [deleteRequestLocked]
  split
  · exact .refl s
  · exact
      { Drops.refl s with
        authRequests := sub_del _ _
        indexed := fun h => ⟨h.access, h.refresh, h.request.del_remove⟩ }

theorem drops_deleteCode : Drops s (s.deleteCodeLocked key) := by
  rw [deleteCodeLocked]
  split
  · exact .refl s
  · exact { Drops.refl s with codes := sub_del _ _, indexed := fun h => ⟨h.access, h.refresh, h.request⟩ }

theorem drops_deleteCodesForRequest : Drops s (s.deleteCodesForRequestLocked key).2 := by
  rw [deleteCodesForRequestLocked]
  split_ifs
  · exact .refl s
  · exact { Drops.refl s with codes := sub_foldl_del _ _, indexed := fun h => ⟨h.access, h.refresh, h.request⟩ }

theorem drops_device {s : OIDCStore} {key : String} {userCodes : Dict String String} :
    Drops s { s with devices := s.devices.del key, userCodes := userCodes } :=
  { Drops.refl s with devices := sub_del _ _, indexed := fun h => ⟨h.access, h.refresh, h.request⟩ }

end Deletions

/-! ## Loops -/

section Loops

variable {V : Type} {rows : OIDCStore → Dict String V} {p : V → Bool}
  {del : OIDCStore → String → V → OIDCStore} {keys : List String} {s : OIDCStore}
  {I : OIDCStore → Prop} {k : String} {v : V}

/-- **Loop rule**: what every deletion of a record keeps, the loop keeps. -/
theorem removeAll_induct
    (hdel : ∀ s k v, (rows s).get k = some v → I s → I (del s k v)) (hs : I s) :
    I (removeAll rows p del keys s).2 := by
  induction keys generalizing s with
  | nil => exact hs
  | cons k keys ih =>
    rw [removeAll]
    split
    · exact ih hs
    · rename_i v hv
      split_ifs
      · exact ih (hdel s k v hv hs)
      · exact ih hs

/-- Each deletion takes the record it is for and no other. -/
def DeletesOne (rows : OIDCStore → Dict String V) (del : OIDCStore → String → V → OIDCStore) : Prop :=
  ∀ s k v k' v', (rows (del s k v)).get k' = some v' ↔ k' ≠ k ∧ (rows s).get k' = some v'

/-- What a loop leaves of the table it ranges over, where each deletion takes one record in the states the
loop goes through. -/
theorem get_removeAll_of (hkeep : ∀ s k v, I s → I (del s k v))
    (hdel : ∀ s, I s → ∀ k v k' v', (rows (del s k v)).get k' = some v' ↔
      k' ≠ k ∧ (rows s).get k' = some v') (hs : I s) :
    (rows (removeAll rows p del keys s).2).get k = some v ↔
      (rows s).get k = some v ∧ (k ∈ keys → p v = false) := by
  induction keys generalizing s with
  | nil => simp [removeAll]
  | cons k₀ keys ih =>
    rw [removeAll]
    cases hw : (rows s).get k₀ with
    | none => grind
    | some w =>
      dsimp only
      split_ifs <;> grind

variable (hdel : DeletesOne rows del)

include hdel in
/-- What a loop leaves of the table it ranges over. -/
theorem get_removeAll : (rows (removeAll rows p del keys s).2).get k = some v ↔
      (rows s).get k = some v ∧ (k ∈ keys → p v = false) :=
  get_removeAll_of (I := fun _ => True) (fun _ _ _ h => h) (fun s _ => hdel s) trivial

include hdel in
/-- What a loop names as deleted. -/
theorem mem_removeAll : k ∈ (removeAll rows p del keys s).1 ↔
      k ∈ keys ∧ ∃ v, (rows s).get k = some v ∧ p v = true := by
  induction keys generalizing s with
  | nil => simp [removeAll]
  | cons k₀ keys ih =>
    rw [removeAll]
    cases hw : (rows s).get k₀ with
    | none => grind
    | some w =>
      have hone := hdel s k₀ w
      dsimp only
      split_ifs <;> grind

include hdel in
/-- What a loop leaves of a table beside the one it ranges over, of which each deletion takes one record
along. -/
theorem get_beside_removeAll {W : Type} {beside : OIDCStore → Dict String W} {along : V → String}
    (hbeside : ∀ s k v h w, (beside (del s k v)).get h = some w ↔ h ≠ along v ∧ (beside s).get h = some w)
    {h : String} {w : W} : (beside (removeAll rows p del keys s).2).get h = some w ↔
      (beside s).get h = some w ∧
        ∀ k v, k ∈ keys → (rows s).get k = some v → p v = true → along v ≠ h := by
  induction keys generalizing s with
  | nil => simp [removeAll]
  | cons k₀ keys ih =>
    rw [removeAll]
    cases hw : (rows s).get k₀ with
    | none => grind
    | some u =>
      have hone := hdel s k₀ u
      dsimp only
      split_ifs <;> grind

include hdel in
/-- A loop over all keys. -/
theorem get_removeAll_keys : (rows (removeAll rows p del (rows s).keys s).2).get k = some v ↔
      (rows s).get k = some v ∧ p v = false := by
  rw [get_removeAll hdel]
  refine and_congr_right fun hv => ?_
  simp [mem_keys_iff.2 ⟨v, hv⟩]

include hdel in
/-- A loop whose keys and test reach every record `q` selects leaves none of them. -/
theorem removeAll_clears {q : V → Bool}
    (hq : ∀ k v, (rows s).get k = some v → q v = true → k ∈ keys ∧ p v = true)
    (hv : (rows (removeAll rows p del keys s).2).get k = some v) : q v = false := by
  obtain ⟨hbefore, hkept⟩ := (get_removeAll hdel).1 hv
  rw [Bool.eq_false_iff]
  intro hqv
  obtain ⟨hk, hp⟩ := hq k v hbefore hqv
  rw [hkept hk] at hp
  cases hp

end Loops

/-! ## What one deletion leaves -/

section Kept

variable (s : OIDCStore) (key : String) {k : String}

@[grind =] theorem get_deleteAccess {t : AccessToken} :
    (s.deleteAccessLocked key).accessTokens.get k = some t ↔
      k ≠ key ∧ s.accessTokens.get k = some t := by
  rw [deleteAccessLocked]
  split <;> grind [get_del]

@[grind =] theorem get_deleteRefresh {t : RefreshToken} :
    (s.deleteRefreshLocked key).refreshTokens.get k = some t ↔
      k ≠ key ∧ s.refreshTokens.get k = some t := by
  rw [deleteRefreshLocked]
  split <;> grind [get_del]

@[grind =] theorem get_deleteTombstone {ts : RefreshTombstone} :
    (s.deleteTombstone key).refreshTombstones.get k = some ts ↔
      k ≠ key ∧ s.refreshTombstones.get k = some ts := by
  simp [deleteTombstone, get_del]

theorem get_deleteRequest {id id' : String} {a : AuthRequest} :
    (s.deleteRequestLocked id).authRequests.get id' = some a ↔
      id' ≠ id ∧ s.authRequests.get id' = some a := by
  rw [deleteRequestLocked]
  split <;> grind [get_del]

end Kept

theorem deletesOne_access : DeletesOne accessTokens fun s k (_ : AccessToken) => s.deleteAccessLocked k :=
  fun s k _ _ _ => get_deleteAccess s k

theorem deletesOne_refresh : DeletesOne refreshTokens fun s k (_ : RefreshToken) => s.deleteRefreshLocked k :=
  fun s k _ _ _ => get_deleteRefresh s k

theorem deletesOne_tombstone :
    DeletesOne refreshTombstones fun s k (_ : RefreshTombstone) => s.deleteTombstone k :=
  fun s k _ _ _ => get_deleteTombstone s k

theorem deletesOne_request : DeletesOne authRequests fun s k (_ : AuthRequest) => s.deleteRequestLocked k :=
  fun s _ _ _ _ => get_deleteRequest s

theorem deletesOne_device (env : Env) : DeletesOne devices (deleteDevice env) := by
  intro s k d k' d'
  show (s.devices.del k).get k' = some d' ↔ _
  rw [get_del]
  split_ifs with hk <;> simp [hk]

/-! ## Deletions -/

/-- **Deletes**: records go, one after the other. -/
inductive Deletes (env : Env) (s : OIDCStore) : OIDCStore → Prop
  | refl : Deletes env s s
  | access {s' : OIDCStore} (h : Deletes env s s') (k : String) : Deletes env s (s'.deleteAccessLocked k)
  | refresh {s' : OIDCStore} (h : Deletes env s s') (k : String) : Deletes env s (s'.deleteRefreshLocked k)
  | tombstone {s' : OIDCStore} (h : Deletes env s s') (k : String) : Deletes env s (s'.deleteTombstone k)
  | request {s' : OIDCStore} (h : Deletes env s s') (id : String) : Deletes env s (s'.deleteRequestLocked id)
  | code {s' : OIDCStore} (h : Deletes env s s') (k : String) : Deletes env s (s'.deleteCodeLocked k)
  | codes {s' : OIDCStore} (h : Deletes env s s') (id : String) :
    Deletes env s (s'.deleteCodesForRequestLocked id).2
  | device {s' : OIDCStore} (h : Deletes env s s') {k : String} {d : DeviceRecord}
    (hd : s'.devices.get k = some d) : Deletes env s (s'.deleteDevice env k d)

namespace Deletes

variable {env : Env} {now : Time} {s₀ s : OIDCStore}

section

variable (h : Deletes env s₀ s)
include h

theorem removeAll {V : Type} {rows : OIDCStore → Dict String V} {p : V → Bool}
    {del : OIDCStore → String → V → OIDCStore} {keys : List String}
    (hdel : ∀ s k v, (rows s).get k = some v → Deletes env s₀ s → Deletes env s₀ (del s k v)) :
    Deletes env s₀ (removeAll rows p del keys s).2 :=
  removeAll_induct (I := Deletes env s₀) hdel h

theorem removeAccess (p : AccessToken → Bool) (keys : List String) :
    Deletes env s₀ (removeAccess p keys s).2 :=
  h.removeAll fun _ k _ _ h => h.access k

theorem removeRefresh (p : RefreshToken → Bool) (keys : List String) :
    Deletes env s₀ (removeRefresh p keys s).2 :=
  h.removeAll fun _ k _ _ h => h.refresh k

theorem removeTombstones (p : RefreshTombstone → Bool) : Deletes env s₀ (removeTombstones p s) :=
  h.removeAll fun _ k ts _ h => (h.tombstone k).access ts.idHash

theorem removeDevices (p : DeviceRecord → Bool) : Deletes env s₀ (removeDevices env p s).2 :=
  h.removeAll fun _ _ _ hd h => h.device hd

theorem foldl_deleteCodes (purged : List String) (n : ℕ) :
    Deletes env s₀ (purged.foldl (fun (n, s) id =>
      let (removed, s) := deleteCodesForRequestLocked s id
      (n + removed, s)) (n, s)).2 := by
  induction purged generalizing n s with
  | nil => exact h
  | cons id purged ih => exact ih (h.codes id) _

theorem removeRequests (p : AuthRequest → Bool) (keys : List String) :
    Deletes env s₀ (removeRequests p keys s).2 :=
  foldl_deleteCodes (h.removeAll fun _ id _ _ h => h.request id) _ _

theorem removeSelected (sel : OIDCStore.Selection) : Deletes env s₀ (s.removeSelected env sel).2 :=
  ((((h.removeAccess _ _).removeRefresh _ _).removeTombstones _).removeRequests _ _).removeDevices _

theorem revokeFamily (familyID : String) : Deletes env s₀ (s.revokeFamilyLocked familyID) := by
  rw [revokeFamilyLocked]
  split_ifs
  · exact h
  · exact (h.removeAll fun _ k t _ h => (h.refresh k).access t.idHash).removeTombstones _

theorem forgetTombstones (idHash : String) : Deletes env s₀ (s.forgetTombstones idHash) :=
  h.removeAll fun _ k _ _ h => h.tombstone k

theorem evictTombstone (evict : ℕ) (spent : String) : Deletes env s₀ (s.evictTombstone evict spent) := by
  rw [OIDCStore.evictTombstone]
  split_ifs
  · exact h.tombstone _
  · exact h

end

theorem authRequestByCode (code : String) : Deletes env s (s.authRequestByCode env now code).2 := by
  rw [OIDCStore.authRequestByCode]
  split
  · exact .refl
  · split
    · exact .refl
    · exact (refl.code _).request _

theorem deleteAuthRequest (id : String) : Deletes env s (s.deleteAuthRequest id) :=
  (refl.request id).codes id

theorem tokenRequestByRefreshToken (value : String) :
    Deletes env s (s.tokenRequestByRefreshToken env now value).2 := by
  rw [OIDCStore.tokenRequestByRefreshToken]
  split
  · exact .refl
  · split
    · exact refl.revokeFamily _
    · exact .refl

theorem terminateSession (u c : String) : Deletes env s (s.terminateSession u c) :=
  ((refl.removeAccess _ _).removeRefresh _ _).removeTombstones _

theorem revokeToken (token c : String) : Deletes env s (s.revokeToken env token c) := by
  rw [OIDCStore.revokeToken]
  dsimp only
  split
  · split_ifs
    · exact .refl
    · split
      · exact (refl.access _).forgetTombstones _
      · exact ((refl.access _).refresh _).forgetTombstones _
  · split
    · split_ifs
      · exact .refl
      · exact ((refl.refresh _).access _).forgetTombstones _
    · split
      · exact .refl
      · split_ifs
        · exact .refl
        · exact ((refl.refresh _).access _).tombstone _

theorem sweepExpired : Deletes env s (s.sweepExpired env now).2 := by
  rw [OIDCStore.sweepExpired]
  refine removeDevices (removeAll (removeRefresh (removeAccess (removeAll (removeAll refl ?_) ?_) _ _)
    _ _) ?_) _
  · exact fun _ id _ _ h => h.request id
  · exact fun _ k _ _ h => h.code k
  · exact fun _ k _ _ h => h.tombstone k

theorem purgeSubject (u : String) : Deletes env s (s.purgeSubject env u).2 := by
  rw [OIDCStore.purgeSubject]
  split_ifs
  · exact .refl
  · exact (refl.removeRequests _ _).removeDevices _

end Deletes

/-- What is deleted goes, and nothing else happens. -/
theorem Deletes.drops {env : Env} {s s' : OIDCStore} (h : Deletes env s s') : Drops s s' := by
  induction h with
  | refl => exact .refl s
  | access _ k ih => exact ih.trans (drops_deleteAccess _ k)
  | refresh _ k ih => exact ih.trans (drops_deleteRefresh _ k)
  | @tombstone s' _ k ih =>
    exact ih.trans { Drops.refl s' with indexed := fun h => ⟨h.access, h.refresh, h.request⟩ }
  | request _ id ih => exact ih.trans (drops_deleteRequest _ id)
  | code _ k ih => exact ih.trans (drops_deleteCode _ k)
  | codes _ id ih => exact ih.trans (drops_deleteCodesForRequest _ id)
  | device _ _ ih => exact ih.trans drops_device

/-! ## Whole methods -/

/-- **Additions**: the records a method may leave behind that were not there: tokens by their client
and subject, a request and a device authorization by their client, a code by its request. -/
structure Additions where
  access : Option (String × String × String) := none
  refresh : Option (String × String × String) := none
  request : Option (String × String) := none
  code : Option (String × String) := none
  device : Option (String × String) := none

/-- **Effect** of a method: a record it leaves behind was there or is an addition. Requests and device
authorizations may change, but never their client, and a denial stays. -/
structure Effect (new : Additions) (s s' : OIDCStore) : Prop where
  accessTokens : ∀ k t, s'.accessTokens.get k = some t →
    s.accessTokens.get k = some t ∨ new.access = some (k, t.clientID, t.subject)
  refreshTokens : ∀ k t, s'.refreshTokens.get k = some t →
    s.refreshTokens.get k = some t ∨ new.refresh = some (k, t.clientID, t.subject)
  authRequests : ∀ id a', s'.authRequests.get id = some a' →
    (∃ a, s.authRequests.get id = some a ∧ a.clientID = a'.clientID) ∨
      new.request = some (id, a'.clientID)
  codes : ∀ k c, s'.codes.get k = some c →
    s.codes.get k = some c ∨ new.code = some (k, c.requestID)
  devices : ∀ h d', s'.devices.get h = some d' → d'.denied = false →
    (∃ d, s.devices.get h = some d ∧ d.denied = false ∧ d.clientID = d'.clientID) ∨
      new.device = some (h, d'.clientID)
  epochs : ∀ scope, s.epoch scope ≤ s'.epoch scope
  indexed : Indexed s → Indexed s'

namespace Effect

variable {new : Additions} {s s' s'' : OIDCStore}

theorem of_drops (h : Drops s s') : Effect new s s' where
  accessTokens k t ht := .inl (h.accessTokens k t ht)
  refreshTokens k t ht := .inl (h.refreshTokens k t ht)
  authRequests id a ha := .inl ⟨a, h.authRequests id a ha, rfl⟩
  codes k c hc := .inl (h.codes k c hc)
  devices k d hd hdenied := .inl ⟨d, h.devices k d hd, hdenied, rfl⟩
  epochs scope := Int.le_of_eq (h.epoch scope).symm
  indexed := h.indexed

theorem refl (s : OIDCStore) : Effect new s s := .of_drops (.refl s)

theorem trans (h : Effect new s s') (h' : Effect new s' s'') : Effect new s s'' where
  accessTokens k t ht := (h'.accessTokens k t ht).elim (h.accessTokens k t) .inr
  refreshTokens k t ht := (h'.refreshTokens k t ht).elim (h.refreshTokens k t) .inr
  authRequests id a ha := by
    obtain ⟨b, hb, hba⟩ | hnew := h'.authRequests id a ha
    · rw [← hba]
      exact h.authRequests id b hb
    · exact .inr hnew
  codes k c hc := (h'.codes k c hc).elim (h.codes k c) .inr
  devices k d hd hdenied := by
    obtain ⟨e, he, hedenied, hed⟩ | hnew := h'.devices k d hd hdenied
    · rw [← hed]
      exact h.devices k e he hedenied
    · exact .inr hnew
  epochs scope := Int.le_trans (h.epochs scope) (h'.epochs scope)
  indexed hs := h'.indexed (h.indexed hs)

/-- Deletions before. -/
theorem after_drops (h : Drops s s') (h' : Effect new s' s'') : Effect new s s'' :=
  (of_drops h).trans h'

/-- Deletions afterwards. -/
theorem drops (h : Effect new s s') (h' : Drops s' s'') : Effect new s s'' := h.trans (of_drops h')

end Effect

section Methods

variable (env : Env) (now : Time) (s : OIDCStore) {ix : Index String String} {key : String}
  {new : Additions} {s' : OIDCStore} {draws : MintDraws} {request : TokenRequest}
  {captured : Option RevocationEpochs} {current : String}

/-- A record that is written and filed by subject. -/
theorem covers_subjectAdd {V : Type} {f : V → String} {rows : Dict String V} {v : V}
    (h : ix.Covers (fun v => filedUnder (f v)) (rows.del key)) :
    (subjectAdd ix (f v) key).Covers (fun v => filedUnder (f v)) (rows.set key v) := by
  rw [subjectAdd]
  split_ifs with hv
  · exact h.set fun j hj => absurd hv (filedUnder_eq_some.1 hj).1
  · refine h.add.set fun j hj => Index.mem_bucket_add.2 (.inr ⟨?_, rfl⟩)
    exact (filedUnder_eq_some.1 hj).2.symm

theorem effect_createAuthRequest (id userID : String) (req : AuthorizeParams) :
    Effect { request := some (id, req.clientID) } s (s.createAuthRequest now id req userID).2 := by
  rw [createAuthRequest]
  split
  · exact .refl s
  · refine
      { Effect.refl s with
        authRequests := fun id' a' h => ?_
        indexed := fun hs => ⟨hs.access, hs.refresh, covers_subjectAdd (hs.request.sub (sub_del _ _))⟩ }
    obtain h | ⟨rfl, rfl⟩ := get_of_get_set h
    · exact .inl ⟨a', h, rfl⟩
    · exact .inr rfl

theorem effect_saveAuthCode (id code : String) :
    Effect { code := some (env.tokenHash code, id) } s (s.saveAuthCode env now id code) := by
  refine
    { Effect.refl s with
      codes := fun k c h => ?_
      indexed := fun hs => ⟨hs.access, hs.refresh, hs.request⟩ }
  obtain h | ⟨rfl, rfl⟩ := get_of_get_set h
  · exact .inl h
  · exact .inr rfl

/-- A request that is rewritten under its id. -/
theorem effect_setRequest {id : String} {a a' : AuthRequest}
    (ha : s.authRequests.get id = some a) (hclient : a.clientID = a'.clientID)
    (hix : Indexed s → ix.Covers (fun a : AuthRequest => filedUnder a.subject)
      (s.authRequests.set id a')) :
    Effect {} s { s with authRequests := s.authRequests.set id a', requestBySubject := ix } := by
  refine
    { Effect.refl s with
      authRequests := fun id' b h => ?_
      indexed := fun hs => ⟨hs.access, hs.refresh, hix hs⟩ }
  obtain h | ⟨rfl, rfl⟩ := get_of_get_set h
  · exact .inl ⟨b, h, rfl⟩
  · exact .inl ⟨a, ha, hclient⟩

theorem effect_setAuthTime (id : String) (at_ : Time) : Effect {} s (s.setAuthTime id at_).2 := by
  rw [setAuthTime]
  split
  · exact .refl s
  · rename_i a ha
    refine effect_setRequest s ha rfl fun hs => ?_
    exact (hs.request.sub (sub_del _ _)).set fun j hj => hs.request id a j ha hj

theorem effect_completeLogin (id subject : String) (scopes : List String) :
    Effect {} s (s.completeLogin now id subject scopes).2 := by
  rw [completeLogin]
  split
  · exact .refl s
  · rename_i a ha
    split
    · exact .refl s
    · refine effect_setRequest s ha rfl fun hs => ?_
      split_ifs with hsubject
      · subst hsubject
        exact (hs.request.sub (sub_del _ _)).set fun j hj => hs.request id a j ha hj
      · -- the entry in the bucket of the former subject goes, and the new record needs none there
        exact covers_subjectAdd (f := fun a : AuthRequest => a.subject) hs.request.del_remove

/-- A device authorization that is written under its hash: one that was there and not denied, or an
addition. -/
theorem effect_setDevice {h : String} {d' : DeviceRecord} {codes : Dict String String}
    (hd : d'.denied = false →
      (∃ d, s.devices.get h = some d ∧ d.denied = false ∧ d.clientID = d'.clientID) ∨
        new.device = some (h, d'.clientID)) :
    Effect new s { s with devices := s.devices.set h d', userCodes := codes } := by
  refine
    { Effect.refl s with
      devices := fun k e he hdenied => ?_
      indexed := fun hs => ⟨hs.access, hs.refresh, hs.request⟩ }
  obtain he | ⟨rfl, rfl⟩ := get_of_get_set he
  · exact .inl ⟨e, he, hdenied, rfl⟩
  · exact hd hdenied

theorem drops_freeUserCode (h : s.freeUserCode now key = .ok s') : Drops s s' := by
  rw [OIDCStore.freeUserCode] at h
  split at h
  · cases h
    exact .refl s
  · split_ifs at h
    cases h
    exact drops_device

theorem effect_storeDeviceAuthorization (clientID deviceCode userCode : String) (expires : Time)
    (scopes : List String) : Effect { device := some (env.tokenHash deviceCode, clientID) } s
      (s.storeDeviceAuthorization env now clientID deviceCode userCode expires scopes).2 := by
  rw [storeDeviceAuthorization]
  split
  · exact .refl s
  · rename_i s' hs'
    refine .after_drops (drops_freeUserCode now s hs') ?_
    dsimp only
    split_ifs
    · exact .refl s'
    · exact effect_setDevice s' fun _ => .inr rfl

theorem effect_getDeviceAuthorizatonState (clientID deviceCode : String) :
    Effect {} s (s.getDeviceAuthorizatonState env now clientID deviceCode).2 := by
  rw [getDeviceAuthorizatonState]
  split
  · exact .refl s
  · rename_i d hd
    obtain ⟨hd, -⟩ := Option.filter_eq_some_iff.1 hd
    split_ifs
    · exact effect_setDevice s fun hdenied => .inl ⟨d, hd, hdenied, rfl⟩
    · exact .of_drops (Deletes.device .refl hd).drops
    · exact .of_drops (Deletes.device .refl hd).drops
    · exact effect_setDevice s fun hdenied => .inl ⟨d, hd, hdenied, rfl⟩

theorem effect_approveDevice (hnow : 0 ≤ now) (userCode subject : String) (scopes : Option (List String)) :
    Effect {} s (s.approveDevice env now userCode subject scopes).2 := by
  rw [approveDevice]
  split
  · exact .refl s
  · rename_i h hh
    dsimp only
    split_ifs with hrefused
    · exact .refl s
    · refine effect_setDevice s fun hdenied => .inl ?_
      cases hd : s.devices.get h with
      | none =>
        -- a user code without its request: the zero record is past its deadline
        simp [hd, DeviceRecord.zero] at hrefused
        exact absurd hrefused (Int.not_lt.2 hnow)
      | some d => exact ⟨d, rfl, by simpa [hd] using hdenied, rfl⟩

theorem effect_denyDevice (userCode : String) : Effect {} s (s.denyDevice env userCode).2 := by
  rw [denyDevice]
  split
  · exact .refl s
  · dsimp only
    split_ifs
    · exact .refl s
    · exact effect_setDevice s nofun

/-- A method that leaves tokens and requests alone. -/
def OnlyDevices (s s' : OIDCStore) : Prop := ∃ devices userCodes, s' = { s with devices, userCodes }

theorem OnlyDevices.revocationEpochs {s : OIDCStore} (h : OnlyDevices s s') :
    s'.revocationEpochs = s.revocationEpochs := by
  obtain ⟨_, _, rfl⟩ := h
  rfl

theorem onlyDevices_store (c d u : String) (expires : Time) (scopes : List String) :
    OnlyDevices s (s.storeDeviceAuthorization env now c d u expires scopes).2 := by
  rw [storeDeviceAuthorization]
  have hfree : ∀ key s', s.freeUserCode now key = .ok s' → OnlyDevices s s' := by
    intro key s' h
    rw [OIDCStore.freeUserCode] at h
    split at h
    · cases h
      exact ⟨_, _, rfl⟩
    · split at h
      · cases h
        exact ⟨_, _, rfl⟩
      · cases h
  dsimp only
  split
  · exact ⟨_, _, rfl⟩
  · rename_i s' hs'
    obtain ⟨devices, userCodes, rfl⟩ := hfree _ s' hs'
    split <;> exact ⟨_, _, rfl⟩

theorem onlyDevices_getState (c d : String) : OnlyDevices s (s.getDeviceAuthorizatonState env now c d).2 := by
  rw [getDeviceAuthorizatonState]
  split
  · exact ⟨_, _, rfl⟩
  · split
    · exact ⟨_, _, rfl⟩
    · split <;> exact ⟨_, _, rfl⟩

theorem onlyDevices_approve (code u : String) (scopes : Option (List String)) :
    OnlyDevices s (s.approveDevice env now code u scopes).2 := by
  rw [approveDevice]
  split
  · exact ⟨_, _, rfl⟩
  · dsimp only
    split <;> exact ⟨_, _, rfl⟩

theorem onlyDevices_deny (code : String) : OnlyDevices s (s.denyDevice env code).2 := by
  rw [denyDevice]
  split
  · exact ⟨_, _, rfl⟩
  · dsimp only
    split <;> exact ⟨_, _, rfl⟩

/-- The claim on a refresh token. The tombstone it leaves is no record of a grant. -/
theorem drops_claimRefresh (evict : ℕ) (current : String) : Drops s (s.claimRefresh env evict current).2 := by
  rw [OIDCStore.claimRefresh]
  split
  · split
    · exact .refl s
    · exact (show Deletes env s _ from .revokeFamily .refl _).drops
  · exact (show Deletes env s _ from .evictTombstone .refl _ _).drops.trans
      (.trans {} (drops_deleteRefresh _ _))

/-- A pair that is stored. -/
theorem effect_putPair {k k' : String} {t : AccessToken} {u : RefreshToken}
    (haccess : new.access = some (k, t.clientID, t.subject))
    (hrefresh : new.refresh = some (k', u.clientID, u.subject)) :
    Effect new s ((s.putAccessLocked k t).putRefreshLocked k' u) := by
  refine
    { Effect.refl s with
      accessTokens := fun j t' ht' => ?_
      refreshTokens := fun j u' hu' => ?_
      indexed := fun hs =>
        ⟨covers_subjectAdd (hs.access.sub (sub_del _ _)),
          covers_subjectAdd (hs.refresh.sub (sub_del _ _)), hs.request⟩ }
  · obtain ht' | ⟨rfl, rfl⟩ := get_of_get_set ht'
    · exact .inl ht'
    · exact .inr haccess
  · obtain hu' | ⟨rfl, rfl⟩ := get_of_get_set hu'
    · exact .inl hu'
    · exact .inr hrefresh

/-- What a mint adds. -/
def mintAdditions (request : TokenRequest) (draws : MintDraws) : Additions where
  access := some (env.tokenHash draws.accessID, request.clientID, request.subject)
  refresh := some (env.tokenHash draws.value, request.clientID, request.subject)

theorem Drops.revocationEpochsLocked {s : OIDCStore} (h : Drops s s') (c u : String) :
    s'.revocationEpochsLocked c u = s.revocationEpochsLocked c u := by
  simp only [OIDCStore.revocationEpochsLocked, h.epoch]

theorem drops_mintFamily (draws : MintDraws) (current : String) :
    Drops s (s.mintFamily env draws current).2 := by
  rw [mintFamily]
  split_ifs
  · exact .refl s
  · exact drops_claimRefresh env s _ _

/-- **Mint**: one that succeeds has found the generations it was given and stores the pair, one that
fails stores nothing. -/
theorem mint_cases {r : Except Err (String × String × Time)}
    (h : s.createAccessAndRefreshTokens env draws now request captured current = (r, s')) :
    (∃ e, r = .error e ∧ Drops s s') ∨
      ∃ t, r = .ok (draws.accessID, draws.value, t) ∧
        revocationUnchanged captured (s.revocationEpochsLocked request.clientID request.subject) ∧
        Effect (mintAdditions env request draws) s s' := by
  rw [createAccessAndRefreshTokens] at h
  have hclaim := drops_mintFamily env s draws current
  rcases hfamily : s.mintFamily env draws current with ⟨e | familyID, s₁⟩
  all_goals
    simp only [hfamily] at h hclaim
  · cases h
    exact .inl ⟨e, rfl, hclaim⟩
  · split_ifs at h with hunchanged
    · cases h
      refine .inr ⟨_, rfl, ?_, .after_drops hclaim (effect_putPair s₁ rfl rfl)⟩
      rwa [← hclaim.revocationEpochsLocked]
    · cases h
      exact .inl ⟨_, rfl, hclaim⟩

end Methods

/-! ## Revocations -/

section Revocations

variable {env : Env} {f : TokenFilter} {s : OIDCStore} {c u : String} {sel : OIDCStore.Selection}

theorem matches_iff : f.matches c u = true ↔
    (f.clientID = "" ∨ f.clientID = c) ∧ (f.subject = "" ∨ f.subject = u) := by
  simp only [TokenFilter.matches, Bool.and_eq_true, Bool.or_eq_true, beq_iff_eq]

theorem matches_pair (hc : c ≠ "") (hu : u ≠ "") (c' u' : String) :
    TokenFilter.matches ⟨c, u⟩ c' u' = (c' == c && u' == u) := by
  rw [Bool.eq_iff_iff, matches_iff]
  grind

/-- A revocation writes no table but the generations. -/
theorem bumpRevocationEpochs_eq (s : OIDCStore) (c u : String) :
    ∃ epochs, s.bumpRevocationEpochsLocked c u = { s with revocationEpochs := epochs } := by
  rw [bumpRevocationEpochsLocked]
  split_ifs <;> exact ⟨_, rfl⟩

theorem epoch_bump (scope scope' : RevocationScope) :
    (s.bump scope).epoch scope' = if scope' = scope then s.epoch scope + 1 else s.epoch scope' := by
  rw [epoch, bump, get_set]
  split_ifs <;> rfl

theorem effect_bump (scope : RevocationScope) : Effect {} s (s.bump scope) := by
  refine
    { Effect.refl s with
      epochs := fun scope' => ?_
      indexed := fun hs => ⟨hs.access, hs.refresh, hs.request⟩ }
  rw [epoch_bump]
  split_ifs with h
  · subst h
    omega
  · exact Int.le_refl _

theorem effect_bumpRevocationEpochs (c u : String) : Effect {} s (s.bumpRevocationEpochsLocked c u) := by
  rw [bumpRevocationEpochsLocked]
  split_ifs
  · exact effect_bump _
  · exact .refl s
  · exact effect_bump _
  · exact effect_bump _
  · exact (effect_bump _).trans (effect_bump _)

/-- A bump moves the generations every owner it is for is compared by. -/
theorem bumpRevocationEpochs_moves (h : f.matches c u = true) :
    s.revocationEpochsLocked c u ≠
      (s.bumpRevocationEpochsLocked f.clientID f.subject).revocationEpochsLocked c u := by
  obtain ⟨hc, hu⟩ := matches_iff.1 h
  simp only [revocationEpochsLocked, ne_eq, RevocationEpochs.mk.injEq, not_and]
  rw [bumpRevocationEpochsLocked]
  by_cases hc0 : f.clientID = ""
  · by_cases hu0 : f.subject = ""
    · -- the empty filter moves the global generation
      rw [if_pos ⟨hc0, hu0⟩, epoch_bump, if_pos rfl]
      omega
    · obtain rfl := hu.resolve_left hu0
      simp only [hc0, hu0, and_false, if_false, if_true, epoch_bump]
      omega
  · obtain rfl := hc.resolve_left hc0
    by_cases hu0 : f.subject = ""
    · simp only [hc0, hu0, false_and, if_false, if_true, epoch_bump]
      omega
    · simp only [hc0, hu0, false_and, if_false, epoch_bump, if_true, reduceCtorEq]
      omega

/-- **Cleared**: no token, request or device authorization of an owner the filter selects. -/
structure Cleared (f : TokenFilter) (s : OIDCStore) : Prop where
  access : ∀ k t, s.accessTokens.get k = some t → f.matches t.clientID t.subject = false
  refresh : ∀ k t, s.refreshTokens.get k = some t → f.matches t.clientID t.subject = false
  request : ∀ id a, s.authRequests.get id = some a → f.matches a.clientID a.subject = false
  device : ∀ h d, s.devices.get h = some d → f.matches d.clientID d.subject = false

/-- The loops reach every record of the owners a filter selects. -/
structure Reaching (f : TokenFilter) (sel : OIDCStore.Selection) : Prop where
  access : ∀ s, Indexed s → ∀ k t, s.accessTokens.get k = some t →
    f.matches t.clientID t.subject = true → k ∈ sel.accessKeys s ∧ sel.access t = true
  refresh : ∀ s, Indexed s → ∀ k t, s.refreshTokens.get k = some t →
    f.matches t.clientID t.subject = true → k ∈ sel.refreshKeys s ∧ sel.refresh t = true
  request : ∀ s, Indexed s → ∀ id a, s.authRequests.get id = some a →
    f.matches a.clientID a.subject = true → id ∈ sel.requestKeys s ∧ sel.request a = true
  device : ∀ d : DeviceRecord, f.matches d.clientID d.subject = true → sel.device d = true

theorem cleared_removeSelected (hsel : Reaching f sel) (hs : Indexed s) :
    Cleared f (s.removeSelected env sel).2 := by
  obtain ⟨s₁, h₁⟩ : ∃ s₁, s₁ = (removeAccess sel.access (sel.accessKeys s) s).2 := ⟨_, rfl⟩
  obtain ⟨s₂, h₂⟩ : ∃ s₂, s₂ = (removeRefresh sel.refresh (sel.refreshKeys s₁) s₁).2 :=
    ⟨_, rfl⟩
  obtain ⟨s₃, h₃⟩ : ∃ s₃, s₃ = removeTombstones sel.tombstone s₂ := ⟨_, rfl⟩
  obtain ⟨s₄, h₄⟩ : ∃ s₄, s₄ = (removeRequests sel.request (sel.requestKeys s₃) s₃).2 :=
    ⟨_, rfl⟩
  have hlast : (s.removeSelected env sel).2 = (removeDevices env sel.device s₄).2 := by
    rw [h₄, h₃, h₂, h₁]
    rfl
  have d₁ : Deletes env s s₁ := h₁ ▸ .removeAccess .refl _ _
  have d₂ : Deletes env s₁ s₂ := h₂ ▸ .removeRefresh .refl _ _
  have d₃ : Deletes env s₂ s₃ := h₃ ▸ .removeTombstones .refl _
  have d₄ : Deletes env s₃ s₄ := h₄ ▸ .removeRequests .refl _ _
  have d₅ : Deletes env s₄ (removeDevices env sel.device s₄).2 := .removeDevices .refl _
  have i₁ := d₁.drops.indexed hs
  have i₃ := d₃.drops.indexed (d₂.drops.indexed i₁)
  rw [hlast]
  -- what one loop has cleared stays clear, since the later ones only delete
  refine ⟨fun k t ht => ?_, fun k t ht => ?_, fun id a ha => ?_, fun h d hd => ?_⟩
  · have ht₁ := (d₂.drops.trans (d₃.drops.trans (d₄.drops.trans d₅.drops))).accessTokens k t ht
    rw [h₁] at ht₁
    exact removeAll_clears deletesOne_access (hsel.access s hs) ht₁
  · have ht₂ := (d₃.drops.trans (d₄.drops.trans d₅.drops)).refreshTokens k t ht
    rw [h₂] at ht₂
    exact removeAll_clears deletesOne_refresh (hsel.refresh s₁ i₁) ht₂
  · have ha₄ := d₅.drops.authRequests id a ha
    rw [h₄] at ha₄
    exact removeAll_clears deletesOne_request (hsel.request s₃ i₃)
      ((show Deletes env _ _ from .foldl_deleteCodes .refl _ _).drops.authRequests id a ha₄)
  · refine removeAll_clears (q := fun d : DeviceRecord => f.matches d.clientID d.subject)
      (deletesOne_device env) (fun k d hk hm => ?_) hd
    exact ⟨mem_keys_iff.2 ⟨d, hk⟩, hsel.device d hm⟩

/-- **Revokes**: what a revocation does. The generations of the owners it is for move, and nothing of
them is left. -/
structure Revokes (f : TokenFilter) (s s' : OIDCStore) : Prop where
  effect : Effect {} s s'
  moved : ∀ c u, f.matches c u = true →
    s.revocationEpochsLocked c u ≠ s'.revocationEpochsLocked c u
  cleared : Indexed s → Cleared f s'

theorem revokes_removeSelected (hsel : Reaching f sel) :
    Revokes f s
      ((s.bumpRevocationEpochsLocked f.clientID f.subject).removeSelected env sel).2 where
  effect := (effect_bumpRevocationEpochs _ _).drops (Deletes.removeSelected .refl sel).drops
  moved c u h := by
    rw [(Deletes.removeSelected .refl sel).drops.revocationEpochsLocked]
    exact bumpRevocationEpochs_moves h
  cleared hs := cleared_removeSelected hsel ((effect_bumpRevocationEpochs _ _).indexed hs)

/-- A record of a subject is among the keys of the subject. -/
theorem mem_keysLocked {V : Type} {g : V → String} {rows : Dict String V} {ix : Index String String}
    (h : ix.Covers (fun v => filedUnder (g v)) rows) {k : String} {v : V}
    (hv : rows.get k = some v) (hm : f.matches c (g v) = true) :
    k ∈ if f.subject = "" then rows.keys else ix.bucket f.subject := by
  split_ifs with hf
  · exact mem_keys_iff.2 ⟨v, hv⟩
  · have hsubject : f.subject = g v := (matches_iff.1 hm).2.resolve_left hf
    exact h k v f.subject hv (filedUnder_eq_some.2 ⟨hsubject ▸ hf, hsubject.symm⟩)

theorem reaching_filterSelection : Reaching f (filterSelection f) where
  access _ hs _ _ ht hm := ⟨mem_keysLocked hs.access ht hm, hm⟩
  refresh _ hs _ _ ht hm := ⟨mem_keysLocked hs.refresh ht hm, hm⟩
  request _ hs _ _ ha hm := ⟨mem_keysLocked hs.request ha hm, hm⟩
  device _ hm := hm

theorem reaching_grantSelection (hc : c ≠ "") (hu : u ≠ "") : Reaching ⟨c, u⟩ (grantSelection u c) := by
  have howner : ∀ c' u', TokenFilter.matches ⟨c, u⟩ c' u' = true ↔ c' = c ∧ u' = u := by
    simp [matches_pair hc hu]
  refine ⟨fun s hs k t ht hm => ?_, fun s hs k t ht hm => ?_, fun s hs id a ha hm => ?_, fun d hm => ?_⟩
  all_goals
    obtain ⟨h₁, h₂⟩ := (howner _ _).1 hm
  · exact ⟨hs.access k t u ht (filedUnder_eq_some.2 ⟨h₂ ▸ hu, h₂⟩), beq_iff_eq.2 h₁⟩
  · exact ⟨hs.refresh k t u ht (filedUnder_eq_some.2 ⟨h₂ ▸ hu, h₂⟩), beq_iff_eq.2 h₁⟩
  · exact ⟨hs.request id a u ha (filedUnder_eq_some.2 ⟨h₂ ▸ hu, h₂⟩), beq_iff_eq.2 h₁⟩
  · simp [grantSelection, h₁, h₂]

theorem revokes_revokeGrant (hc : c ≠ "") (hu : u ≠ "") : Revokes ⟨c, u⟩ s (s.revokeGrant env u c).2 := by
  rw [OIDCStore.revokeGrant, if_neg (by simp [hc, hu])]
  dsimp only
  exact revokes_removeSelected (reaching_grantSelection hc hu)

theorem effect_revokeGrant (u c : String) : Effect {} s (s.revokeGrant env u c).2 := by
  by_cases h : u = "" ∨ c = ""
  · rw [OIDCStore.revokeGrant, if_pos h]
    exact .refl s
  · obtain ⟨hu, hc⟩ := not_or.1 h
    exact (revokes_revokeGrant hc hu).effect

theorem revokes_revokeTokens : Revokes f s (s.revokeTokens env f).2 :=
  revokes_removeSelected reaching_filterSelection

end Revocations

end Re0Auth.Memory

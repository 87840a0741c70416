import Re0Auth.Memory.Generations
import Re0Auth.Memory.Steps

/-!
# What every run keeps in the in-memory store

The tables of the store and the indexes beside them agree in every state a run can reach, whatever the
methods are called with.

* **`PendingTables`**: the part of the store that can still turn into tokens, beside `TokenTables`;
* **`Deletes`**: a method that deletes is a sequence of the writes that delete one record, so what each
  of them keeps is kept by all;
* **`Orderly`**: the invariant, with **`exec_orderly`**.
-/

namespace Re0Auth.Memory

open Lib OAuth Oidc OIDCStore Dict List Option

/-- **Pending tables**: requests and codes with the indexes beside them, and the generations. -/
structure PendingTables where
  authRequests : Dict String AuthRequest
  authRequestExpiry : Dict String Time
  codes : Dict String CodeRecord
  codeByRequest : Index String String
  requestBySubject : Index String String
  revocationEpochs : Dict RevocationScope ℤ
  maxPendingAuthRequests : ℕ
  requestTTL : Duration

/-- What is pending in a store. -/
def OIDCStore.pending (s : OIDCStore) : PendingTables where
  authRequests := s.authRequests
  authRequestExpiry := s.authRequestExpiry
  codes := s.codes
  codeByRequest := s.codeByRequest
  requestBySubject := s.requestBySubject
  revocationEpochs := s.revocationEpochs
  maxPendingAuthRequests := s.maxPendingAuthRequests
  requestTTL := s.requestTTL

/-! ## The invariant -/

/-- **Issued**: what holds of the tokens. The indexes are exact, the keys are hashes of values that were
drawn, and an access token expires no later than the refresh token it was handed out with. -/
structure Issued (env : Env) (drawn : List String) (T : TokenTables) : Prop where
  filed : Filed T
  byIDHash : ∀ k t, T.refreshTokens.get k = some t → T.refreshByIDHash.get t.idHash = some k
  signed : ∀ h t k m, T.accessTokens.get h = some t → Marked T k m → m.idHash = h → Pairs m h t
  access : ∀ h t, T.accessTokens.get h = some t → ∃ v ∈ drawn, env.tokenHash v = h
  value : ∀ k m, Marked T k m → ∃ v ∈ drawn, env.tokenHash v = k
  accessID : ∀ k m, Marked T k m → ∃ v ∈ drawn, env.tokenHash v = m.idHash
  lifetimes : 0 < T.accessTTL ∧ T.accessTTL ≤ T.refreshTTL

/-- **Awaited**: what holds of the requests and the codes. The indexes are exact, and a request has an id
that was drawn, under which it is stored, and a deadline. -/
structure Awaited (drawn : List String) (P : PendingTables) : Prop where
  request : P.requestBySubject.Exact (fun a : AuthRequest => filedUnder a.subject) P.authRequests
  code : P.codeByRequest.Exact (fun c : CodeRecord => some c.requestID) P.codes
  deadline : ∀ id, (P.authRequests.get id).isSome = (P.authRequestExpiry.get id).isSome
  drawn : ∀ id a, P.authRequests.get id = some a → id ∈ drawn
  named : ∀ id a, P.authRequests.get id = some a → a.id = id
  lifetime : 0 < P.requestTTL

/-- **Orderly** stores. -/
structure Orderly (env : Env) (drawn : List String) (s : OIDCStore) : Prop where
  issued : Issued env drawn s.tokens
  awaited : Awaited drawn s.pending

variable {env : Env} {drawn drawn' : List String} {T T' : TokenTables} {P : PendingTables}
  {s s' : OIDCStore} {m : RefreshTombstone} {t : RefreshToken} {id : String} {sh sh' : Shared}
  {op : Op} {ω : Choice} {r : Except Err op.Answer}

theorem Trims.marked (h : Trims T T') {k : String} (hm : Marked T' k m) : Marked T k m := by
  rcases hm with ⟨t, ht, rfl⟩ | hts
  · exact .inl ⟨t, h.refreshTokens k t ht, rfl⟩
  · exact .inr (h.refreshTombstones k m hts)

theorem Issued.trims (h : Issued env drawn T) (ht : Trims T T')
    (hix : ∀ k t, T'.refreshTokens.get k = some t → T'.refreshByIDHash.get t.idHash = some k) :
    Issued env drawn T' where
  filed := ht.filed h.filed
  byIDHash := hix
  signed h' t k m hacc hm := h.signed h' t k m (ht.accessTokens h' t hacc) (ht.marked hm)
  access h' t hacc := h.access h' t (ht.accessTokens h' t hacc)
  value k m hm := h.value k m (ht.marked hm)
  accessID k m hm := h.accessID k m (ht.marked hm)
  lifetimes := by
    obtain ⟨-, hattl, hrttl⟩ := Prod.ext_iff.1 ht.bounds |>.imp_right Prod.ext_iff.1
    rw [show T'.accessTTL = T.accessTTL from hattl, show T'.refreshTTL = T.refreshTTL from hrttl]
    exact h.lifetimes

variable (hd : ∀ v ∈ drawn, v ∈ drawn')

include hd in
theorem Issued.mono (h : Issued env drawn T) : Issued env drawn' T where
  filed := h.filed
  byIDHash := h.byIDHash
  signed := h.signed
  access h' t hacc := (h.access h' t hacc).imp fun v hv => ⟨hd v hv.1, hv.2⟩
  value k m hm := (h.value k m hm).imp fun v hv => ⟨hd v hv.1, hv.2⟩
  accessID k m hm := (h.accessID k m hm).imp fun v hv => ⟨hd v hv.1, hv.2⟩
  lifetimes := h.lifetimes

include hd in
theorem Awaited.mono (h : Awaited drawn P) : Awaited drawn' P :=
  { h with drawn := fun id a ha => hd id (h.drawn id a ha) }

include hd in
theorem Orderly.mono (h : Orderly env drawn s) : Orderly env drawn' s :=
  ⟨h.issued.mono hd, h.awaited.mono hd⟩

/-! ### Deletions keep it -/

section DeletedRecords

variable (s)

@[simp] theorem pending_deleteAccess (k : String) : (s.deleteAccessLocked k).pending = s.pending := by
  rw [deleteAccessLocked]
  split <;> rfl

@[simp] theorem pending_deleteRefresh (k : String) : (s.deleteRefreshLocked k).pending = s.pending := by
  rw [deleteRefreshLocked]
  split <;> rfl

@[simp] theorem pending_deleteTombstone (k : String) : (s.deleteTombstone k).pending = s.pending := rfl

end DeletedRecords

theorem Issued.deleteAccess (h : Issued env drawn s.tokens) (k : String) :
    Issued env drawn (s.deleteAccessLocked k).tokens := by
  refine h.trims (trims_deleteAccess s k) ?_
  rw [deleteAccessLocked]
  split <;> exact h.byIDHash

theorem Issued.deleteRefresh (h : Issued env drawn s.tokens) (k : String) :
    Issued env drawn (s.deleteRefreshLocked k).tokens := by
  refine h.trims (trims_deleteRefresh s k) fun k' t ht => ?_
  obtain ⟨hne, ht⟩ := (get_deleteRefresh s k).1 ht
  have hnames : s.refreshByIDHash.get t.idHash = some k' := h.byIDHash k' t ht
  rw [deleteRefreshLocked]
  split
  · exact hnames
  · -- the entry that goes names the record that goes
    rename_i t₀ ht₀
    show (if s.refreshByIDHash.get t₀.idHash = some k then s.refreshByIDHash.del t₀.idHash
      else s.refreshByIDHash).get t.idHash = some k'
    split_ifs with hentry
    · rw [get_del, if_neg, hnames]
      · rintro hid
        rw [← hid] at hentry
        exact hne (some.inj (hnames.symm.trans hentry))
    · exact hnames

theorem Awaited.deleteRequest (h : Awaited drawn s.pending) (id : String) :
    Awaited drawn (s.deleteRequestLocked id).pending := by
  rw [deleteRequestLocked]
  split
  · exact h
  · rename_i a ha
    refine ⟨h.request.del_remove ha fun j hj => (filedUnder_eq_some.1 hj).2.symm, h.code, fun id' => ?_,
      fun id' a' ha' => ?_, fun id' a' ha' => ?_, h.lifetime⟩
    · have := h.deadline id'
      simp only [pending, get_del] at this ⊢
      split_ifs
      · rfl
      · exact this
    · exact h.drawn id' a' (get_of_get_del ha').1
    · exact h.named id' a' (get_of_get_del ha').1

theorem Awaited.deleteCode (h : Awaited drawn s.pending) (k : String) :
    Awaited drawn (s.deleteCodeLocked k).pending := by
  rw [deleteCodeLocked]
  split
  · exact h
  · rename_i c hc
    exact ⟨h.request, h.code.del_remove hc fun j hj => (some.inj hj).symm, h.deadline, h.drawn,
      h.named, h.lifetime⟩

theorem Awaited.deleteCodesForRequest (h : Awaited drawn s.pending) (id : String) :
    Awaited drawn (s.deleteCodesForRequestLocked id).2.pending := by
  rw [deleteCodesForRequestLocked]
  split_ifs
  · exact h
  · exact ⟨h.request, h.code.drop, h.deadline, h.drawn, h.named, h.lifetime⟩

theorem Deletes.orderly (h : Deletes env s s') (hs : Orderly env drawn s) : Orderly env drawn s' := by
  induction h with
  | refl => exact hs
  | access _ k ih => exact ⟨ih.issued.deleteAccess k, by simpa using ih.awaited⟩
  | refresh _ k ih => exact ⟨ih.issued.deleteRefresh k, by simpa using ih.awaited⟩
  | tombstone _ k ih =>
    exact ⟨ih.issued.trims (trims_deleteTombstone _ k) ih.issued.byIDHash, ih.awaited⟩
  | request _ id ih => exact ⟨by simpa using ih.issued, ih.awaited.deleteRequest id⟩
  | code _ k ih => exact ⟨by simpa using ih.issued, ih.awaited.deleteCode k⟩
  | codes _ id ih => exact ⟨by simpa using ih.issued, ih.awaited.deleteCodesForRequest id⟩
  | device _ _ ih => exact ⟨ih.issued, ih.awaited⟩

/-! ### Writes keep it -/

/-- A refresh token leaves its tombstone. -/
theorem Issued.spend (h : Issued env drawn T) {key : String}
    (ht : T.refreshTokens.get key = some t) (hm : m = { t.tombstone with familyID := m.familyID }) :
    Issued env drawn { T with refreshTombstones := T.refreshTombstones.set key m } := by
  have hrow : Marked T key t.tombstone := .inl ⟨t, ht, rfl⟩
  -- a mark is an old one or has the key and the id of the row
  have hmarked : ∀ k m', Marked { T with refreshTombstones := T.refreshTombstones.set key m } k m' →
      Marked T k m' ∨ k = key ∧ m' = m := by
    rintro k m' (hrow | hts)
    · exact .inl (.inl hrow)
    · exact (get_of_get_set hts).imp_left .inr
  refine ⟨⟨h.filed.access, h.filed.refresh, h.filed.byIDHash⟩, h.byIDHash,
    fun h' a k m' ha hm' hidm => ?_, h.access, fun k m' hm' => ?_, fun k m' hm' => ?_, h.lifetimes⟩
  · obtain hm' | ⟨-, rfl⟩ := hmarked k m' hm'
    · exact h.signed h' a k m' ha hm' hidm
    · rw [hm] at hidm ⊢
      exact h.signed h' a key t.tombstone ha hrow hidm
  · obtain hm' | ⟨rfl, rfl⟩ := hmarked k m' hm'
    · exact h.value k m' hm'
    · exact h.value k _ hrow
  · obtain hm' | ⟨rfl, rfl⟩ := hmarked k m' hm'
    · exact h.accessID k m' hm'
    · rw [hm]
      exact h.accessID k t.tombstone hrow

include hd in
/-- A pair under new values is stored. -/
theorem Issued.putPair (h : Issued env drawn s.tokens) {v : String} {a : AccessToken} (hid : id ∉ drawn)
    (hv : v ∉ drawn) (hpairs : Pairs t.tombstone (env.tokenHash id) a)
    (hid' : id ∈ drawn') (hv' : v ∈ drawn') :
    Issued env drawn' ((s.putAccessLocked (env.tokenHash id) a).putRefreshLocked (env.tokenHash v)
      t).tokens := by
  have hidHash : t.idHash = env.tokenHash id := hpairs.1
  -- nothing is stored under a value that was not drawn
  have hnew : ∀ {w : String}, w ∉ drawn → ¬ ∃ v ∈ drawn, env.tokenHash v = env.tokenHash w := by
    rintro w hw ⟨v, hv, heq⟩
    exact hw (env.tokenHash_injective heq ▸ hv)
  have haccess : s.accessTokens.get (env.tokenHash id) = none :=
    eq_none_iff_forall_ne_some.2 fun b hb => hnew hid (h.access _ b hb)
  have hrow : s.refreshTokens.get (env.tokenHash v) = none :=
    eq_none_iff_forall_ne_some.2 fun u hu => hnew hv (h.value _ _ (.inl ⟨u, hu, rfl⟩))
  have hmarked : ∀ k m, Marked ((s.putAccessLocked (env.tokenHash id) a).putRefreshLocked
      (env.tokenHash v) t).tokens k m → Marked s.tokens k m ∨ k = env.tokenHash v ∧ m = t.tombstone := by
    rintro k m (⟨u, hu, rfl⟩ | hts)
    · obtain hu | ⟨rfl, rfl⟩ := get_of_get_set hu
      · exact .inl (.inl ⟨u, hu, rfl⟩)
      · exact .inr ⟨rfl, rfl⟩
    · exact .inl (.inr hts)
  have hne : ∀ {k : String} {u : RefreshToken}, s.refreshTokens.get k = some u → k ≠ env.tokenHash v := by
    rintro k u hu rfl
    exact absurd (hrow.symm.trans hu) nofun
  refine ⟨⟨exact_subjectAdd h.filed.access haccess, exact_subjectAdd h.filed.refresh hrow, ?_⟩, ?_, ?_, ?_,
    ?_, ?_, h.lifetimes⟩
  · intro h' k hk
    obtain hk | ⟨rfl, rfl⟩ := get_of_get_set hk
    · obtain ⟨u, hu, hidu⟩ := h.filed.byIDHash h' k hk
      exact ⟨u, (get_set _ _ _ _).trans ((if_neg (hne hu)).trans hu), hidu⟩
    · exact ⟨t, get_set_self _ _ _, rfl⟩
  · intro k u hu
    show (s.refreshByIDHash.set t.idHash (env.tokenHash v)).get u.idHash = some k
    obtain hu | ⟨rfl, rfl⟩ := get_of_get_set hu
    · rw [get_set, if_neg]
      · exact h.byIDHash k u hu
      · intro hidu
        refine hnew hid ?_
        rw [← hidHash, ← hidu]
        exact h.accessID k _ (.inl ⟨u, hu, rfl⟩)
    · exact get_set_self _ _ _
  · intro h' b k m hb hm hidm
    have hold : ∀ {k m}, Marked s.tokens k m → m.idHash ≠ env.tokenHash id := fun hm heq =>
      hnew hid (heq ▸ h.accessID _ _ hm)
    obtain hb | ⟨rfl, rfl⟩ := get_of_get_set hb
    · obtain hm | ⟨rfl, rfl⟩ := hmarked k m hm
      · exact h.signed h' b k m hb hm hidm
      · -- the new refresh token names the new access token only
        refine absurd (h.access h' b hb) ?_
        rw [← hidm, show t.tombstone.idHash = t.idHash from rfl, hidHash]
        exact hnew hid
    · obtain hm | ⟨rfl, rfl⟩ := hmarked k m hm
      · exact absurd hidm (hold hm)
      · exact hpairs
  · intro h' b hb
    obtain hb | ⟨rfl, rfl⟩ := get_of_get_set hb
    · exact (h.access h' b hb).imp fun w hw => ⟨hd w hw.1, hw.2⟩
    · exact ⟨id, hid', rfl⟩
  · intro k m hm
    obtain hm | ⟨rfl, rfl⟩ := hmarked k m hm
    · exact (h.value k m hm).imp fun w hw => ⟨hd w hw.1, hw.2⟩
    · exact ⟨v, hv', rfl⟩
  · intro k m hm
    obtain hm | ⟨rfl, rfl⟩ := hmarked k m hm
    · exact (h.accessID k m hm).imp fun w hw => ⟨hd w hw.1, hw.2⟩
    · exact ⟨id, hid', hidHash.symm⟩

/-- The pending request `id` changes, and moves to the bucket of its subject. -/
theorem Awaited.setRequest (h : Awaited drawn P) {a : AuthRequest} (a' : AuthRequest)
    (ha : P.authRequests.get id = some a) (hid : a'.id = a.id) :
    Awaited drawn { P with
      authRequests := P.authRequests.set id a'
      requestBySubject := if a.subject = a'.subject then P.requestBySubject
        else subjectAdd (P.requestBySubject.remove a.subject id) a'.subject id } := by
  refine ⟨?_, h.code, fun id' => ?_, fun id' b hb => ?_, fun id' b hb => ?_, h.lifetime⟩
  · split_ifs with hsubject
    · exact h.request.update ha (congrArg filedUnder hsubject.symm)
    · have hdel := h.request.del_remove ha fun j hj => (filedUnder_eq_some.1 hj).2.symm
      refine (exact_subjectAdd hdel (get_del_self _ _)).congr fun k => ?_
      simp only [get_set, get_del]
      split_ifs <;> rfl
  · have := h.deadline id'
    simp only [get_set]
    split_ifs with hid
    · rw [← this, hid, ha]
      rfl
    · exact this
  · obtain hb | ⟨rfl, -⟩ := get_of_get_set hb
    · exact h.drawn id' b hb
    · exact h.drawn id' a ha
  · obtain hb | ⟨rfl, rfl⟩ := get_of_get_set hb
    · exact h.named id' b hb
    · exact hid.trans (h.named id' a ha)

section

variable (h : Awaited drawn s.pending)
include h

theorem Awaited.setAuthTime (id : String) (t : Time) : Awaited drawn (s.setAuthTime id t).2.pending := by
  rw [OIDCStore.setAuthTime]
  split
  · exact h
  · rename_i a ha
    obtain ⟨a', ha'⟩ : ∃ a' : AuthRequest, a' = { a with authTime := some t } := ⟨_, rfl⟩
    have hset := h.setRequest a' ha (by rw [ha'])
    rw [ha', if_pos rfl] at hset
    exact hset

theorem Awaited.completeLogin (now : Time) (id u : String)
    (scopes : List String) : Awaited drawn (s.completeLogin now id u scopes).2.pending := by
  rw [OIDCStore.completeLogin]
  split
  · exact h
  · rename_i a ha
    split
    · exact h
    · obtain ⟨a', ha'⟩ : ∃ a' : AuthRequest, a' = { a with
        subject := u, scopes := scopes, isDone := true, authTime := some (a.authTime.getD now) } := ⟨_, rfl⟩
      have hset := h.setRequest a' ha (by rw [ha'])
      rw [ha'] at hset
      exact hset

include hd in
/-- A request under a new id is stored. -/
theorem Awaited.createAuthRequest (hid : id ∉ drawn) (hid' : id ∈ drawn') (now : Time)
    (req : AuthorizeParams) (u : String) :
    Awaited drawn' (s.createAuthRequest now id req u).2.pending := by
  rw [OIDCStore.createAuthRequest]
  split
  · exact h.mono hd
  · have hnew : s.authRequests.get id = none :=
      eq_none_iff_forall_ne_some.2 fun a ha => hid (h.drawn id a ha)
    refine ⟨exact_subjectAdd h.request hnew, h.code, fun id' => ?_, fun id' b hb => ?_,
      fun id' b hb => ?_, h.lifetime⟩
    · have := h.deadline id'
      by_cases hid : id' = id
      · simp [pending, hid]
      · simpa [pending, get_set, hid] using this
    · obtain hb | ⟨rfl, -⟩ := get_of_get_set hb
      · exact hd id' (h.drawn id' b hb)
      · exact hid'
    · obtain hb | ⟨rfl, rfl⟩ := get_of_get_set hb
      · exact h.named id' b hb
      · rfl

theorem Awaited.saveAuthCode (now : Time) (id v : String) :
    Awaited drawn (s.saveAuthCode env now id v).pending := by
  refine ⟨h.request, ?_, h.deadline, h.drawn, h.named, h.lifetime⟩
  rw [OIDCStore.saveAuthCode, OIDCStore.putCodeLocked]
  cases hc : s.codes.get (env.tokenHash v) with
  | none => exact h.code.set_add hc rfl
  | some c =>
    have hdel := h.code.del_remove hc fun j hj => (some.inj hj).symm
    refine (hdel.set_add (v := ⟨id, now + s.requestTTL⟩) (get_del_self _ _) rfl).congr fun k => ?_
    simp only [pending, get_set, get_del]
    split_ifs <;> rfl

end

/-! ### Steps keep it -/

/-- The first half of a mint. -/
theorem Orderly.mintFamily (h : Orderly env drawn s) (draws : MintDraws) (current : String) :
    Orderly env drawn (s.mintFamily env draws current).2 ∧
      (s.mintFamily env draws current).2.tokens.bounds = s.tokens.bounds := by
  have hdel : ∀ {s'}, Deletes env s s' → Orderly env drawn s' ∧ s'.tokens.bounds = s.tokens.bounds :=
    fun hs' => ⟨hs'.orderly h, hs'.trims.bounds⟩
  rw [OIDCStore.mintFamily]
  split
  · exact hdel .refl
  · rw [OIDCStore.claimRefresh]
    split
    · split
      · exact hdel .refl
      · exact hdel (Deletes.refl.revokeFamily _)
    · rename_i held hheld
      have hevict : Deletes env s (s.evictTombstone draws.evict (env.tokenHash current)) :=
        Deletes.refl.evictTombstone _ _
      obtain ⟨s₁, h₁⟩ : ∃ s₁, s₁ = s.evictTombstone draws.evict (env.tokenHash current) := ⟨_, rfl⟩
      rw [← h₁] at hevict ⊢
      have hrow : s₁.refreshTokens.get (env.tokenHash current) = some held := by
        rw [h₁, evictTombstone]
        split <;> exact hheld
      obtain ⟨ho, hbounds⟩ := hdel hevict
      obtain ⟨m, hm⟩ : ∃ m : RefreshTombstone, m = ⟨if held.familyID = "" then env.tokenHash current
        else held.familyID, held.idHash, held.clientID, held.subject, held.expiresAt⟩ := ⟨_, rfl⟩
      have hspent : Issued env drawn
          { s₁ with refreshTombstones := s₁.refreshTombstones.set (env.tokenHash current) m }.tokens :=
        ho.issued.spend hrow (by rw [hm]; rfl)
      rw [hm] at hspent
      refine ⟨⟨hspent.deleteRefresh _, ?_⟩, ?_⟩
      · rw [pending_deleteRefresh]
        exact ho.awaited
      · exact (trims_deleteRefresh _ _).bounds.trans hbounds

include hd in
theorem Orderly.mint (h : Orderly env drawn s) (draws : MintDraws) (hid : draws.accessID ∉ drawn)
    (hv : draws.value ∉ drawn) (hid' : draws.accessID ∈ drawn')
    (hv' : draws.value ∈ drawn') (now : Time) (request : TokenRequest)
    (captured : Option RevocationEpochs) (current : String) :
    Orderly env drawn' (s.createAccessAndRefreshTokens env draws now request captured current).2 := by
  obtain ⟨ho, hbounds⟩ := h.mintFamily draws current
  rw [createAccessAndRefreshTokens]
  rcases hfamily : s.mintFamily env draws current with ⟨x, s₁⟩
  rw [hfamily] at ho hbounds
  cases x with
  | error e => exact ho.mono hd
  | ok familyID =>
    dsimp only
    split
    · refine ⟨ho.issued.putPair hd hid hv ⟨rfl, rfl, rfl, ?_⟩ hid' hv', (ho.mono hd).awaited⟩
      obtain ⟨-, hattl, -⟩ := Prod.ext_iff.1 hbounds |>.imp_right Prod.ext_iff.1
      show now + s.accessTTL ≤ now + s₁.refreshTTL
      rw [← show s₁.accessTTL = s.accessTTL from hattl]
      exact Int.add_le_add_left ho.issued.lifetimes.2 now
    · exact ho.mono hd

theorem OnlyDevices.orderly (h : OnlyDevices s s') (hs : Orderly env drawn s) : Orderly env drawn s' := by
  obtain ⟨devices, userCodes, rfl⟩ := h
  exact ⟨hs.issued, hs.awaited⟩

theorem Orderly.bump (h : Orderly env drawn s) (c u : String) :
    Orderly env drawn (s.bumpRevocationEpochsLocked c u) := by
  obtain ⟨_, heq⟩ := bumpRevocationEpochs_eq s c u
  rw [heq]
  exact ⟨h.issued, ⟨h.awaited.request, h.awaited.code, h.awaited.deadline, h.awaited.drawn,
    h.awaited.named, h.awaited.lifetime⟩⟩

theorem Orderly.revokeGrant (h : Orderly env drawn s) (u c : String) :
    Orderly env drawn (s.revokeGrant env u c).2 := by
  rw [OIDCStore.revokeGrant]
  split
  · exact h
  · dsimp only
    exact (Deletes.refl.removeSelected _).orderly (h.bump c u)

theorem Orderly.revokeTokens (h : Orderly env drawn s) (f : TokenFilter) :
    Orderly env drawn (s.revokeTokens env f).2 := by
  exact (Deletes.refl.removeSelected _).orderly (h.bump f.clientID f.subject)

/-- **Every step** leaves an orderly store. -/
theorem exec_orderly (h : Orderly env sh.drawn sh.store) (hex : exec env op ω sh = some (r, sh')) :
    Orderly env sh'.drawn sh'.store := by
  have happend {l : List String} : ∀ v ∈ sh.drawn, v ∈ l ++ sh.drawn := fun v => mem_append_right _
  cases exec_does hex with
  | idle hstore hdrawn => rwa [hstore, hdrawn]
  | deletes hdel => exact hdel.orderly h
  | devices _ honly => exact honly.orderly h
  | createAuthRequest req u v hv =>
    refine ⟨?_, h.awaited.createAuthRequest (happend (l := [v])) hv mem_cons_self _ _ _⟩
    show Issued env _ (createAuthRequest _ _ _ _ _).2.tokens
    rw [tokens_createAuthRequest]
    exact h.issued.mono (happend (l := [v]))
  | saveAuthCode id v =>
    obtain ⟨hissued, hawaited⟩ := h.mono (happend (l := [v]))
    exact ⟨hissued, hawaited.saveAuthCode _ _ _⟩
  | storeDevice honly => exact honly.orderly (h.mono (happend (l := [_])))
  | mint request captured current hid hvalue =>
    exact h.mint happend _ hid.1 hvalue.1 hid.2 hvalue.2 sh.now request captured current
  | setAuthTime id t =>
    refine ⟨?_, h.awaited.setAuthTime id t⟩
    rw [tokens_setAuthTime]
    exact h.issued
  | completeLogin id u scopes =>
    refine ⟨?_, h.awaited.completeLogin _ id u scopes⟩
    rw [tokens_completeLogin]
    exact h.issued
  | revokeGrant u c => exact h.revokeGrant u c
  | revokeTokens f => exact h.revokeTokens f

theorem orderly_newOIDCStore (env : Env) (opts : OIDCOptions) (drawn : List String) :
    Orderly env drawn (newOIDCStore opts) := by
  have hunmarked : ∀ k m, ¬ Marked (newOIDCStore opts).tokens k m := by
    rintro k m (⟨t, ht, -⟩ | hts)
    · cases ht
    · cases hts
  refine ⟨⟨⟨.empty, .empty, nofun⟩, nofun, nofun, nofun, fun k m hm => absurd hm (hunmarked k m),
    fun k m hm => absurd hm (hunmarked k m), ?_⟩, ⟨.empty, .empty, fun _ => rfl, nofun, nofun, ?_⟩⟩
  · exact ⟨by show (0 : ℤ) < 3600 * second; decide,
      by show 3600 * second ≤ 30 * 24 * 3600 * second; decide⟩
  · show (0 : ℤ) < if opts.requestTTL ≤ 0 then 1800 * second else opts.requestTTL
    split_ifs with hle
    · decide
    · exact Int.not_le.1 hle

/-! ## Runs of the store -/

/-- **Methods**: the steps of the provider, and `CreateAccessToken`, which none of its requests comes to
since an approval always grants `offline_access`. -/
inductive Method
  | step (op : Op)
  | createAccessToken (request : TokenRequest)

/-- One method is called. -/
def Method.exec (env : Env) (m : Method) (ω : Choice) (sh : Shared) : Option Shared :=
  match m with
  | step o => (Memory.exec env o ω sh).map (·.2)
  | createAccessToken request => (sh.drawing ω 1 fun vs sh =>
      sh.onStore (sh.store.createAccessToken env sh.now (vs.headD "") request)).map (·.2)

/-- **Run**: methods are called one after the other. -/
def runAll (env : Env) : List (Method × Choice) → Shared → Option Shared
  | [], sh => some sh
  | (m, ω) :: rest, sh => (m.exec env ω sh).bind (runAll env rest)

include hd in
/-- An access token on its own, under a new id. -/
theorem Issued.createAccessToken (h : Issued env drawn s.tokens) (hid : id ∉ drawn) (hid' : id ∈ drawn')
    (now : Time) (request : TokenRequest) :
    Issued env drawn' (s.createAccessToken env now id request).2.tokens := by
  have hnew : ¬ ∃ v ∈ drawn, env.tokenHash v = env.tokenHash id := by
    rintro ⟨v, hv, heq⟩
    exact hid (env.tokenHash_injective heq ▸ hv)
  have haccess : s.accessTokens.get (env.tokenHash id) = none :=
    eq_none_iff_forall_ne_some.2 fun b hb => hnew (h.access _ b hb)
  have hmono := h.mono hd
  refine ⟨⟨exact_subjectAdd h.filed.access haccess, h.filed.refresh, h.filed.byIDHash⟩, h.byIDHash, ?_, ?_,
    hmono.value, hmono.accessID, h.lifetimes⟩
  · intro h' t k m ht hm hidm
    obtain ht | ⟨rfl, -⟩ := get_of_get_set ht
    · exact h.signed h' t k m ht hm hidm
    · -- no refresh token names the new access token
      exact absurd (hidm ▸ h.accessID k m hm) hnew
  · intro h' t ht
    obtain ht | ⟨rfl, -⟩ := get_of_get_set ht
    · exact hmono.access h' t ht
    · exact ⟨id, hid', rfl⟩

variable {m : Method} {run : List (Method × Choice)}

/-- A method is a step, fails, or stores an access token on its own under a new id. -/
theorem Method.cases (hex : m.exec env ω sh = some sh') :
    (∃ o r, m = .step o ∧ Memory.exec env o ω sh = some (r, sh')) ∨ sh' = sh ∨
      ∃ request id, id ∉ sh.drawn ∧ sh' = { sh with
        drawn := id :: sh.drawn, store := (sh.store.createAccessToken env sh.now id request).2 } := by
  cases m with
  | step o =>
    obtain ⟨⟨r, sh₁⟩, hr, rfl⟩ := map_eq_some_iff.1 hex
    exact .inl ⟨o, r, rfl, hr⟩
  | createAccessToken request =>
    obtain ⟨⟨r, sh₁⟩, hr, rfl⟩ := map_eq_some_iff.1 hex
    obtain ⟨-, rfl⟩ | ⟨vs, -, hlen, hfresh, hr⟩ := drawing_cases hr
    · exact .inr (.inl rfl)
    · obtain ⟨id, rfl⟩ := length_eq_one_iff.1 hlen
      cases hr
      exact .inr (.inr ⟨request, id, hfresh.2 id mem_cons_self, rfl⟩)

theorem Method.orderly (h : Orderly env sh.drawn sh.store) (hex : m.exec env ω sh = some sh') :
    Orderly env sh'.drawn sh'.store := by
  obtain ⟨o, r, rfl, hr⟩ | rfl | ⟨request, id, hid, rfl⟩ := Method.cases hex
  · exact exec_orderly h hr
  · exact h
  · have hcons : ∀ v ∈ sh.drawn, v ∈ id :: sh.drawn := fun v => mem_cons_of_mem id
    exact ⟨h.issued.createAccessToken hcons hid mem_cons_self _ _, (h.mono hcons).awaited⟩

/-- **Run rule**: what every method keeps holds after any run. -/
theorem runAll_induct {I : Shared → Prop} (hstep : ∀ {m : Method} {ω sh sh'}, I sh →
    m.exec env ω sh = some sh' → I sh') (h : I sh) (hrun : runAll env run sh = some sh') : I sh' := by
  induction run generalizing sh with
  | nil =>
    cases hrun
    exact h
  | cons mω run ih =>
    obtain ⟨sh₁, hex, hrest⟩ := bind_eq_some_iff.1 hrun
    exact ih (hstep h hex) hrest

theorem runAll_orderly (h : Orderly env sh.drawn sh.store) (hrun : runAll env run sh = some sh') :
    Orderly env sh'.drawn sh'.store :=
  runAll_induct (I := fun sh => Orderly env sh.drawn sh.store) Method.orderly h hrun

end Re0Auth.Memory

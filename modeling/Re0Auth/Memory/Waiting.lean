import Re0Auth.Memory.Orderly

/-!
# Device authorizations in the in-memory store

What a method can do to the pending device authorizations and to the user codes beside them, said once.

* **`DeviceTables`**: the part of the store the device methods work on;
* **`Moves`**: records go, with their user codes, or change without becoming another authorization;
* **`Coded`**: every record is named by its user code and every user code names a record;
* **`exec_evolves`**: a step moves, or starts one new authorization.
-/

namespace Re0Auth.Memory

open Lib OAuth Oidc OIDCStore Dict List Option

/-- **Device tables**: pending device authorizations, by the hash of the device code, and the user codes
that name them. -/
structure DeviceTables where
  devices : Dict String DeviceRecord
  userCodes : Dict String String
  maxPendingDeviceAuthorizations : ℕ

/-- The device authorizations of a store. -/
def OIDCStore.waiting (s : OIDCStore) : DeviceTables where
  devices := s.devices
  userCodes := s.userCodes
  maxPendingDeviceAuthorizations := s.maxPendingDeviceAuthorizations

namespace DeviceTables

/-- A record goes, with its user code. -/
def drop (env : Env) (D : DeviceTables) (k : String) (d : DeviceRecord) : DeviceTables :=
  { D with devices := D.devices.del k, userCodes := D.userCodes.del (normalizeUserCode env d.userCode) }

/-- A record changes. -/
def change (D : DeviceTables) (k : String) (d : DeviceRecord) : DeviceTables :=
  { D with devices := D.devices.set k d }

/-- A record is stored, under a user code. -/
def start (env : Env) (D : DeviceTables) (k : String) (d : DeviceRecord) : DeviceTables :=
  { D with devices := D.devices.set k d, userCodes := D.userCodes.set (normalizeUserCode env d.userCode) k }

end DeviceTables

/-- The same authorization, later: who began it, its code and its deadline do not change, a denial
stays, and as long as it is not approved it is for the scopes that were requested. -/
structure DeviceRecord.Later (d d' : DeviceRecord) : Prop where
  userCode : d'.userCode = d.userCode
  clientID : d'.clientID = d.clientID
  expiresAt : d'.expiresAt = d.expiresAt
  denied : d.denied = true → d'.denied = true
  pending : d'.done = false → d.done = false ∧ d'.scopes = d.scopes

theorem DeviceRecord.Later.refl (d : DeviceRecord) : d.Later d := ⟨rfl, rfl, rfl, id, fun h => ⟨h, rfl⟩⟩

theorem DeviceRecord.Later.trans {d d' d'' : DeviceRecord} (h : d.Later d') (h' : d'.Later d'') :
    d.Later d'' :=
  ⟨h'.userCode.trans h.userCode, h'.clientID.trans h.clientID, h'.expiresAt.trans h.expiresAt,
    fun hd => h'.denied (h.denied hd), fun hd =>
      ⟨(h.pending (h'.pending hd).1).1, (h'.pending hd).2.trans (h.pending (h'.pending hd).1).2⟩⟩

/-- **Moves**: what happens to device authorizations that exist. -/
inductive Moves (env : Env) (D : DeviceTables) : DeviceTables → Prop
  | refl : Moves env D D
  | drop {D' : DeviceTables} (h : Moves env D D') {k : String} {d : DeviceRecord}
    (hd : D'.devices.get k = some d) : Moves env D (D'.drop env k d)
  | change {D' : DeviceTables} (h : Moves env D D') {k : String} {d d' : DeviceRecord}
    (hd : D'.devices.get k = some d) (hlater : d.Later d') : Moves env D (D'.change k d')

/-- **Coded** tables: a user code names the record that has it, no other code is there, and records have
hashes of device codes that were drawn. -/
structure Coded (env : Env) (drawn : List String) (D : DeviceTables) : Prop where
  userCode : ∀ key k, D.userCodes.get key = some k ↔
    ∃ d, D.devices.get k = some d ∧ normalizeUserCode env d.userCode = key
  drawn : ∀ k d, D.devices.get k = some d → ∃ v ∈ drawn, env.tokenHash v = k
  bounded : D.devices.size ≤ D.maxPendingDeviceAuthorizations

variable {env : Env} {drawn drawn' : List String} {D D' : DeviceTables} {k : String}
  {d d' : DeviceRecord} {now : Time} {s s' : OIDCStore} {sh sh' : Shared} {op : Op} {ω : Choice}
  {r : Except Err op.Answer}

theorem Coded.mono (h : Coded env drawn D) (hd : ∀ v ∈ drawn, v ∈ drawn') : Coded env drawn' D where
  userCode := h.userCode
  drawn k d hk := (h.drawn k d hk).imp fun v hv => ⟨hd v hv.1, hv.2⟩
  bounded := h.bounded

theorem Coded.drop (h : Coded env drawn D) (hd : D.devices.get k = some d) :
    Coded env drawn (D.drop env k d) := by
  refine ⟨fun key k' => ?_, fun k' d' hd' => h.drawn k' d' (get_of_get_del hd').1,
    Nat.le_trans (sub_del _ k).size_le h.bounded⟩
  show (D.userCodes.del _).get key = some k' ↔ ∃ d', (D.devices.del k).get k' = some d' ∧ _
  rw [get_del]
  constructor
  · intro hkey
    split_ifs at hkey with hcode
    obtain ⟨d', hd', hnorm⟩ := (h.userCode key k').1 hkey
    refine ⟨d', (get_del _ _ _).trans ((if_neg ?_).trans hd'), hnorm⟩
    rintro rfl
    obtain rfl : d = d' := some.inj (hd.symm.trans hd')
    exact hcode hnorm.symm
  · rintro ⟨d', hd', hnorm⟩
    obtain ⟨hd', hne⟩ := get_of_get_del hd'
    have hkey := (h.userCode key k').2 ⟨d', hd', hnorm⟩
    rwa [if_neg]
    -- the code of the record that goes names no other record
    intro hcode
    have hown := (h.userCode key k).2 ⟨d, hd, hcode.symm⟩
    exact hne (some.inj (hkey.symm.trans hown))

theorem Coded.change (h : Coded env drawn D) (hd : D.devices.get k = some d)
    (hcode : d'.userCode = d.userCode) : Coded env drawn (D.change k d') := by
  refine ⟨fun key k' => ?_, fun k' d₁ hd₁ => ?_, ?_⟩
  · show D.userCodes.get key = some k' ↔ ∃ d₁, (D.devices.set k d').get k' = some d₁ ∧ _
    rw [h.userCode, get_set]
    split_ifs with hk
    · subst hk
      simp [hd, hcode]
    · rfl
  · obtain hd₁ | ⟨rfl, -⟩ := get_of_get_set hd₁
    · exact h.drawn k' d₁ hd₁
    · exact h.drawn k' d hd
  · show (D.devices.set k d').size ≤ _
    rw [size_set, size_del hd]
    exact h.bounded

theorem Coded.start (h : Coded env drawn D) {v : String} (hd : ∀ w ∈ drawn, w ∈ drawn') (hv : v ∉ drawn)
    (hv' : v ∈ drawn') (hfree : D.userCodes.get (normalizeUserCode env d.userCode) = none)
    (hroom : D.devices.size < D.maxPendingDeviceAuthorizations) :
    Coded env drawn' (D.start env (env.tokenHash v) d) := by
  have hnew : D.devices.get (env.tokenHash v) = none := by
    refine eq_none_iff_forall_ne_some.2 fun d₁ hd₁ => ?_
    obtain ⟨w, hw, heq⟩ := h.drawn _ d₁ hd₁
    exact hv (env.tokenHash_injective heq ▸ hw)
  refine ⟨fun key k' => ?_, fun k' d₁ hd₁ => ?_, ?_⟩
  · show (D.userCodes.set _ _).get key = some k' ↔ ∃ d₁, (D.devices.set _ d).get k' = some d₁ ∧ _
    rw [get_set, get_set]
    by_cases hkey : key = normalizeUserCode env d.userCode
    · rw [if_pos hkey]
      constructor
      · intro hk'
        rw [if_pos (some.inj hk').symm]
        exact ⟨d, rfl, hkey.symm⟩
      · rintro ⟨d₁, hd₁, hnorm⟩
        split_ifs at hd₁ with hk'
        · rw [hk']
        · have hentry := (h.userCode key k').2 ⟨d₁, hd₁, hnorm⟩
          rw [hkey, hfree] at hentry
          cases hentry
    · rw [if_neg hkey, h.userCode]
      refine exists_congr fun d₁ => and_congr_left fun hnorm => ?_
      split_ifs with hk'
      · subst hk'
        rw [hnew]
        refine ⟨nofun, fun heq => absurd ?_ hkey⟩
        rw [some.inj heq, hnorm]
      · rfl
  · obtain hd₁ | ⟨rfl, -⟩ := get_of_get_set hd₁
    · exact (h.drawn k' d₁ hd₁).imp fun w hw => ⟨hd w hw.1, hw.2⟩
    · exact ⟨v, hv', rfl⟩
  · show (D.devices.set _ d).size ≤ _
    rw [size_set]
    exact Nat.lt_of_le_of_lt (sub_del _ _).size_le hroom

theorem Moves.coded (h : Moves env D D') (hD : Coded env drawn D) : Coded env drawn D' := by
  induction h with
  | refl => exact hD
  | drop _ hd ih => exact ih.drop hd
  | change _ hd hlater ih => exact ih.change hd hlater.userCode

/-- A record that is there was there, as the same authorization. -/
theorem Moves.earlier (h : Moves env D D') (hd' : D'.devices.get k = some d') :
    ∃ d, D.devices.get k = some d ∧ d.Later d' := by
  induction h generalizing d' with
  | refl => exact ⟨d', hd', .refl d'⟩
  | drop _ _ ih => exact ih (get_of_get_del hd').1
  | change _ hd hlater ih =>
    obtain hd' | ⟨rfl, rfl⟩ := get_of_get_set hd'
    · exact ih hd'
    · obtain ⟨d₀, hd₀, hlater₀⟩ := ih hd
      exact ⟨d₀, hd₀, hlater₀.trans hlater⟩

theorem Moves.bound (h : Moves env D D') :
    D'.maxPendingDeviceAuthorizations = D.maxPendingDeviceAuthorizations := by
  induction h with
  | refl => rfl
  | drop _ _ ih => exact ih
  | change _ _ _ ih => exact ih

/-! ## What the methods do -/

section Frames

variable (s)

@[simp] theorem waiting_deleteAccess (k : String) : (s.deleteAccessLocked k).waiting = s.waiting := by
  rw [deleteAccessLocked]
  split <;> rfl

@[simp] theorem waiting_deleteRefresh (k : String) : (s.deleteRefreshLocked k).waiting = s.waiting := by
  rw [deleteRefreshLocked]
  split <;> rfl

@[simp] theorem waiting_deleteRequest (id : String) : (s.deleteRequestLocked id).waiting = s.waiting := by
  rw [deleteRequestLocked]
  split <;> rfl

@[simp] theorem waiting_deleteCode (k : String) : (s.deleteCodeLocked k).waiting = s.waiting := by
  rw [deleteCodeLocked]
  split <;> rfl

@[simp] theorem waiting_deleteCodes (id : String) :
    (s.deleteCodesForRequestLocked id).2.waiting = s.waiting := by
  rw [deleteCodesForRequestLocked]
  split <;> rfl

theorem waiting_createAuthRequest (now : Time) (id : String) (req : AuthorizeParams) (u : String) :
    (s.createAuthRequest now id req u).2.waiting = s.waiting := by
  rw [createAuthRequest]
  split <;> rfl

theorem waiting_setAuthTime (id : String) (t : Time) : (s.setAuthTime id t).2.waiting = s.waiting := by
  rw [setAuthTime]
  split <;> rfl

theorem waiting_completeLogin (now : Time) (id u : String) (scopes : List String) :
    (s.completeLogin now id u scopes).2.waiting = s.waiting := by
  rw [completeLogin]
  split
  · rfl
  · split <;> rfl

theorem waiting_bump (c u : String) : (s.bumpRevocationEpochsLocked c u).waiting = s.waiting := by
  obtain ⟨_, heq⟩ := bumpRevocationEpochs_eq s c u
  rw [heq]
  rfl

end Frames

theorem Deletes.moves (h : Deletes env s s') : Moves env s.waiting s'.waiting := by
  induction h with
  | refl => exact .refl
  | access _ k ih => simpa using ih
  | refresh _ k ih => simpa using ih
  | tombstone _ k ih => exact ih
  | request _ id ih => simpa using ih
  | code _ k ih => simpa using ih
  | codes _ id ih => simpa using ih
  | device _ hd ih => exact ih.drop hd

theorem moves_mint (draws : MintDraws) (request : TokenRequest) (captured : Option RevocationEpochs)
    (current : String) :
    Moves env s.waiting
      (s.createAccessAndRefreshTokens env draws now request captured current).2.waiting := by
  have hfamily : Moves env s.waiting (s.mintFamily env draws current).2.waiting := by
    rw [mintFamily]
    split
    · exact .refl
    · rw [OIDCStore.claimRefresh]
      split
      · split
        · exact .refl
        · exact (Deletes.refl.revokeFamily _).moves
      · rw [waiting_deleteRefresh]
        exact (Deletes.refl.evictTombstone _ _).moves
  rw [createAccessAndRefreshTokens]
  rcases hm : s.mintFamily env draws current with ⟨x, s₁⟩
  rw [hm] at hfamily
  cases x with
  | error e => exact hfamily
  | ok familyID =>
    dsimp only
    split <;> exact hfamily

/-- A revocation moves the generations on and deletes. -/
theorem moves_removeSelected (c u : String) (sel : OIDCStore.Selection) :
    Moves env s.waiting ((s.bumpRevocationEpochsLocked c u).removeSelected env sel).2.waiting := by
  rw [← waiting_bump s c u]
  exact (Deletes.refl.removeSelected sel).moves

theorem moves_revokeGrant (u c : String) : Moves env s.waiting (s.revokeGrant env u c).2.waiting := by
  rw [OIDCStore.revokeGrant]
  split
  · exact .refl
  · dsimp only
    exact moves_removeSelected c u _

theorem moves_revokeTokens (f : TokenFilter) : Moves env s.waiting (s.revokeTokens env f).2.waiting := by
  exact moves_removeSelected f.clientID f.subject _

theorem moves_getState (c v : String) :
    Moves env s.waiting (s.getDeviceAuthorizatonState env now c v).2.waiting := by
  rw [getDeviceAuthorizatonState]
  split
  · exact .refl
  · rename_i d hd
    obtain ⟨hd, -⟩ := filter_eq_some_iff.1 hd
    have hpolled : Moves env s.waiting (s.waiting.change (env.tokenHash v) { d with lastPoll := now }) :=
      Moves.refl.change hd ⟨rfl, rfl, rfl, id, fun h => ⟨h, rfl⟩⟩
    split
    · exact hpolled
    · split
      · exact Moves.refl.drop hd
      · exact hpolled

section

variable (h : Coded env drawn s.waiting)
include h

/-- A user code that is there names a record, so a decision never writes a record of its own. -/
theorem moves_decide {userCode : String} {f : DeviceRecord → DeviceRecord}
    (hk : s.userCodes.get (normalizeUserCode env userCode) = some k) (hf : ∀ d : DeviceRecord, d.Later (f d)) :
    Moves env s.waiting (s.waiting.change k (f ((s.devices.get k).getD .zero))) := by
  obtain ⟨d, hd, -⟩ := (h.userCode _ k).1 hk
  have hd' : s.devices.get k = some d := hd
  rw [hd', getD_some]
  exact Moves.refl.change hd (hf d)

theorem moves_approve (code u : String) (scopes : Option (List String)) :
    Moves env s.waiting (s.approveDevice env now code u scopes).2.waiting := by
  rw [approveDevice]
  split
  · exact .refl
  · rename_i k hk
    dsimp only
    split
    · exact .refl
    · exact moves_decide (f := fun d => { d with
        done := true, subject := u, authTime := now, scopes := scopes.getD d.scopes }) h hk
        fun d => ⟨rfl, rfl, rfl, id, by rintro ⟨⟩⟩

theorem moves_deny (code : String) : Moves env s.waiting (s.denyDevice env code).2.waiting := by
  rw [denyDevice]
  split
  · exact .refl
  · rename_i k hk
    dsimp only
    split
    · exact .refl
    · exact moves_decide (f := fun d => { d with denied := true }) h hk
        fun d => ⟨rfl, rfl, rfl, fun _ => rfl, fun h => ⟨h, rfl⟩⟩

theorem moves_freeUserCode {key : String} (hfree : s.freeUserCode now key = .ok s') :
    Moves env s.waiting s'.waiting ∧ s'.userCodes.get key = none := by
  rw [OIDCStore.freeUserCode] at hfree
  split at hfree
  · rename_i hnone
    cases hfree
    exact ⟨.refl, hnone⟩
  · rename_i k hk
    split at hfree
    · cases hfree
      obtain ⟨d, hd, rfl⟩ := (h.userCode key k).1 hk
      exact ⟨Moves.refl.drop hd, get_del_self _ _⟩
    · cases hfree

end

/-- The record of a new device authorization. -/
def DeviceRecord.started (k userCode clientID : String) (scopes : List String) (expires : Time) :
    DeviceRecord :=
  { DeviceRecord.zero with
    deviceCodeHash := k, userCode := userCode, clientID := clientID, scopes := scopes,
    expiresAt := expires }

/-- **Starts**: one device authorization is new; an expired one may have given its user code up. -/
def Starts (env : Env) (v : String) (d : DeviceRecord) (D D' : DeviceTables) : Prop :=
  ∃ D₁, Moves env D D₁ ∧ D₁.userCodes.get (normalizeUserCode env d.userCode) = none ∧
    D₁.devices.size < D₁.maxPendingDeviceAuthorizations ∧ D' = D₁.start env (env.tokenHash v) d

/-- `StoreDeviceAuthorization` fails, or starts. -/
theorem store_cases (now : Time) (h : Coded env drawn s.waiting) {v : String} (hv : v ∉ drawn)
    (c u : String) (expires : Time) (scopes : List String) :
    (∃ e, (s.storeDeviceAuthorization env now c v u expires scopes).1 = .error e ∧
      Moves env s.waiting (s.storeDeviceAuthorization env now c v u expires scopes).2.waiting) ∨
    (s.storeDeviceAuthorization env now c v u expires scopes).1 = .ok () ∧
      Starts env v (.started (env.tokenHash v) u c scopes expires) s.waiting
        (s.storeDeviceAuthorization env now c v u expires scopes).2.waiting := by
  rw [storeDeviceAuthorization]
  dsimp only
  split
  · exact .inl ⟨_, rfl, .refl⟩
  · rename_i s₁ hs₁
    obtain ⟨hmoves, hfree⟩ := moves_freeUserCode h hs₁
    have hnew : s₁.devices.get (env.tokenHash v) = none := by
      refine eq_none_iff_forall_ne_some.2 fun d hd => ?_
      obtain ⟨w, hw, heq⟩ := (hmoves.coded h).drawn _ d hd
      exact hv (env.tokenHash_injective heq ▸ hw)
    split
    · exact .inl ⟨_, rfl, hmoves⟩
    · rename_i hroom
      refine .inr ⟨rfl, s₁.waiting, hmoves, hfree, Nat.lt_of_not_le fun hfull => hroom ⟨?_, hfull⟩, rfl⟩
      rw [hnew]
      rfl

/-! ## Steps -/

/-- **Evolution** of the device authorizations in a step: only a `StoreDeviceAuthorization` that
succeeds starts one, under a device code that was not drawn before. -/
inductive Evolves (env : Env) (sh sh' : Shared) : (op : Op) → Except Err op.Answer → Prop
  | moves {op : Op} {r : Except Err op.Answer} (h : Moves env sh.store.waiting sh'.store.waiting) :
    Evolves env sh sh' op r
  | starts {c : String} {l : Duration} {scopes : List String} {v u : String} (hv : v ∉ sh.drawn)
    (hv' : v ∈ sh'.drawn)
    (h : Starts env v (.started (env.tokenHash v) u c scopes (sh.now + l)) sh.store.waiting
      sh'.store.waiting) :
    Evolves env sh sh' (.storeDeviceAuthorization c l scopes) (.ok (v, u))

theorem exec_evolves (h : Coded env sh.drawn sh.store.waiting) (hex : exec env op ω sh = some (r, sh')) :
    Evolves env sh sh' op r := by
  cases exec_does hex with
  | idle hstore => exact .moves (hstore ▸ .refl)
  | deletes hdel => exact .moves hdel.moves
  | devices hop honly =>
    cases op with
    | getDeviceAuthorizatonState c d => exact .moves (shared_onStore hex ▸ moves_getState c d)
    | approveDevice code u scopes => exact .moves (shared_onStore hex ▸ moves_approve h code u _)
    | denyDevice code => exact .moves (shared_onStore hex ▸ moves_deny h code)
    | _ => cases hop
  | createAuthRequest req u =>
    refine .moves ?_
    show Moves env _ (createAuthRequest _ _ _ _ _).2.waiting
    rw [waiting_createAuthRequest]
    exact .refl
  | saveAuthCode id => exact .moves .refl
  | storeDevice =>
    rename_i c l scopes v s' honly
    rw [exec] at hex
    obtain ⟨-, heq⟩ | ⟨v, hv, hex⟩ := drawing_one hex
    · rw [heq]
      exact .moves .refl
    obtain ⟨e, he, hm⟩ | ⟨hok, hstarts⟩ := store_cases sh.now h hv c ω.userCode (sh.now + l) scopes
    · cases hex
      exact .moves hm
    · dsimp only [headD_cons] at hex
      rw [hok] at hex
      cases hex
      exact .starts hv mem_cons_self hstarts
  | mint request captured current => exact .moves (moves_mint _ _ _ _)
  | setAuthTime id t => exact .moves (waiting_setAuthTime sh.store id t ▸ .refl)
  | completeLogin id u scopes => exact .moves (waiting_completeLogin sh.store _ id u scopes ▸ .refl)
  | revokeGrant u c => exact .moves (moves_revokeGrant u c)
  | revokeTokens f => exact .moves (moves_revokeTokens f)

theorem Evolves.coded (h : Evolves env sh sh' op r) (hs : Coded env sh.drawn sh.store.waiting)
    (hdrawn : ∀ v ∈ sh.drawn, v ∈ sh'.drawn) : Coded env sh'.drawn sh'.store.waiting := by
  cases h with
  | moves h => exact (h.coded hs).mono hdrawn
  | starts hv hv' h =>
    obtain ⟨D₁, hmoves, hfree, hroom, heq⟩ := h
    rw [heq]
    exact (hmoves.coded hs).start hdrawn hv hv' hfree hroom

theorem exec_coded (h : Coded env sh.drawn sh.store.waiting) (hex : exec env op ω sh = some (r, sh')) :
    Coded env sh'.drawn sh'.store.waiting :=
  (exec_evolves h hex).coded h fun _ hv => exec_drawn hex hv

end Re0Auth.Memory

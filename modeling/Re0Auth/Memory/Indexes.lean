import Re0Auth.Memory.Sweep
import Re0Auth.Memory.Waiting

/-!
# The secondary maps of the in-memory store

Seven maps of the store only repeat what is in the others: three indexes by subject, the codes of a
request, the refresh token of an access token, the user codes and the deadlines. In every state the
methods can bring about they say what the records say, and the three maps an unauthenticated caller can
fill stay within their bounds.

* **`IndexesExact`**: what the maps say;
* **`Compacted`**: no bucket is empty and no bound is passed, which each write keeps;
* **`indexes_exact`**: every run.
-/

namespace Re0Auth.Memory

open Lib OAuth Oidc OIDCStore Dict List

/-- **Exact indexes**: each entry is there because of a record, each record has its entries, and no
bucket is empty. -/
structure IndexesExact (env : Env) (s : OIDCStore) : Prop where
  accessBySubject : s.accessBySubject.Exact (fun t : AccessToken => filedUnder t.subject) s.accessTokens
  refreshBySubject : s.refreshBySubject.Exact (fun t : RefreshToken => filedUnder t.subject) s.refreshTokens
  requestBySubject : s.requestBySubject.Exact (fun a : AuthRequest => filedUnder a.subject) s.authRequests
  codeByRequest : s.codeByRequest.Exact (fun c : CodeRecord => some c.requestID) s.codes
  refreshByIDHash : ∀ h k, s.refreshByIDHash.get h = some k ↔
    ∃ t, s.refreshTokens.get k = some t ∧ t.idHash = h
  userCodes : ∀ key h, s.userCodes.get key = some h ↔
    ∃ d, s.devices.get h = some d ∧ normalizeUserCode env d.userCode = key
  authRequestExpiry : ∀ id, (s.authRequestExpiry.get id).isSome = (s.authRequests.get id).isSome
  compact : s.accessBySubject.Compact ∧ s.refreshBySubject.Compact ∧ s.requestBySubject.Compact ∧
    s.codeByRequest.Compact

/-- The bounds a store is configured with. -/
def OIDCStore.limits (s : OIDCStore) : ℕ × ℕ × ℕ :=
  (s.maxPendingAuthRequests, s.maxPendingDeviceAuthorizations, s.maxTombstones)

/-- **Compacted** stores: no bucket is empty, and pending requests and tombstones are within the bounds
`opts` asks for. -/
structure Compacted (opts : OIDCOptions) (s : OIDCStore) : Prop where
  access : s.accessBySubject.Compact
  refresh : s.refreshBySubject.Compact
  request : s.requestBySubject.Compact
  code : s.codeByRequest.Compact
  requests : s.authRequests.size ≤ s.maxPendingAuthRequests
  tombstones : s.refreshTombstones.size ≤ s.maxTombstones
  limits : s.limits = (newOIDCStore opts).limits

variable {env : Env} {opts : OIDCOptions} {s s' : OIDCStore} {now : Time} {sh sh' : Shared}
  {op : Op} {ω : Choice} {r : Except Err op.Answer}

theorem compacted_newOIDCStore (opts : OIDCOptions) : Compacted opts (newOIDCStore opts) :=
  ⟨.empty, .empty, .empty, .empty, Nat.zero_le _, Nat.zero_le _, rfl⟩

theorem compact_subjectAdd {ix : Index String String} (h : ix.Compact) (subject key : String) :
    (subjectAdd ix subject key).Compact := by
  rw [subjectAdd]
  split_ifs
  · exact h
  · exact h.add

namespace Compacted

variable (h : Compacted opts s)
include h

/-! ## Deletions -/

theorem deleteAccess (k : String) : Compacted opts (s.deleteAccessLocked k) := by
  rw [deleteAccessLocked]
  split
  · exact h
  · exact ⟨h.access.remove, h.refresh, h.request, h.code, h.requests, h.tombstones, h.limits⟩

theorem deleteRefresh (k : String) : Compacted opts (s.deleteRefreshLocked k) := by
  rw [deleteRefreshLocked]
  split
  · exact h
  · exact ⟨h.access, h.refresh.remove, h.request, h.code, h.requests, h.tombstones, h.limits⟩

theorem deleteTombstone (k : String) : Compacted opts (s.deleteTombstone k) :=
  { h with tombstones := Nat.le_trans (sub_del _ k).size_le h.tombstones }

theorem deleteRequest (id : String) : Compacted opts (s.deleteRequestLocked id) := by
  rw [deleteRequestLocked]
  split
  · exact h
  · exact ⟨h.access, h.refresh, h.request.remove, h.code,
      Nat.le_trans (sub_del _ id).size_le h.requests, h.tombstones, h.limits⟩

theorem deleteCode (k : String) : Compacted opts (s.deleteCodeLocked k) := by
  rw [deleteCodeLocked]
  split
  · exact h
  · exact ⟨h.access, h.refresh, h.request, h.code.remove, h.requests, h.tombstones, h.limits⟩

theorem deleteCodes (id : String) : Compacted opts (s.deleteCodesForRequestLocked id).2 := by
  rw [deleteCodesForRequestLocked]
  split
  · exact h
  · exact ⟨h.access, h.refresh, h.request, h.code.del, h.requests, h.tombstones, h.limits⟩

theorem deletes (hdel : Deletes env s s') : Compacted opts s' := by
  induction hdel with
  | refl => exact h
  | access _ k ih => exact ih.deleteAccess k
  | refresh _ k ih => exact ih.deleteRefresh k
  | tombstone _ k ih => exact ih.deleteTombstone k
  | request _ id ih => exact ih.deleteRequest id
  | code _ k ih => exact ih.deleteCode k
  | codes _ id ih => exact ih.deleteCodes id
  | device _ _ ih =>
    exact ⟨ih.access, ih.refresh, ih.request, ih.code, ih.requests, ih.tombstones, ih.limits⟩

/-! ## Writes -/

theorem putAccess (k : String) (t : AccessToken) : Compacted opts (s.putAccessLocked k t) :=
  { h with access := compact_subjectAdd h.access _ _ }

theorem putRefresh (k : String) (t : RefreshToken) : Compacted opts (s.putRefreshLocked k t) :=
  { h with refresh := compact_subjectAdd h.refresh _ _ }

theorem onlyDevices (hdev : OnlyDevices s s') : Compacted opts s' := by
  obtain ⟨devices, userCodes, rfl⟩ := hdev
  exact ⟨h.access, h.refresh, h.request, h.code, h.requests, h.tombstones, h.limits⟩

theorem bump (c u : String) : Compacted opts (s.bumpRevocationEpochsLocked c u) := by
  obtain ⟨_, heq⟩ := bumpRevocationEpochs_eq s c u
  rw [heq]
  exact ⟨h.access, h.refresh, h.request, h.code, h.requests, h.tombstones, h.limits⟩

theorem createAuthRequest (id : String) (req : AuthorizeParams) (u : String) :
    Compacted opts (s.createAuthRequest now id req u).2 := by
  rw [OIDCStore.createAuthRequest]
  split
  · exact h
  · rename_i hroom
    refine { h with request := compact_subjectAdd h.request _ _, requests := ?_ }
    show (s.authRequests.set id _).size ≤ _
    rw [size_set]
    exact Nat.lt_of_le_of_lt (sub_del _ id).size_le (Nat.lt_of_not_le hroom)

/-- A request that is there changes. -/
theorem setRequest {id : String} {a : AuthRequest} (a' : AuthRequest) (ix : Index String String)
    (ha : s.authRequests.get id = some a) (hix : ix.Compact) :
    Compacted opts { s with authRequests := s.authRequests.set id a', requestBySubject := ix } := by
  refine { h with request := hix, requests := ?_ }
  show (s.authRequests.set id a').size ≤ _
  rw [size_set, size_del ha]
  exact h.requests

theorem setAuthTime (id : String) (t : Time) : Compacted opts (s.setAuthTime id t).2 := by
  rw [OIDCStore.setAuthTime]
  split
  · exact h
  · rename_i a ha
    exact h.setRequest _ _ ha h.request

theorem completeLogin (id u : String) (scopes : List String) :
    Compacted opts (s.completeLogin now id u scopes).2 := by
  rw [OIDCStore.completeLogin]
  split
  · exact h
  · rename_i a ha
    split
    · exact h
    · refine h.setRequest _ _ ha ?_
      split_ifs
      · exact h.request
      · exact compact_subjectAdd h.request.remove _ _

theorem saveAuthCode (id v : String) : Compacted opts (s.saveAuthCode env now id v) := by
  refine { h with code := ?_ }
  show (Index.add _ id (env.tokenHash v)).Compact
  split
  · exact h.code.add
  · exact h.code.remove.add

/-- A tombstone finds room: past the bound another one goes first. -/
theorem spend (env : Env) (evict : ℕ) (spent : String) (m : RefreshTombstone) :
    Compacted opts { s.evictTombstone evict spent with
      refreshTombstones := (s.evictTombstone evict spent).refreshTombstones.set spent m } := by
  have hdel : Deletes env s (s.evictTombstone evict spent) := Deletes.refl.evictTombstone evict spent
  have hevict := h.deletes hdel
  refine { hevict with tombstones := ?_ }
  show (set _ spent m).size ≤ _
  rw [size_set]
  have hsize := h.tombstones
  rw [evictTombstone]
  split
  · -- the map is full, and the one that goes makes room
    rename_i hfull
    have hpos : 0 < s.maxTombstones := by
      rw [show s.maxTombstones = (newOIDCStore opts).maxTombstones from
        congrArg (fun limits => limits.2.2) h.limits]
      show 0 < if opts.maxRefreshTombstones = 0 then 65536 else opts.maxRefreshTombstones
      split_ifs <;> omega
    have hlen : 0 < s.refreshTombstones.keys.length := by
      rw [AList.keys, keys, length_map]
      exact Nat.lt_of_lt_of_le hpos hfull.2
    obtain ⟨k, hk⟩ : ∃ k, k = s.refreshTombstones.keys.getD
        (evict % s.refreshTombstones.keys.length) "" := ⟨_, rfl⟩
    have hmem : k ∈ s.refreshTombstones.keys := by
      rw [hk, getD, getElem?_eq_getElem (Nat.mod_lt _ hlen), Option.getD_some]
      exact getElem_mem _
    obtain ⟨m', hm'⟩ := mem_keys_iff.1 hmem
    have hgone := size_del hm'
    have hle := (sub_del (s.refreshTombstones.del k) spent).size_le
    show ((s.refreshTombstones.del _).del spent).size + 1 ≤ s.maxTombstones
    rw [← hk]
    omega
  · rename_i hroom
    show (s.refreshTombstones.del spent).size + 1 ≤ s.maxTombstones
    cases hm : s.refreshTombstones.get spent with
    | none =>
      have hle := (sub_del s.refreshTombstones spent).size_le
      have hlt : ¬ s.maxTombstones ≤ s.refreshTombstones.size := fun hfull =>
        hroom ⟨by rw [hm]; rfl, hfull⟩
      omega
    | some m' =>
      rw [size_del hm]
      exact hsize

theorem mint (draws : MintDraws) (request : TokenRequest) (captured : Option RevocationEpochs)
    (current : String) :
    Compacted opts (s.createAccessAndRefreshTokens env draws now request captured current).2 := by
  have hfamily : Compacted opts (s.mintFamily env draws current).2 := by
    rw [mintFamily]
    split
    · exact h
    · rw [OIDCStore.claimRefresh]
      split
      · split
        · exact h
        · exact h.deletes (show Deletes env s _ from Deletes.refl.revokeFamily _)
      · exact (h.spend env _ _ _).deleteRefresh _
  rw [createAccessAndRefreshTokens]
  rcases hm : s.mintFamily env draws current with ⟨x, s₁⟩
  rw [hm] at hfamily
  cases x with
  | error e => exact hfamily
  | ok familyID =>
    dsimp only
    split
    · exact (hfamily.putAccess _ _).putRefresh _ _
    · exact hfamily

/-- A revocation moves the generations on and deletes. -/
theorem removeSelected (env : Env) (c u : String) (sel : OIDCStore.Selection) :
    Compacted opts ((s.bumpRevocationEpochsLocked c u).removeSelected env sel).2 := by
  have hdel : Deletes env (s.bumpRevocationEpochsLocked c u) _ := Deletes.refl.removeSelected sel
  exact (h.bump c u).deletes hdel

theorem revokeGrant (u c : String) : Compacted opts (s.revokeGrant env u c).2 := by
  rw [OIDCStore.revokeGrant]
  split
  · exact h
  · dsimp only
    exact h.removeSelected env c u _

theorem revokeTokens (f : TokenFilter) : Compacted opts (s.revokeTokens env f).2 := by
  exact h.removeSelected env _ _ _

end Compacted

/-! ## Steps and runs -/

theorem exec_compacted (h : Compacted opts sh.store) (hex : exec env op ω sh = some (r, sh')) :
    Compacted opts sh'.store := by
  cases exec_does hex with
  | idle hstore => rwa [hstore]
  | deletes hdel => exact h.deletes hdel
  | devices _ honly => exact h.onlyDevices honly
  | createAuthRequest req u => exact h.createAuthRequest _ req u
  | saveAuthCode id => exact h.saveAuthCode id _
  | storeDevice honly => exact h.onlyDevices honly
  | mint request captured current => exact h.mint _ request captured current
  | setAuthTime id t => exact h.setAuthTime id t
  | completeLogin id u scopes => exact h.completeLogin id u scopes
  | revokeGrant u c => exact h.revokeGrant u c
  | revokeTokens f => exact h.revokeTokens f

/-- **Kept**: what every run keeps of the indexes. -/
structure Kept (env : Env) (opts : OIDCOptions) (sh : Shared) : Prop where
  orderly : Orderly env sh.drawn sh.store
  coded : Coded env sh.drawn sh.store.waiting
  compacted : Compacted opts sh.store

theorem Kept.method {m : Method} (h : Kept env opts sh) (hex : m.exec env ω sh = some sh') :
    Kept env opts sh' := by
  have horderly := Method.orderly h.orderly hex
  obtain ⟨o, r, rfl, hr⟩ | rfl | ⟨request, id, -, rfl⟩ := Method.cases hex
  · exact ⟨horderly, exec_coded h.coded hr, exec_compacted h.compacted hr⟩
  · exact h
  · exact ⟨horderly, h.coded.mono fun v => mem_cons_of_mem id, h.compacted.putAccess _ _⟩

theorem Kept.run {run : List (Method × Choice)} (h : Kept env opts sh)
    (hrun : runAll env run sh = some sh') : Kept env opts sh' :=
  runAll_induct (I := Kept env opts) Kept.method h hrun

theorem kept_start (env : Env) {sh₀ : Shared} (hstart : sh₀.store = newOIDCStore opts) :
    Kept env opts sh₀ := by
  refine ⟨?_, ?_, ?_⟩ <;> rw [hstart]
  · exact orderly_newOIDCStore env opts sh₀.drawn
  · exact ⟨fun key k => ⟨nofun, nofun⟩, nofun, Nat.zero_le _⟩
  · exact compacted_newOIDCStore opts

theorem Kept.indexesExact (h : Kept env opts sh) : IndexesExact env sh.store where
  accessBySubject := h.orderly.issued.filed.access
  refreshBySubject := h.orderly.issued.filed.refresh
  requestBySubject := h.orderly.awaited.request
  codeByRequest := h.orderly.awaited.code
  refreshByIDHash h' k := by
    refine ⟨h.orderly.issued.filed.byIDHash h' k, ?_⟩
    rintro ⟨t, ht, rfl⟩
    exact h.orderly.issued.byIDHash k t ht
  userCodes := h.coded.userCode
  authRequestExpiry id := (h.orderly.awaited.deadline id).symm
  compact := ⟨h.compacted.access, h.compacted.refresh, h.compacted.request, h.compacted.code⟩

/-- **The indexes are exact** in every state the methods lead a new store to, and pending requests,
device authorizations and tombstones are within the bounds it was made with. -/
theorem indexes_exact {sh₀ : Shared} {run : List (Method × Choice)}
    (hstart : sh₀.store = newOIDCStore opts) (hrun : runAll env run sh₀ = some sh) :
    IndexesExact env sh.store ∧
      sh.store.authRequests.size ≤ (newOIDCStore opts).maxPendingAuthRequests ∧
      sh.store.devices.size ≤ (newOIDCStore opts).maxPendingDeviceAuthorizations ∧
      sh.store.refreshTombstones.size ≤ (newOIDCStore opts).maxTombstones := by
  have hkept := (kept_start env hstart).run hrun
  obtain ⟨hrequests, hlimits⟩ := Prod.ext_iff.1 hkept.compacted.limits
  obtain ⟨hdevices, htombstones⟩ := Prod.ext_iff.1 hlimits
  refine ⟨hkept.indexesExact, ?_, ?_, ?_⟩
  · exact Nat.le_trans hkept.compacted.requests (Nat.le_of_eq hrequests)
  · exact Nat.le_trans hkept.coded.bounded (Nat.le_of_eq hdevices)
  · exact Nat.le_trans hkept.compacted.tombstones (Nat.le_of_eq htombstones)

/-- A request whose code is saved, a device authorization and a pair that is rotated. -/
def busyRun : List (Method × Choice) :=
  [(.step (.createAuthRequest sweptParams "s"), yields ["id"]),
    (.step (.completeLogin "id" "t" ["openid"]), yields []),
    (.step (.saveAuthCode "id"), yields ["code"]),
    (.step (.storeDeviceAuthorization "c" 600 ["openid"]), yields ["device"]),
    (.step (.createAccessAndRefreshTokens ⟨"c", "s", ["openid"], [], [], 0, ""⟩ none ""),
      yields ["a", "r", "f"]),
    (.step (.createAccessAndRefreshTokens ⟨"c", "s", ["openid"], [], [], 0, ""⟩ none "r"),
      yields ["a'", "r'"])]

theorem indexes_exact_busy : ∃ sh, runAll sampleEnv busyRun sweepStart = some sh ∧
    sh.store.refreshTombstones.size = 1 ∧ IndexesExact sampleEnv sh.store := by
  have hsh : runAll sampleEnv busyRun sweepStart = some _ := rfl
  exact ⟨_, hsh, by decide, (indexes_exact rfl hsh).1⟩

end Re0Auth.Memory

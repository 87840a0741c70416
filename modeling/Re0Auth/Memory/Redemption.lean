import Re0Auth.Memory.Indexes

/-!
# Codes and device codes are redeemed once

An authorization request ends with the first `AuthRequestByCode` that answers with it, whichever of its
codes it was asked for, and a device authorization with the first poll that finds it approved, or with
its denial.

* **`NeverRedeemed`**, **`NeverApproved`**: what no run brings about again;
* **`RequestGone`**, **`Settled`**: the states a request and a device authorization do not leave;
* **`HandedOut`**: the call a device authorization comes from, with its client and its deadline;
* **`single_redemption`**.
-/

namespace Re0Auth.Memory

open Lib OAuth Oidc OIDCStore Dict List Option

/-- The state a device is told: the user approved, and nobody denied. -/
def approved (st : DeviceAuthorizationState) : Bool := st.done && !st.denied

/-- **Never redeemed**: whatever happens from here, no call answers with the request. -/
def NeverRedeemed (env : Env) (id : String) (sh : Shared) : Prop :=
  ∀ run sh', runAll env run sh = some sh' → ∀ code ω a e sh'',
    exec env (.authRequestByCode code) ω sh' = some (.ok (a, e), sh'') → a.id ≠ id

/-- **Never approved**: whatever happens from here, no poll for the device code finds it approved. -/
def NeverApproved (env : Env) (v : String) (sh : Shared) : Prop :=
  ∀ run sh', runAll env run sh = some sh' → ∀ c ω st e sh'',
    exec env (.getDeviceAuthorizatonState c v) ω sh' = some (.ok (st, e), sh'') → approved st = false

/-- **Handed out**: in a run from `sh₀`, client `c` was handed the device code `v`, for a deadline. -/
def HandedOut (env : Env) (sh₀ : Shared) (run : List (Method × Choice)) (c v : String) (deadline : Time) :
    Prop :=
  ∃ first l scopes ω rest sh sh' u,
    run = first ++ (.step (.storeDeviceAuthorization c l scopes), ω) :: rest ∧
    runAll env first sh₀ = some sh ∧
    exec env (.storeDeviceAuthorization c l scopes) ω sh = some (.ok (v, u), sh') ∧
    deadline = sh.now + l

variable {env : Env} {opts : OIDCOptions} {sh₀ sh sh' : Shared} {id v c : String} {ω : Choice}
  {run run' : List (Method × Choice)} {m : Method} {code : String}

theorem runAll_append (run run' : List (Method × Choice)) (sh : Shared) :
    runAll env (run ++ run') sh = (runAll env run sh).bind (runAll env run') := by
  induction run generalizing sh with
  | nil => rfl
  | cons mω run ih =>
    rw [cons_append, runAll, runAll, bind_assoc]
    exact bind_congr fun sh₁ _ => ih sh₁

variable (hkept : Kept env opts sh) (hex : m.exec env ω sh = some sh')

include hkept in
/-- **Run rule** beside what every run keeps. -/
theorem Kept.induct {I : Shared → Prop} (hstep : ∀ {m : Method} {ω sh sh'}, Kept env opts sh → I sh →
    m.exec env ω sh = some sh' → I sh') (h : I sh) (hrun : runAll env run sh = some sh') : I sh' :=
  (runAll_induct (I := fun sh => Kept env opts sh ∧ I sh) (fun h hex => ⟨h.1.method hex, hstep h.1 h.2 hex⟩)
    ⟨hkept, h⟩ hrun).2

include hex in
theorem Method.drawn (hv : v ∈ sh.drawn) : v ∈ sh'.drawn := by
  obtain ⟨o, r, rfl, hr⟩ | rfl | ⟨request, id, -, rfl⟩ := Method.cases hex
  · exact exec_drawn hr hv
  · exact hv
  · exact mem_cons_of_mem id hv

/-! ## Authorization requests -/

/-- **Gone**: the request was there and is gone. -/
def RequestGone (id : String) (sh : Shared) : Prop :=
  id ∈ sh.drawn ∧ sh.store.authRequests.get id = none

include hex in
theorem RequestGone.method (h : RequestGone id sh) : RequestGone id sh' := by
  refine ⟨Method.drawn hex h.1, ?_⟩
  obtain ⟨o, r, rfl, hr⟩ | rfl | ⟨request, id, -, rfl⟩ := Method.cases hex
  · obtain ⟨new, heffect, hadds⟩ := exec_adds hr
    refine eq_none_iff_forall_ne_some.2 fun a ha => ?_
    obtain ⟨b, hb, -⟩ | hnew := heffect.authRequests id a ha
    · exact absurd (h.2.symm.trans hb) nofun
    · -- only a new request appears, under an id that was not drawn
      obtain rfl | ⟨w, _, hw, rfl⟩ | ⟨w, _, -, -, rfl⟩ | ⟨w, _, -, -, rfl⟩ | ⟨_, _, _, -, _, w, rfl⟩ :=
        adds_cases hadds
      all_goals cases hnew
      exact hw.1 h.1
  · exact h.2
  · exact h.2

include hkept in
theorem RequestGone.neverRedeemed (h : RequestGone id sh) : NeverRedeemed env id sh := by
  intro run sh' hrun code ω a e sh'' hex hid
  have hkept' := hkept.run hrun
  have hended := hkept.induct (I := RequestGone id) (fun _ h hex => h.method hex) h hrun
  obtain ⟨c, -, ha, -⟩ := exec_sees hex
  rw [← hid, hkept'.orderly.awaited.named _ a ha] at hended
  exact absurd (hended.2.symm.trans ha) nofun

theorem answer_onStore {α : Type} {x : Except Err α × OIDCStore} {r : Except Err α}
    (h : some (sh.onStore x) = some (r, sh')) : x.1 = r ∧ sh' = { sh with store := x.2 } := by
  cases h
  exact ⟨rfl, rfl⟩

include hkept in
/-- A call that answers with a request ends it. -/
theorem ended_of_redeemed {a : AuthRequest}
    {e : RevocationEpochs} (hex : exec env (.authRequestByCode code) ω sh = some (.ok (a, e), sh')) :
    RequestGone a.id sh' := by
  obtain ⟨hok, rfl⟩ := answer_onStore hex
  rw [authRequestByCode] at hok ⊢
  split at hok
  · cases hok
  · split at hok
    · cases hok
    · rename_i a' ha
      cases hok
      dsimp only
      rw [hkept.orderly.awaited.named _ a ha]
      refine ⟨hkept.orderly.awaited.drawn _ a ha, ?_⟩
      show (deleteRequestLocked _ _).authRequests.get _ = none
      rw [deleteRequestLocked]
      split
      · assumption
      · exact get_del_self _ _

/-! ## Device authorizations -/

/-- **Settled**: the device authorization was there, and is gone or denied. -/
def Settled (env : Env) (v : String) (sh : Shared) : Prop :=
  v ∈ sh.drawn ∧ ∀ d, sh.store.devices.get (env.tokenHash v) = some d → d.denied = true

include hkept hex in
/-- A pending authorization was there before the method, or the method has begun it under a device code
that was not drawn before. -/
theorem Method.earlier {k : String} {d' : DeviceRecord} (hd' : sh'.store.devices.get k = some d') :
    (∃ d, sh.store.devices.get k = some d ∧ d.Later d') ∨
      ∃ c l scopes v u, m = .step (.storeDeviceAuthorization c l scopes) ∧
        Memory.exec env (.storeDeviceAuthorization c l scopes) ω sh = some (.ok (v, u), sh') ∧ v ∉ sh.drawn ∧
        k = env.tokenHash v ∧ d' = .started (env.tokenHash v) u c scopes (sh.now + l) := by
  obtain ⟨o, r, rfl, hr⟩ | rfl | ⟨request, id, -, rfl⟩ := Method.cases hex
  · cases exec_evolves hkept.coded hr with
    | moves hmoves => exact .inl (hmoves.earlier hd')
    | starts hw _ hstarts =>
      obtain ⟨D₁, hmoves, -, -, heq⟩ := hstarts
      rw [show sh'.store.devices = _ from congrArg DeviceTables.devices heq] at hd'
      obtain hd' | ⟨hk, hnew⟩ := get_of_get_set hd'
      · exact .inl (hmoves.earlier hd')
      · exact .inr ⟨_, _, _, _, _, rfl, hr, hw, hk, hnew⟩
  all_goals exact .inl ⟨d', hd', .refl d'⟩

include hkept hex in
theorem Settled.method (h : Settled env v sh) : Settled env v sh' := by
  refine ⟨Method.drawn hex h.1, fun d' hd' => ?_⟩
  obtain ⟨d, hd, hlater⟩ | ⟨_, _, _, w, _, -, -, hw, hv, -⟩ := Method.earlier hkept hex hd'
  · exact hlater.denied (h.2 d hd)
  · exact absurd (env.tokenHash_injective hv ▸ h.1) hw

/-- What a poll that finds an approval has read, and what it leaves. -/
theorem poll_approved {st : DeviceAuthorizationState} {e : Option RevocationEpochs}
    (hex : exec env (.getDeviceAuthorizatonState c v) ω sh = some (.ok (st, e), sh'))
    (happroved : approved st = true) :
    ∃ d, sh.store.devices.get (env.tokenHash v) = some d ∧ d.denied = false ∧ d.clientID = c ∧
      sh.now < d.expiresAt ∧ sh'.drawn = sh.drawn ∧
      sh'.store.devices.get (env.tokenHash v) = none := by
  obtain ⟨hok, rfl⟩ := answer_onStore hex
  rw [getDeviceAuthorizatonState] at hok ⊢
  split at hok
  · cases hok
  · rename_i d hfound
    obtain ⟨hd, hclient⟩ := filter_eq_some_iff.1 hfound
    split_ifs at hok ⊢ with hslow hdone hdeadline
    · cases hok
      obtain ⟨-, hdenied⟩ : d.done = true ∧ d.denied = false := by simpa using hdone
      exact ⟨d, hd, hdenied, of_decide_eq_true hclient, hdeadline, rfl, get_del_self _ _⟩
    · cases hok
      cases happroved
    · cases hok
      exact absurd happroved hdone

include hkept in
theorem Settled.neverApproved (h : Settled env v sh) : NeverApproved env v sh := by
  intro run sh' hrun c ω st e sh'' hex
  have hsettled := hkept.induct (I := Settled env v) (fun hk h hex => h.method hk hex) h hrun
  refine eq_false_of_ne_true fun happroved => ?_
  obtain ⟨d, hd, hdenied, -⟩ := poll_approved hex happroved
  exact absurd ((hsettled.2 d hd).symm.trans hdenied) nofun

theorem Coded.mem_of_device {drawn : List String} {D : DeviceTables} {d : DeviceRecord}
    (h : Coded env drawn D) (hd : D.devices.get (env.tokenHash v) = some d) : v ∈ drawn := by
  obtain ⟨w, hw, heq⟩ := h.drawn _ d hd
  exact env.tokenHash_injective heq ▸ hw

include hkept in
theorem settled_of_denied
    (hex : exec env (.denyDevice code) ω sh = some (.ok (), sh'))
    (hcode : sh.store.userCodes.get (normalizeUserCode env code) = some (env.tokenHash v)) :
    Settled env v sh' := by
  obtain ⟨hok, rfl⟩ := answer_onStore hex
  obtain ⟨d, hd, -⟩ := (hkept.coded.userCode _ _).1 hcode
  refine ⟨hkept.coded.mem_of_device hd, fun d' hd' => ?_⟩
  rw [denyDevice] at hok hd'
  simp only [hcode] at hok hd'
  split at hok
  · cases hok
  · rename_i hdenied
    rw [if_neg hdenied] at hd'
    obtain rfl : _ = d' := some.inj ((get_set_self _ _ _).symm.trans hd')
    rfl

/-! ## Where a device authorization comes from -/

/-- Every pending device authorization was begun, by its client and for its deadline. -/
def Traced (env : Env) (sh₀ : Shared) (run : List (Method × Choice)) (sh : Shared) : Prop :=
  ∀ k d, sh.store.devices.get k = some d →
    ∃ v, env.tokenHash v = k ∧ HandedOut env sh₀ run d.clientID v d.expiresAt

theorem HandedOut.append {deadline : Time} (h : HandedOut env sh₀ run c v deadline) :
    HandedOut env sh₀ (run ++ run') c v deadline := by
  obtain ⟨first, l, scopes, ω, rest, sh, sh', u, rfl, hrest⟩ := h
  exact ⟨first, l, scopes, ω, rest ++ run', sh, sh', u, by simp, hrest⟩

include hkept hex in
theorem Traced.method (hrun : runAll env run sh₀ = some sh)
    (h : Traced env sh₀ run sh) :
    Traced env sh₀ (run ++ [(m, ω)]) sh' := by
  intro k d' hd'
  obtain ⟨d, hd, hlater⟩ | ⟨c, l, scopes, v, u, rfl, hr, -, rfl, rfl⟩ := Method.earlier hkept hex hd'
  · -- a record that was there is the same authorization
    obtain ⟨v, hv, hbegun⟩ := h k d hd
    rw [hlater.clientID, hlater.expiresAt]
    exact ⟨v, hv, hbegun.append⟩
  · exact ⟨_, rfl, run, _, _, ω, [], sh, sh', _, rfl, hrun, hr, rfl⟩

include hkept in
theorem traced_run (hrun : runAll env run sh₀ = some sh)
    (h : Traced env sh₀ run sh) (hrun' : runAll env run' sh = some sh') :
    Traced env sh₀ (run ++ run') sh' := by
  induction run' generalizing run sh with
  | nil =>
    cases hrun'
    rwa [append_nil]
  | cons mω run' ih =>
    obtain ⟨sh₁, hex, hrest⟩ := bind_eq_some_iff.1 hrun'
    have hrun₁ : runAll env (run ++ [mω]) sh₀ = some sh₁ := by
      rw [runAll_append, hrun, bind_some, runAll, hex]
      rfl
    rw [← singleton_append, ← append_assoc]
    exact ih (hkept.method hex) hrun₁ (h.method hkept hex hrun) hrest

/-! ## The result -/

/-- **Redemption happens once.** After any methods on a new store: a call that answers with an
authorization request is the last one to; a poll that finds a device authorization approved is the last
one to, was made by the client it was begun by, and before its deadline; and a device authorization that
was denied is never found approved. -/
theorem single_redemption (hstart : sh₀.store = newOIDCStore opts) (hrun : runAll env run sh₀ = some sh) :
    (∀ code ω a e sh', exec env (.authRequestByCode code) ω sh = some (.ok (a, e), sh') →
      NeverRedeemed env a.id sh') ∧
    (∀ c v ω st e sh', exec env (.getDeviceAuthorizatonState c v) ω sh = some (.ok (st, e), sh') →
      approved st = true →
      (∃ deadline, HandedOut env sh₀ run c v deadline ∧ sh.now < deadline) ∧ NeverApproved env v sh') ∧
    (∀ code v ω sh', exec env (.denyDevice code) ω sh = some (.ok (), sh') →
      sh.store.userCodes.get (normalizeUserCode env code) = some (env.tokenHash v) →
      NeverApproved env v sh') := by
  have hkept₀ := kept_start env hstart
  have hkept := hkept₀.run hrun
  have hexec : ∀ {op : Op} {ω r sh'}, exec env op ω sh = some (r, sh') → Kept env opts sh' := by
    intro op ω r sh' hex
    exact hkept.method (m := .step op) (ω := ω) (by rw [Method.exec, hex, map_some])
  refine ⟨fun code ω a e sh' hex => ?_, fun c v ω st e sh' hex happroved => ?_,
    fun code v ω sh' hex hcode => ?_⟩
  · exact (ended_of_redeemed hkept hex).neverRedeemed (hexec hex)
  · obtain ⟨d, hd, -, rfl, hdeadline, hdrawn, hgone⟩ := poll_approved hex happroved
    have htraced : Traced env sh₀ ([] ++ run) sh := by
      refine traced_run hkept₀ rfl (fun k d hd => ?_) hrun
      rw [hstart] at hd
      cases hd
    obtain ⟨w, hw, hbegun⟩ := htraced _ d hd
    have hsettled : Settled env v sh' := by
      refine ⟨hdrawn ▸ hkept.coded.mem_of_device hd, fun d' hd' => ?_⟩
      cases hgone.symm.trans hd'
    exact ⟨⟨d.expiresAt, env.tokenHash_injective hw ▸ hbegun, hdeadline⟩, hsettled.neverApproved (hexec hex)⟩
  · exact (settled_of_denied hkept hex hcode).neverApproved (hexec hex)

/-- A device authorization is begun and approved, and polled for. -/
def approvedDevice : List (Method × Choice) :=
  [(.step (.storeDeviceAuthorization "c" 600 ["openid"]), yields ["device"]),
    (.step (.approveDevice "ABCD" "s" ["openid"]), yields [])]

theorem single_redemption_polled : ∃ sh sh' st e, runAll sampleEnv approvedDevice sweepStart = some sh ∧
    exec sampleEnv (.getDeviceAuthorizatonState "c" "device") (yields []) sh = some (.ok (st, e), sh') ∧
    approved st = true ∧ NeverApproved sampleEnv "device" sh' := by
  have hsh : runAll sampleEnv approvedDevice sweepStart = some _ := rfl
  have hsingle := (single_redemption rfl hsh).2.1 "c" "device" (yields []) _ _ _ rfl rfl
  exact ⟨_, _, _, _, hsh, rfl, rfl, hsingle.2⟩

end Re0Auth.Memory

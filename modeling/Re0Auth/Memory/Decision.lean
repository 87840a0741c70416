import Re0Auth.Memory.Redemption

/-!
# Decisions on device authorizations

`DecideDeviceAuthorization` looks the request up by its user code, judges the scopes of what it has found,
and writes its approval by the user code again. A user code is short and may be given out again once the
request that had it is gone or past its deadline.

* **`decideScopes`**: the part of the method between the two;
* **`Meant`**: the records under the user code are the request that was looked up;
* **`decision_lands`**: as long as the user code is not given out again, an approval lands on the request it
  was made for.
-/

namespace Re0Auth.Memory

open Lib OAuth Oidc List Option

/-! ## The scopes of a decision -/

/-- `StandardOIDCScope`. -/
def standardOIDCScope (scope : String) : Bool :=
  ["openid", "profile", "email", "phone", "address", scopeOfflineAccess].contains scope

/-- `NarrowScopes`. -/
def narrowScopes (requested : List String) : Option (List Scope) → Except Error (List String)
  | none => .ok requested
  | some approved =>
    if approved = [] then .error (.protocol "invalid_request"
      "an approval must grant at least one scope; omit the field to grant the requested scopes")
    else if approved.all requested.contains then .ok approved
    else .error (.protocol "invalid_scope" "the decision cannot widen the requested scope")

/-- A list with a scope appended that is not there. -/
def withScope (scopes : List String) (scope : String) : List String :=
  if scopes.contains scope then scopes else scopes ++ [scope]

/-- The scopes `DecideDeviceAuthorization` approves, from what it has looked up. -/
def decideScopes (env : Env) (registry : Registry) (st : DeviceAuthorizationState)
    (scopes : Option (List Scope)) (explicit : List Scope) : Except Error (List String) :=
  match narrowScopes st.scopes scopes with
  | .error e => .error e
  | .ok granted =>
    let granted := (st.scopes.filter standardOIDCScope).foldl withScope granted
    match resolve env registry (granted.filter (!standardOIDCScope ·)) st.clientID with
    | .error text => .error (.other text)
    | .ok descriptors =>
      match checkExplicit descriptors explicit with
      | .error e => .error e
      | .ok () => .ok (withScope granted scopeOfflineAccess)

variable {env : Env} {registry : Registry} {st : DeviceAuthorizationState} {granted : List String}
  {opts : OIDCOptions} {sh₀ sh₁ sh₂ sh₃ sh sh' : Shared} {m : Method} {ω : Choice}
  {v key code u : String} {d₁ : DeviceRecord} {first middle : List (Method × Choice)}

theorem subset_withScope {scopes requested : List String} {scope : String} (h : scopes ⊆ requested)
    (hs : scope ∈ requested) : withScope scopes scope ⊆ requested := by
  rw [withScope]
  split
  · exact h
  · exact append_subset.2 ⟨h, cons_subset.2 ⟨hs, nil_subset _⟩⟩

theorem subset_foldl {scopes requested more : List String} (h : scopes ⊆ requested) (hmore : more ⊆ requested) :
    more.foldl withScope scopes ⊆ requested := by
  induction more generalizing scopes with
  | nil => exact h
  | cons s more ih =>
    obtain ⟨hs, hmore⟩ := cons_subset.1 hmore
    exact ih (subset_withScope h hs) hmore

/-- What is approved was requested, or is `offline_access`. -/
theorem decideScopes_subset {scopes : Option (List Scope)} {explicit : List Scope}
    (h : decideScopes env registry st scopes explicit = .ok granted) :
    granted ⊆ st.scopes ++ [scopeOfflineAccess] := by
  rw [decideScopes] at h
  split at h
  · cases h
  rename_i g hg
  have hnarrow : g ⊆ st.scopes := by
    cases scopes with
    | none =>
      cases hg
      exact Subset.refl _
    | some approved =>
      rw [narrowScopes] at hg
      split_ifs at hg with _ hall
      cases hg
      exact fun s hs => contains_iff_mem.1 (all_eq_true.1 hall s hs)
  dsimp only at h
  split at h
  · cases h
  split at h <;> cases h
  have hleft := subset_append_left st.scopes [scopeOfflineAccess]
  exact subset_withScope (subset_foldl (Subset.trans hnarrow hleft)
    (Subset.trans (filter_subset_self _) hleft)) (by simp)

/-! ## The request that is meant -/

/-- **Meant**: whatever has the user code is the request with this device code, later. -/
def Meant (env : Env) (key v : String) (d₁ : DeviceRecord) (sh : Shared) : Prop :=
  v ∈ sh.drawn ∧ ∀ k d, sh.store.devices.get k = some d → normalizeUserCode env d.userCode = key →
    k = env.tokenHash v ∧ d₁.Later d

/-- The method does not give the user code out. -/
def Elsewhere (env : Env) (key : String) : Method × Choice → Prop
  | (.step (.storeDeviceAuthorization _ _ _), ω) => normalizeUserCode env ω.userCode ≠ key
  | _ => True

theorem userCode_of_stored {c w : String} {l : Duration} {scopes : List String}
    (hex : exec env (.storeDeviceAuthorization c l scopes) ω sh = some (.ok (w, u), sh')) : u = ω.userCode := by
  rw [exec] at hex
  obtain ⟨he, -⟩ | ⟨vs, -, -, -, hex⟩ := drawing_cases hex
  · cases he
  · have hok := congrArg Prod.fst hex
    dsimp only [Shared.onStore] at hok
    rw [Except.map.eq_def] at hok
    split at hok <;> cases hok
    rfl

theorem Meant.method (hkept : Kept env opts sh) (h : Meant env key v d₁ sh) (hm : Elsewhere env key (m, ω))
    (hex : m.exec env ω sh = some sh') : Meant env key v d₁ sh' := by
  refine ⟨Method.drawn hex h.1, fun k d' hd' hkey => ?_⟩
  obtain ⟨d, hd, hlater⟩ | ⟨_, _, _, _, _, rfl, hr, -, -, rfl⟩ := Method.earlier hkept hex hd'
  · obtain ⟨hk, hlater₁⟩ := h.2 k d hd (hlater.userCode ▸ hkey)
    exact ⟨hk, hlater₁.trans hlater⟩
  · exact absurd (userCode_of_stored hr ▸ hkey) hm

theorem Meant.run (hkept : Kept env opts sh) (h : Meant env key v d₁ sh)
    (hmiddle : ∀ x ∈ middle, Elsewhere env key x) (hrun : runAll env middle sh = some sh') :
    Meant env key v d₁ sh' := by
  induction middle generalizing sh with
  | nil =>
    cases hrun
    exact h
  | cons mω middle ih =>
    obtain ⟨sh₁, hex, hrest⟩ := bind_eq_some_iff.1 hrun
    obtain ⟨hm, hmiddle⟩ := forall_mem_cons.1 hmiddle
    exact ih (hkept.method hex) (h.method hkept hm hex) hmiddle hrest

/-- **A decision lands on the request it was made for.** Between the look-up and the approval any methods run,
of which none gives the user code out again: the approval is then written to the record that was looked up,
which has the client and the scopes it was judged by, and what it is approved for was requested or is
`offline_access`. -/
theorem decision_lands {scopes : Option (List Scope)} {explicit : List Scope}
    (hstart : sh₀.store = newOIDCStore opts) (hfirst : runAll env first sh₀ = some sh₁)
    (hlook : sh₁.store.deviceByUserCode env code = .ok st) (hmiddle : runAll env middle sh₁ = some sh₂)
    (helse : ∀ x ∈ middle, Elsewhere env (normalizeUserCode env code) x)
    (hdecide : decideScopes env registry st scopes explicit = .ok granted)
    (happrove : exec env (.approveDevice code u granted) ω sh₂ = some (.ok (), sh₃)) :
    ∃ k d d', sh₁.store.userCodes.get (normalizeUserCode env code) = some k ∧
      sh₁.store.devices.get k = some d ∧ d.state = st ∧
      sh₂.store.devices.get k = some d' ∧ d'.done = false ∧ d'.clientID = st.clientID ∧ d'.scopes = st.scopes ∧
      sh₃.store.devices = sh₂.store.devices.set k
        { d' with done := true, subject := u, authTime := sh₂.now, scopes := granted } ∧
      granted ⊆ d'.scopes ++ [scopeOfflineAccess] := by
  have hkept := (kept_start env hstart).run hfirst
  have hkept₂ := hkept.run hmiddle
  rw [OIDCStore.deviceByUserCode] at hlook
  split at hlook
  · cases hlook
  rename_i d hd
  cases hlook
  obtain ⟨k, hk, hd⟩ := bind_eq_some_iff.1 hd
  obtain ⟨v, hv, rfl⟩ := hkept.coded.drawn k d hd
  have hmeant : Meant env (normalizeUserCode env code) v d sh₁ := by
    refine ⟨hv, fun k' d' hd' hkey => ?_⟩
    obtain rfl := some.inj (((hkept.coded.userCode _ k').2 ⟨d', hd', hkey⟩).symm.trans hk)
    obtain rfl := some.inj (hd'.symm.trans hd)
    exact ⟨rfl, .refl d'⟩
  obtain ⟨-, hmeant⟩ := hmeant.run hkept helse hmiddle
  obtain ⟨hok, rfl⟩ := answer_onStore happrove
  rw [OIDCStore.approveDevice] at hok ⊢
  split at hok
  · cases hok
  rename_i k' hk'
  obtain ⟨d', hd', hkey⟩ := (hkept₂.coded.userCode _ k').1 hk'
  obtain ⟨rfl, hlater⟩ := hmeant k' d' hd' hkey
  rw [show sh₂.store.devices.get _ = some d' from hd', getD_some] at hok ⊢
  dsimp only at hok ⊢
  split_ifs at hok ⊢ with hrefused
  obtain ⟨hdone, -⟩ : d'.done = false ∧ _ := by simpa [and_assoc] using hrefused
  have hscopes := (hlater.pending hdone).2
  exact ⟨_, d, d', hk, hd, rfl, hd', hdone, hlater.clientID, hscopes, rfl,
    hscopes ▸ decideScopes_subset hdecide⟩

/-- A device authorization for two scopes is begun. -/
def twoScopes : List (Method × Choice) :=
  [(.step (.storeDeviceAuthorization "c" 600 ["openid", "email"]), yields ["device"])]

theorem decision_lands_later : ∃ sh₁ sh₂ k d', runAll sampleEnv twoScopes sweepStart = some sh₁ ∧
    runAll sampleEnv [(.step (.advanceClock 500), yields [])] sh₁ = some sh₂ ∧
    sh₂.store.devices.get k = some d' ∧ ["openid", "email", scopeOfflineAccess] ⊆ d'.scopes ++ [scopeOfflineAccess] := by
  obtain ⟨sh₁, sh₂, sh₃, st, hfirst, hlook, hdecide, hmiddle, happrove⟩ : ∃ sh₁ sh₂ sh₃ st,
      runAll sampleEnv twoScopes sweepStart = some sh₁ ∧ sh₁.store.deviceByUserCode sampleEnv "ABCD" = .ok st ∧
      decideScopes sampleEnv ∅ st (some ["openid"]) [] = .ok ["openid", "email", scopeOfflineAccess] ∧
      runAll sampleEnv [(.step (.advanceClock 500), yields [])] sh₁ = some sh₂ ∧
      exec sampleEnv (.approveDevice "ABCD" "s" ["openid", "email", scopeOfflineAccess]) (yields []) sh₂ =
        some (.ok (), sh₃) := ⟨_, _, _, _, rfl, rfl, rfl, rfl, rfl⟩
  obtain ⟨k, -, d', -, -, -, hd', -, -, -, -, hsubset⟩ :=
    decision_lands rfl hfirst hlook hmiddle (by simp [Elsewhere]) hdecide happrove
  exact ⟨sh₁, sh₂, k, d', hfirst, hmiddle, hd', hsubset⟩

/-- **A decision that lands elsewhere**: the request that was looked up runs out, its user code is given out to
another client, and that client's request is approved for a scope it did not ask for. -/
theorem decision_misplaced : ∃ sh₁ sh₂ sh₃ st granted d, runAll sampleEnv twoScopes sweepStart = some sh₁ ∧
    sh₁.store.deviceByUserCode sampleEnv "ABCD" = .ok st ∧ st.clientID = "c" ∧
    decideScopes sampleEnv ∅ st none [] = .ok granted ∧
    runAll sampleEnv [(.step (.advanceClock 700), yields []),
      (.step (.storeDeviceAuthorization "d" 600 ["openid"]), yields ["other"])] sh₁ = some sh₂ ∧
    exec sampleEnv (.approveDevice "ABCD" "s" granted) (yields []) sh₂ = some (.ok (), sh₃) ∧
    sh₃.store.devices.get (sampleEnv.tokenHash "other") = some d ∧ d.clientID = "d" ∧ d.done = true ∧
    "email" ∈ d.scopes :=
  ⟨_, _, _, _, _, _, rfl, rfl, rfl, rfl, rfl, rfl, rfl, rfl, rfl, by decide⟩

end Re0Auth.Memory

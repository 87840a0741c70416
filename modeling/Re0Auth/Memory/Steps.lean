import Re0Auth.Memory.Provider

/-!
# What one step of the provider does

* **`Adds`**: the records a step adds, and **`Sees`**: what its answer says about the store;
* **`exec_adds`**, **`exec_sees`**: the two hold of every step. Everything that is proved about runs is
  proved from these, never from the methods.
-/

namespace Re0Auth.Memory

open Lib OAuth Oidc OIDCStore Dict List Option MemoryClientRegistry

variable {env : Env}

/-- **Adds**: the records step `op` with answer `r` adds. A new request, code or device code is named by a
value that was drawn for it; a mint has found the generations it was given. -/
def Adds (env : Env) (sh sh' : Shared) : (op : Op) → Except Err op.Answer → Additions → Prop
  | .createAuthRequest req _, _, new => new = {} ∨ ∃ v, v ∉ sh.drawn ∧ v ∈ sh'.drawn ∧
    new = { request := some (v, req.clientID) }
  | .saveAuthCode id, _, new => new = {} ∨ ∃ v, v ∉ sh.drawn ∧ v ∈ sh'.drawn ∧
    new = { code := some (env.tokenHash v, id) }
  | .storeDeviceAuthorization c _ _, _, new => new = {} ∨ ∃ v, v ∉ sh.drawn ∧ v ∈ sh'.drawn ∧
    new = { device := some (env.tokenHash v, c) }
  | .createAccessAndRefreshTokens request captured _, .ok (accessID, value, _), new =>
    (accessID ∉ sh.drawn ∧ value ∉ sh.drawn) ∧ (accessID ∈ sh'.drawn ∧ value ∈ sh'.drawn) ∧
      revocationUnchanged captured
        (sh.store.revocationEpochsLocked request.clientID request.subject) = true ∧
      new =
        { access := some (env.tokenHash accessID, request.clientID, request.subject)
          refresh := some (env.tokenHash value, request.clientID, request.subject) }
  | _, _, new => new = {}

/-- **Sees**: what the answer of a step says. -/
def Sees (env : Env) (sh sh' : Shared) : (op : Op) → Except Err op.Answer → Prop
  | .getClientByClientID id, .ok _ =>
    ∃ c, Dict.get sh.clients id = some c ∧ c.status ≠ .suspended
  | .setStatus id .suspended, .ok _ => ∀ c, Dict.get sh'.clients id = some c → c.status = .suspended
  | .removeClient id, .ok _ => Dict.get sh'.clients id = none
  | .authRequestByID id, .ok _ => ∃ a, sh.store.authRequests.get id = some a
  | .authRequestByCode v, .ok (a, e) => ∃ c, sh.store.codes.get (env.tokenHash v) = some c ∧
    sh.store.authRequests.get c.requestID = some a ∧
    e = sh.store.revocationEpochsLocked a.clientID a.subject
  | .tokenRequestByRefreshToken v, .ok (r, e) => ∃ t, sh.store.refreshTokens.get (env.tokenHash v) = some t ∧
    r = t.request ∧ e = sh.store.revocationEpochsLocked t.clientID t.subject
  | .getDeviceAuthorizatonState c v, .ok (st, e) => (st.done && !st.denied) = true →
    ∃ d, sh.store.devices.get (env.tokenHash v) = some d ∧ d.denied = false ∧ d.clientID = c ∧
      st.clientID = c ∧ st.subject = d.subject ∧
      e = some (sh.store.revocationEpochsLocked c d.subject)
  | _, _ => True

/-- The clients a step leaves active were active, unless it activates or registers one. -/
def Reopens (c : String) : Op → Prop
  | .createClient cl => cl.id = c
  | .setStatus id .active => id = c
  | _ => False

/-- The client cannot be looked up. -/
def Closed (c : String) (clients : MemoryClientRegistry) : Prop :=
  ∀ cl, Dict.get clients c = some cl → cl.status = .suspended

/-- The steps on a device authorization that is there. -/
def Op.answersDevice : Op → Bool
  | .getDeviceAuthorizatonState _ _ | .approveDevice _ _ _ | .denyDevice _ => true
  | _ => false

/-- **What a step does** to the tables and to what has been drawn. -/
inductive Does (env : Env) (sh : Shared) : Op → Shared → Prop
  /-- A read, a step on the registry or of the clock, or one whose random source fails. -/
  | idle {op sh'} (hstore : sh'.store = sh.store) (hdrawn : sh'.drawn = sh.drawn) (hnow : sh.now ≤ sh'.now) :
    Does env sh op sh'
  | deletes {op s'} (h : Deletes env sh.store s') : Does env sh op { sh with store := s' }
  | devices {op : Op} {s'} (hop : op.answersDevice = true) (h : OnlyDevices sh.store s') :
    Does env sh op { sh with store := s' }
  | createAuthRequest (req u v) (hv : v ∉ sh.drawn) : Does env sh (.createAuthRequest req u)
      { sh with drawn := v :: sh.drawn, store := (sh.store.createAuthRequest sh.now v req u).2 }
  | saveAuthCode (id v) : Does env sh (.saveAuthCode id)
      { sh with drawn := v :: sh.drawn, store := sh.store.saveAuthCode env sh.now id v }
  | storeDevice {c l scopes v s'} (h : OnlyDevices sh.store s') : Does env sh (.storeDeviceAuthorization c l scopes)
      { sh with drawn := v :: sh.drawn, store := s' }
  | mint (request captured current) {vs} {d : MintDraws} (hid : d.accessID ∉ sh.drawn ∧ d.accessID ∈ vs ++ sh.drawn)
      (hvalue : d.value ∉ sh.drawn ∧ d.value ∈ vs ++ sh.drawn) :
    Does env sh (.createAccessAndRefreshTokens request captured current)
      { sh with
        drawn := vs ++ sh.drawn
        store := (sh.store.createAccessAndRefreshTokens env d sh.now request captured current).2 }
  | setAuthTime (id t) : Does env sh (.setAuthTime id t) { sh with store := (sh.store.setAuthTime id t).2 }
  | completeLogin (id u scopes) : Does env sh (.completeLogin id u scopes)
      { sh with store := (sh.store.completeLogin sh.now id u scopes).2 }
  | revokeGrant (u c) : Does env sh (.revokeGrant u c) { sh with store := (sh.store.revokeGrant env u c).2 }
  | revokeTokens (f) : Does env sh (.revokeTokens f) { sh with store := (sh.store.revokeTokens env f).2 }

section Exec

variable {op : Op} {ω : Choice} {sh sh' : Shared} {r : Except Err op.Answer} {α : Type}
  {x : Except OAuth.Error MemoryClientRegistry} {now : Time} {v c id : String} {s : OIDCStore}
  {e : RevocationEpochs} {clients : MemoryClientRegistry} {new : Additions}

/-- What a drawing step comes down to. -/
theorem drawing_cases {n : ℕ} {k : List String → Shared → Except Err α × Shared}
    {r : Except Err α} (h : sh.drawing ω n k = some (r, sh')) :
    (r = .error .random ∧ sh' = sh) ∨ ∃ vs, ω.values = some vs ∧ vs.length = n ∧ sh.Fresh vs ∧
        k vs { sh with drawn := vs ++ sh.drawn } = (r, sh') := by
  rw [Shared.drawing] at h
  split at h
  · cases h
    exact .inl ⟨rfl, rfl⟩
  · rename_i vs hvalues
    split_ifs at h with hfresh
    exact .inr ⟨vs, hvalues, hfresh.1, hfresh.2, some.inj h⟩

/-- The same for a step that draws one value. -/
theorem drawing_one {k : List String → Shared → Except Err α × Shared} {r : Except Err α}
    (h : sh.drawing ω 1 k = some (r, sh')) :
    (r = .error .random ∧ sh' = sh) ∨ ∃ v, v ∉ sh.drawn ∧ k [v] { sh with drawn := v :: sh.drawn } = (r, sh') := by
  refine (drawing_cases h).imp_right ?_
  rintro ⟨vs, -, hlen, hfresh, h⟩
  obtain ⟨v, rfl⟩ := length_eq_one_iff.1 hlen
  exact ⟨v, hfresh.2 v mem_cons_self, h⟩

/-- The id and the value of a mint are new. -/
theorem mint_drawn {vs : List String} {current : String} (hlen : vs.length = if current = "" then 3 else 2)
    (hfresh : sh.Fresh vs) :
    ((ω.mintDraws vs).accessID ∉ sh.drawn ∧ (ω.mintDraws vs).accessID ∈ vs ++ sh.drawn) ∧
      (ω.mintDraws vs).value ∉ sh.drawn ∧ (ω.mintDraws vs).value ∈ vs ++ sh.drawn := by
  rcases vs with - | ⟨id, - | ⟨v, rest⟩⟩
  · split_ifs at hlen
  · split_ifs at hlen <;> cases hlen
  · exact ⟨⟨hfresh.2 id mem_cons_self, mem_cons_self⟩, hfresh.2 v (mem_cons_of_mem _ mem_cons_self),
      mem_cons_of_mem _ mem_cons_self⟩

theorem shared_onStore {x : Except Err α × OIDCStore} {r : Except Err α}
    (h : some (sh.onStore x) = some (r, sh')) : sh' = { sh with store := x.2 } := by
  cases h
  rfl

theorem shared_counted {x : ℕ × OIDCStore} {r : Except Err ℕ}
    (h : some (sh.onStore (counted x)) = some (r, sh')) : sh' = { sh with store := x.2 } := by
  cases h
  rfl

theorem shared_onClients {r : Except Err Unit}
    (h : some (sh.onClients x) = some (r, sh')) : ∃ clients, sh' = { sh with clients := clients } := by
  cases x with
  | error e =>
    cases h
    exact ⟨_, rfl⟩
  | ok clients =>
    cases h
    exact ⟨clients, rfl⟩

theorem store_onStore {x : Except Err α × OIDCStore} {r : Except Err α}
    (h : some (sh.onStore x) = some (r, sh')) : sh'.store = x.2 := by
  rw [shared_onStore h]

/-- A step that adds nothing. -/
theorem adds_nothing {x : Except Err α × OIDCStore} {r : Except Err α}
    (h : some (sh.onStore x) = some (r, sh')) (heffect : Effect {} sh.store x.2) :
    Effect {} sh.store sh'.store := by
  cases h
  exact heffect

/-- The steps that delete records and do nothing else. -/
def Op.deletes : Op → Bool
  | .authRequestByCode _ | .deleteAuthRequest _ | .tokenRequestByRefreshToken _ | .terminateSession _ _
  | .revokeToken _ _ | .sweepExpired | .purgeSubject _ => true
  | _ => false

variable (h : exec env op ω sh = some (r, sh'))

include h in
theorem exec_deletes (hop : op.deletes = true) :
    ∃ s', sh' = { sh with store := s' } ∧ Deletes env sh.store s' := by
  cases op with
  | authRequestByCode v =>
    cases h
    exact ⟨_, rfl, .authRequestByCode v⟩
  | deleteAuthRequest id =>
    cases h
    exact ⟨_, rfl, .deleteAuthRequest id⟩
  | tokenRequestByRefreshToken v =>
    cases h
    exact ⟨_, rfl, .tokenRequestByRefreshToken v⟩
  | terminateSession u c =>
    cases h
    exact ⟨_, rfl, .terminateSession u c⟩
  | revokeToken t c =>
    cases h
    exact ⟨_, rfl, .revokeToken t c⟩
  | sweepExpired => exact ⟨_, shared_counted h, .sweepExpired⟩
  | purgeSubject u =>
    cases h
    exact ⟨_, rfl, .purgeSubject u⟩
  | _ => cases hop

include h in
theorem exec_answersDevice (hop : op.answersDevice = true) :
    ∃ s', sh' = { sh with store := s' } ∧ OnlyDevices sh.store s' := by
  cases op with
  | getDeviceAuthorizatonState c d =>
    cases h
    exact ⟨_, rfl, onlyDevices_getState env _ _ c d⟩
  | approveDevice code u scopes =>
    cases h
    exact ⟨_, rfl, onlyDevices_approve env _ _ code u _⟩
  | denyDevice code =>
    cases h
    exact ⟨_, rfl, onlyDevices_deny env _ code⟩
  | _ => cases hop

include h in
theorem exec_does : Does env sh op sh' := by
  cases op with
  | createClient | setStatus | rotateSecret | removeClient =>
    obtain ⟨clients, rfl⟩ := shared_onClients h
    exact .idle rfl rfl le_rfl
  | authRequestByCode | deleteAuthRequest | tokenRequestByRefreshToken | terminateSession
  | revokeToken | sweepExpired | purgeSubject =>
    obtain ⟨s', rfl, hdel⟩ := exec_deletes h rfl
    exact .deletes hdel
  | getDeviceAuthorizatonState | approveDevice | denyDevice =>
    obtain ⟨s', rfl, honly⟩ := exec_answersDevice h rfl
    exact .devices rfl honly
  | createAuthRequest req u =>
    rw [exec] at h
    obtain ⟨rfl, rfl⟩ | ⟨v, hv, h⟩ := drawing_one h
    · exact .idle rfl rfl le_rfl
    · cases h
      exact .createAuthRequest req u v hv
  | saveAuthCode id =>
    rw [exec] at h
    obtain ⟨rfl, rfl⟩ | ⟨v, -, h⟩ := drawing_one h
    · exact .idle rfl rfl le_rfl
    · cases h
      exact .saveAuthCode id v
  | storeDeviceAuthorization c l scopes =>
    rw [exec] at h
    obtain ⟨rfl, rfl⟩ | ⟨v, -, h⟩ := drawing_one h
    · exact .idle rfl rfl le_rfl
    · cases h
      exact .storeDevice (onlyDevices_store ..)
  | createAccessAndRefreshTokens request captured current =>
    rw [exec] at h
    obtain ⟨rfl, rfl⟩ | ⟨vs, -, hlen, hfresh, h⟩ := drawing_cases h
    · exact .idle rfl rfl le_rfl
    · obtain ⟨hid, hvalue⟩ := mint_drawn hlen hfresh
      cases h
      exact .mint request captured current hid hvalue
  | setAuthTime id t =>
    cases h
    exact .setAuthTime id t
  | completeLogin id u scopes =>
    cases h
    exact .completeLogin id u scopes
  | revokeGrant u c =>
    cases h
    exact .revokeGrant u c
  | revokeTokens f =>
    cases h
    exact .revokeTokens f
  | _ =>
    cases h
    exact .idle rfl rfl (by simp)

include h in
theorem exec_adds : ∃ new, Effect new sh.store sh'.store ∧ Adds env sh sh' op r new := by
  cases op with
  | now | judge | advanceClock | getClientByClientID | authRequestByID | deviceByUserCode =>
    cases h
    exact ⟨{}, .refl _, rfl⟩
  | createClient | setStatus | rotateSecret | removeClient =>
    obtain ⟨clients, rfl⟩ := shared_onClients h
    exact ⟨{}, .refl _, rfl⟩
  | authRequestByCode | deleteAuthRequest | tokenRequestByRefreshToken | terminateSession
  | revokeToken | sweepExpired | purgeSubject =>
    obtain ⟨s', rfl, hdel⟩ := exec_deletes h rfl
    exact ⟨{}, .of_drops hdel.drops, rfl⟩
  | setAuthTime id t => exact ⟨{}, adds_nothing h (effect_setAuthTime _ id t), rfl⟩
  | completeLogin id u scopes =>
    exact ⟨{}, adds_nothing h (effect_completeLogin _ _ id u scopes), rfl⟩
  | getDeviceAuthorizatonState c d =>
    exact ⟨{}, adds_nothing h (effect_getDeviceAuthorizatonState env _ _ c d), rfl⟩
  | approveDevice code u scopes =>
    exact ⟨{}, adds_nothing h (effect_approveDevice env _ _ (Int.natCast_nonneg _) code u _), rfl⟩
  | denyDevice code => exact ⟨{}, adds_nothing h (effect_denyDevice env _ code), rfl⟩
  | revokeGrant u c => exact ⟨{}, adds_nothing h (effect_revokeGrant u c), rfl⟩
  | revokeTokens f => exact ⟨{}, adds_nothing h revokes_revokeTokens.effect, rfl⟩
  | createAuthRequest req u =>
    rw [exec] at h
    obtain ⟨rfl, rfl⟩ | ⟨v, hv, h⟩ := drawing_one h
    · exact ⟨{}, .refl _, .inl rfl⟩
    · cases h
      exact ⟨_, effect_createAuthRequest _ sh.store v u req, .inr ⟨v, hv, mem_cons_self, rfl⟩⟩
  | saveAuthCode id =>
    rw [exec] at h
    obtain ⟨rfl, rfl⟩ | ⟨v, hv, h⟩ := drawing_one h
    · exact ⟨{}, .refl _, .inl rfl⟩
    · cases h
      exact ⟨_, effect_saveAuthCode env _ sh.store id v, .inr ⟨v, hv, mem_cons_self, rfl⟩⟩
  | storeDeviceAuthorization c l scopes =>
    rw [exec] at h
    obtain ⟨rfl, rfl⟩ | ⟨v, hv, h⟩ := drawing_one h
    · exact ⟨{}, .refl _, .inl rfl⟩
    · cases h
      exact ⟨_, effect_storeDeviceAuthorization env _ sh.store c v _ _ scopes,
        .inr ⟨v, hv, mem_cons_self, rfl⟩⟩
  | createAccessAndRefreshTokens request captured current =>
    rw [exec] at h
    obtain ⟨rfl, rfl⟩ | ⟨vs, -, hlen, hfresh, h⟩ := drawing_cases h
    · exact ⟨{}, .refl _, rfl⟩
    · rcases hmint : sh.store.createAccessAndRefreshTokens env (ω.mintDraws vs) sh.now request captured
        current with ⟨r', s'⟩
      simp only [hmint] at h
      cases h
      obtain ⟨e, rfl, hdrops⟩ | ⟨t, rfl, hunchanged, heffect⟩ := mint_cases env _ sh.store hmint
      · exact ⟨{}, .of_drops hdrops, rfl⟩
      · obtain ⟨⟨hid, hid'⟩, hv, hv'⟩ := mint_drawn (ω := ω) hlen hfresh
        exact ⟨_, heffect, ⟨hid, hv⟩, ⟨hid', hv'⟩, hunchanged, rfl⟩

theorem sees_authRequestByCode {a : AuthRequest} (h : (s.authRequestByCode env now v).1 = .ok (a, e)) :
    ∃ c, s.codes.get (env.tokenHash v) = some c ∧ s.authRequests.get c.requestID = some a ∧
      e = s.revocationEpochsLocked a.clientID a.subject := by
  rw [authRequestByCode] at h
  split at h
  · cases h
  · rename_i c hc
    split at h
    · cases h
    · rename_i a' ha'
      cases h
      exact ⟨c, (filter_eq_some_iff.1 hc).1, ha', rfl⟩

theorem sees_tokenRequestByRefreshToken {r : Oidc.RefreshRequest}
    (h : (s.tokenRequestByRefreshToken env now v).1 = .ok (r, e)) :
    ∃ t, s.refreshTokens.get (env.tokenHash v) = some t ∧ r = t.request ∧
      e = s.revocationEpochsLocked t.clientID t.subject := by
  rw [tokenRequestByRefreshToken] at h
  split at h
  · rename_i t ht
    cases h
    exact ⟨t, (filter_eq_some_iff.1 ht).1, rfl, rfl⟩
  · split at h <;> cases h

theorem sees_getDeviceAuthorizatonState
    {st : DeviceAuthorizationState} {e : Option RevocationEpochs}
    (h : (s.getDeviceAuthorizatonState env now c v).1 = .ok (st, e))
    (happroved : (st.done && !st.denied) = true) :
    ∃ d, s.devices.get (env.tokenHash v) = some d ∧ d.denied = false ∧ d.clientID = c ∧
      st.clientID = c ∧ st.subject = d.subject ∧
      e = some (s.revocationEpochsLocked c d.subject) := by
  rw [getDeviceAuthorizatonState] at h
  split at h
  · cases h
  · rename_i d hfound
    obtain ⟨hd, hclient⟩ := filter_eq_some_iff.1 hfound
    obtain rfl : d.clientID = c := by simpa using hclient
    split_ifs at h with hslow hdone hexpired
    · cases h
      obtain ⟨-, hdenied⟩ : d.done = true ∧ d.denied = false := by simpa using hdone
      exact ⟨d, hd, hdenied, rfl, rfl, rfl, rfl⟩
    · cases h
      cases happroved
    · cases h
      exact absurd happroved hdone

theorem sees_lookup {c : Client} (h : (lookup clients id).mapError (fun _ => Err.invalidClient) = .ok c) :
    get clients id = some c ∧ c.status ≠ .suspended := by
  rw [MemoryClientRegistry.lookup] at h
  split at h
  · cases h
  · rename_i c' hc'
    split_ifs at h with hstatus
    · cases h
    · cases h
      exact ⟨hc', hstatus⟩

theorem sees_setStatus {status : ClientStatus} (h : some (sh.onClients (setStatus sh.clients id status)) =
      some (.ok (), sh')) : ∀ c, get sh'.clients id = some c → c.status = status := by
  rw [setStatus] at h
  split at h
  · cases h
  · cases h
    intro c hc
    rw [get_set_self] at hc
    cases hc
    rfl

include h in
theorem exec_sees : Sees env sh sh' op r := by
  cases op with
  | getClientByClientID id =>
    rcases r with _ | c
    · trivial
    · exact ⟨c, sees_lookup (congrArg Prod.fst (some.inj h))⟩
  | setStatus id st =>
    cases st with
    | active => cases r <;> trivial
    | suspended =>
      rcases r with _ | _
      · trivial
      · exact sees_setStatus h
  | removeClient id =>
    cases h
    exact get_del_self _ _
  | authRequestByID id =>
    rcases r with _ | a
    · trivial
    · have hread : sh.store.authRequestByID sh.now id = .ok a := congrArg Prod.fst (some.inj h)
      rw [authRequestByID] at hread
      split at hread
      · cases hread
      · rename_i a' ha'
        exact ⟨a', ha'⟩
  | authRequestByCode v =>
    rcases r with _ | ⟨a, e⟩
    · trivial
    · exact sees_authRequestByCode (congrArg Prod.fst (some.inj h))
  | tokenRequestByRefreshToken v =>
    rcases r with _ | ⟨a, e⟩
    · trivial
    · exact sees_tokenRequestByRefreshToken (congrArg Prod.fst (some.inj h))
  | getDeviceAuthorizatonState c v =>
    rcases r with _ | ⟨a, e⟩
    · trivial
    · exact sees_getDeviceAuthorizatonState (congrArg Prod.fst (some.inj h))
  | _ => trivial

/-- The owners a step revokes the grants of. `RevokeGrant` refuses an empty subject or client. -/
def Op.revokes : Op → Option TokenFilter
  | revokeGrant u c => if u = "" ∨ c = "" then none else some ⟨c, u⟩
  | revokeTokens f => some f
  | _ => none

include h in
theorem exec_revokes {f : TokenFilter} (hf : op.revokes = some f) : Revokes f sh.store sh'.store := by
  cases op with
  | revokeGrant u c =>
    rw [Op.revokes] at hf
    split_ifs at hf with hempty
    cases hf
    obtain ⟨hu, hc⟩ := not_or.1 hempty
    cases h
    exact revokes_revokeGrant hc hu
  | revokeTokens f =>
    cases h
    cases hf
    exact revokes_revokeTokens
  | _ => cases hf

include h in
/-- What has been drawn stays drawn. -/
theorem exec_drawn (hv : v ∈ sh.drawn) : v ∈ sh'.drawn := by
  cases exec_does h with
  | idle _ hdrawn => rwa [hdrawn]
  | createAuthRequest | saveAuthCode | storeDevice => exact mem_cons_of_mem _ hv
  | mint => exact mem_append_right _ hv
  | _ => exact hv

include h in
/-- What has been drawn after a step was drawn before or is the environment's choice. -/
theorem exec_draws (hv : v ∈ sh'.drawn) : v ∈ sh.drawn ∨ ∃ vs, ω.values = some vs ∧ v ∈ vs := by
  cases op with
  | createClient | setStatus | rotateSecret | removeClient =>
    obtain ⟨clients, rfl⟩ := shared_onClients h
    exact .inl hv
  | createAuthRequest | saveAuthCode | storeDeviceAuthorization
  | createAccessAndRefreshTokens request captured current =>
    rw [exec] at h
    obtain ⟨rfl, rfl⟩ | ⟨vs, hvalues, -, -, h⟩ := drawing_cases h
    · exact .inl hv
    · cases h
      exact (mem_append.1 hv).symm.imp_right fun hmem => ⟨vs, hvalues, hmem⟩
  | _ =>
    cases h
    exact .inl hv

theorem closed_set {cl : Client} (h : Closed c clients)
    (hcl : id = c → cl.status = .suspended) : Closed c (set clients id cl) := by
  intro cl' hcl'
  obtain hcl' | ⟨rfl, rfl⟩ := get_of_get_set hcl'
  · exact h cl' hcl'
  · exact hcl rfl

/-- A step on the registry that keeps a client closed. -/
theorem closed_onClients {r : Except Err Unit} (hx : ∀ clients, x = .ok clients → Closed c clients)
    (hc : Closed c sh.clients)
    (h : some (sh.onClients x) = some (r, sh')) : Closed c sh'.clients := by
  cases x with
  | error e =>
    cases h
    exact hc
  | ok clients =>
    cases h
    exact hx clients rfl

include h in
/-- A client that cannot be looked up stays so until it is activated or registered again. -/
theorem exec_closed (hc : Closed c sh.clients) (hop : ¬ Reopens c op) : Closed c sh'.clients := by
  cases op with
  | createClient cl =>
    refine closed_onClients (fun clients hok => ?_) hc h
    rw [create] at hok
    split at hok
    · cases hok
    · cases hok
      exact closed_set hc fun hid => absurd hid hop
  | setStatus id st =>
    refine closed_onClients (fun clients hok => ?_) hc h
    rw [setStatus] at hok
    split at hok
    · cases hok
    · cases hok
      refine closed_set hc fun hid => ?_
      cases st with
      | active => exact absurd hid hop
      | suspended => rfl
  | rotateSecret id hash =>
    refine closed_onClients (fun clients hok => ?_) hc h
    rw [rotateSecret] at hok
    split_ifs at hok
    split at hok
    · cases hok
    · rename_i cl hcl
      split_ifs at hok
      cases hok
      exact closed_set hc fun hid => hc cl (hid ▸ hcl)
  | removeClient id =>
    refine closed_onClients (fun clients hok => ?_) hc h
    cases hok
    exact fun cl hcl => hc cl (get_of_get_del hcl).1
  | createAuthRequest | saveAuthCode | storeDeviceAuthorization
  | createAccessAndRefreshTokens request captured current =>
    rw [exec] at h
    obtain ⟨rfl, rfl⟩ | ⟨vs, -, -, -, h⟩ := drawing_cases h
    · exact hc
    · cases h
      exact hc
  | _ =>
    cases h
    exact hc

/-- The steps that hand a code or a device code out. -/
def Op.handsOut : Op → Bool
  | saveAuthCode _ | storeDeviceAuthorization _ _ _ => true
  | _ => false

/-- The value was drawn in this step. -/
abbrev DrawnNow (sh sh' : Shared) (v : String) : Prop := v ∉ sh.drawn ∧ v ∈ sh'.drawn

/-- A step adds nothing, a request, a code, a device authorization or a pair of tokens. -/
theorem adds_cases (hadds : Adds env sh sh' op r new) :
    new = {} ∨ (∃ v c, DrawnNow sh sh' v ∧ new = { request := some (v, c) }) ∨
    (∃ v id, DrawnNow sh sh' v ∧ op = .saveAuthCode id ∧ new = { code := some (env.tokenHash v, id) }) ∨
    (∃ v c, DrawnNow sh sh' v ∧ op.handsOut = true ∧ new = { device := some (env.tokenHash v, c) }) ∨
    ∃ request captured current, op = .createAccessAndRefreshTokens request captured current ∧
      ∃ a v, new = { access := some a, refresh := some v } := by
  cases op with
  | createAuthRequest req u =>
    obtain rfl | ⟨v, hv, hv', rfl⟩ := hadds
    · exact .inl rfl
    · exact .inr (.inl ⟨v, _, ⟨hv, hv'⟩, rfl⟩)
  | saveAuthCode id =>
    obtain rfl | ⟨v, hv, hv', rfl⟩ := hadds
    · exact .inl rfl
    · exact .inr (.inr (.inl ⟨v, id, ⟨hv, hv'⟩, rfl, rfl⟩))
  | storeDeviceAuthorization c l scopes =>
    obtain rfl | ⟨v, hv, hv', rfl⟩ := hadds
    · exact .inl rfl
    · exact .inr (.inr (.inr (.inl ⟨v, c, ⟨hv, hv'⟩, rfl, rfl⟩)))
  | createAccessAndRefreshTokens request captured current =>
    rcases r with e | ⟨a, v, t⟩
    · exact .inl hadds
    · obtain ⟨-, -, -, rfl⟩ := hadds
      exact .inr (.inr (.inr (.inr ⟨_, _, _, rfl, _, _, rfl⟩)))
  | _ => exact .inl hadds

end Exec

end Re0Auth.Memory

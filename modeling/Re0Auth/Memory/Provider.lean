import Re0Auth.Lib.Interleave
import Re0Auth.Memory.Effects

/-!
# The OpenID provider over the in-memory stores

The requests of the provider and the calls of the operator plane (`internal/admin/admin.go`) side by
side, over the in-memory client registry and the in-memory OpenID store. Each method of the two runs
under a lock of its own and is one step.

* **`Op`**, **`machine`**: the methods, the clock and the decisions of the provider library (`judge`);
* **`Call`**, **`provider`**: the requests, each a sequence of such steps;
* **`Stage`**, **`typestate`**: what a call has in hand, with the conformance of every call.
-/

namespace Re0Auth.Memory

open Lib OAuth Oidc

/-- **Shared state**: the two stores, the clock, and the values drawn so far. The clock counts from Go's
zero time. -/
structure Shared where
  store : OIDCStore
  clients : MemoryClientRegistry
  now : ℕ
  drawn : List String

/-- **Steps**: the methods of the registry and of the store, the clock, and what the provider library
decides on its own. -/
inductive Op
  | now
  | advanceClock (d : ℕ)
  | judge
  | getClientByClientID (id : String)
  | createClient (c : Client)
  | setStatus (id : String) (status : ClientStatus)
  | rotateSecret (id : String) (secretHash : List UInt8)
  | removeClient (id : String)
  | createAuthRequest (req : AuthorizeParams) (userID : String)
  | authRequestByID (id : String)
  | authRequestByCode (code : String)
  | saveAuthCode (id : String)
  | deleteAuthRequest (id : String)
  | setAuthTime (id : String) (at_ : Time)
  | completeLogin (id subject : String) (scopes : List String)
  | createAccessAndRefreshTokens (request : TokenRequest) (captured : Option RevocationEpochs)
      (current : String)
  | tokenRequestByRefreshToken (value : String)
  | terminateSession (userID clientID : String)
  | revokeToken (tokenOrTokenID clientID : String)
  | storeDeviceAuthorization (clientID : String) (lifetime : Duration) (scopes : List String)
  | getDeviceAuthorizatonState (clientID deviceCode : String)
  | deviceByUserCode (userCode : String)
  | approveDevice (userCode subject : String) (scopes : List String)
  | denyDevice (userCode : String)
  | sweepExpired
  | revokeGrant (subject clientID : String)
  | revokeTokens (f : TokenFilter)
  | purgeSubject (subject : String)

/-- The values a token request is answered with, and the deadline of the access token. -/
abbrev Pair := String × String × Time

/-- What a step answers. A resolve step answers with the generations it puts into the carrier of the
request; `saveAuthCode` and `storeDeviceAuthorization` with the codes that are handed out. -/
@[reducible] def Op.Answer : Op → Type
  | now => Time
  | judge => List String
  | getClientByClientID _ => Client
  | createAuthRequest _ _ | authRequestByID _ => AuthRequest
  | authRequestByCode _ => AuthRequest × RevocationEpochs
  | saveAuthCode _ => String
  | createAccessAndRefreshTokens _ _ _ => Pair
  | tokenRequestByRefreshToken _ => Oidc.RefreshRequest × RevocationEpochs
  | storeDeviceAuthorization _ _ _ => String × String
  | getDeviceAuthorizatonState _ _ => DeviceAuthorizationState × Option RevocationEpochs
  | deviceByUserCode _ => DeviceAuthorizationState
  | sweepExpired | revokeTokens _ | purgeSubject _ => ℕ
  | advanceClock _ | createClient _ | setStatus _ _ | rotateSecret _ _ | removeClient _
  | deleteAuthRequest _ | setAuthTime _ _ | completeLogin _ _ _ | terminateSession _ _
  | revokeToken _ _ | approveDevice _ _ _ | denyDevice _ | revokeGrant _ _ => Unit

/-- The environment's choices in a step. -/
structure Choice where
  /-- The values the random source yields, `none` where it fails. -/
  values : Option (List String)
  /-- Which tombstone the iteration order of the map puts first. -/
  evict : ℕ
  /-- The user code the library makes up; it is short and need not be new. -/
  userCode : String
  /-- The scopes the library grants, `none` where it turns the request down. -/
  verdict : Option (List String)

/-- Values nobody has drawn before. -/
def Shared.Fresh (sh : Shared) (vs : List String) : Prop := vs.Nodup ∧ ∀ v ∈ vs, v ∉ sh.drawn

instance {sh : Shared} {vs : List String} : Decidable (sh.Fresh vs) :=
  inferInstanceAs (Decidable (_ ∧ _))

variable {α : Type} {env : Env}

/-- A step on the store. -/
def Shared.onStore (sh : Shared) (r : Except Err α × OIDCStore) : Except Err α × Shared :=
  (r.1, { sh with store := r.2 })

/-- A method that cannot fail and answers with a number. -/
def counted (x : ℕ × OIDCStore) : Except Err ℕ × OIDCStore := (.ok x.1, x.2)

/-- A step on the registry. -/
def Shared.onClients (sh : Shared) (r : Except OAuth.Error MemoryClientRegistry) :
    Except Err Unit × Shared :=
  match r with
  | .error e => (.error (.registry e), sh)
  | .ok clients => (.ok (), { sh with clients := clients })

/-- A step that draws `n` values first. -/
def Shared.drawing (sh : Shared) (ω : Choice) (n : ℕ)
    (k : List String → Shared → Except Err α × Shared) : Option (Except Err α × Shared) :=
  match ω.values with
  | none => some (.error .random, sh)
  | some vs =>
    if vs.length = n ∧ sh.Fresh vs then some (k vs { sh with drawn := vs ++ sh.drawn }) else none

/-- The draws of a mint. -/
def Choice.mintDraws (ω : Choice) (vs : List String) : MintDraws where
  accessID := vs.getD 0 ""
  value := vs.getD 1 ""
  familyID := vs.getD 2 ""
  evict := ω.evict

/-- **One step.** -/
def exec (env : Env) (op : Op) (ω : Choice) (sh : Shared) :
    Option (Except Err op.Answer × Shared) :=
  match op with
  | .now => some (.ok sh.now, sh)
  | .advanceClock d => some (.ok (), { sh with now := sh.now + d })
  | .judge => some (ω.verdict.elim (.error .refused) .ok, sh)
  | .getClientByClientID id =>
    some ((MemoryClientRegistry.lookup sh.clients id).mapError fun _ => .invalidClient, sh)
  | .createClient c => some (sh.onClients (MemoryClientRegistry.create sh.clients c))
  | .setStatus id status => some (sh.onClients (MemoryClientRegistry.setStatus sh.clients id status))
  | .rotateSecret id hash =>
    some (sh.onClients (MemoryClientRegistry.rotateSecret env sh.clients id hash))
  | .removeClient id => some (sh.onClients (.ok (MemoryClientRegistry.remove sh.clients id)))
  | .createAuthRequest req userID => sh.drawing ω 1 fun vs sh =>
    sh.onStore (sh.store.createAuthRequest sh.now (vs.headD "") req userID)
  | .authRequestByID id => some (sh.store.authRequestByID sh.now id, sh)
  | .authRequestByCode code => some (sh.onStore (sh.store.authRequestByCode env sh.now code))
  | .saveAuthCode id => sh.drawing ω 1 fun vs sh =>
    sh.onStore (.ok (vs.headD ""), sh.store.saveAuthCode env sh.now id (vs.headD ""))
  | .deleteAuthRequest id => some (sh.onStore (.ok (), sh.store.deleteAuthRequest id))
  | .setAuthTime id at_ => some (sh.onStore (sh.store.setAuthTime id at_))
  | .completeLogin id subject scopes =>
    some (sh.onStore (sh.store.completeLogin sh.now id subject scopes))
  | .createAccessAndRefreshTokens request captured current =>
    sh.drawing ω (if current = "" then 3 else 2) fun vs sh =>
      sh.onStore (sh.store.createAccessAndRefreshTokens env (ω.mintDraws vs) sh.now request captured
        current)
  | .tokenRequestByRefreshToken value =>
    some (sh.onStore (sh.store.tokenRequestByRefreshToken env sh.now value))
  | .terminateSession userID clientID =>
    some (sh.onStore (.ok (), sh.store.terminateSession userID clientID))
  | .revokeToken token clientID => some (sh.onStore (.ok (), sh.store.revokeToken env token clientID))
  | .storeDeviceAuthorization clientID lifetime scopes => sh.drawing ω 1 fun vs sh =>
    let stored := sh.store.storeDeviceAuthorization env sh.now clientID (vs.headD "") ω.userCode
      (sh.now + lifetime) scopes
    sh.onStore (stored.1.map fun _ => (vs.headD "", ω.userCode), stored.2)
  | .getDeviceAuthorizatonState clientID deviceCode =>
    some (sh.onStore (sh.store.getDeviceAuthorizatonState env sh.now clientID deviceCode))
  | .deviceByUserCode userCode =>
    -- its caller answers every failure with this one
    some ((sh.store.deviceByUserCode env userCode).mapError fun _ => .deviceNotFound, sh)
  | .approveDevice userCode subject scopes =>
    some (sh.onStore (sh.store.approveDevice env sh.now userCode subject (some scopes)))
  | .denyDevice userCode => some (sh.onStore (sh.store.denyDevice env userCode))
  | .sweepExpired => some (sh.onStore (counted (sh.store.sweepExpired env sh.now)))
  | .revokeGrant subject clientID => some (sh.onStore (sh.store.revokeGrant env subject clientID))
  | .revokeTokens f => some (sh.onStore (counted (sh.store.revokeTokens env f)))
  | .purgeSubject subject => some (sh.onStore (sh.store.purgeSubject env subject))

/-- The two stores as a machine. -/
abbrev machine (env : Env) : Machine where
  Op := Op
  Res op := Except Err op.Answer
  Sh := Shared
  Choice := Choice
  exec := exec env

/-- Programs over the methods. -/
abbrev Steps (env : Env) := ExceptT Err (Prog (machine env))

/-- One step of a call. -/
def step (op : Op) : Steps env op.Answer := ExceptT.mk (Prog.call (M := machine env) op)

/-! ## Calls -/

/-- `admin.Target`. -/
structure Target where
  all : Bool
  clientID : String
  subject : String
  bindings : Bool
  deriving DecidableEq, Repr

/-- `Target.setCount`. -/
def Target.setCount (t : Target) : ℕ :=
  t.all.toNat + (t.clientID != "").toNat + (t.subject != "").toNat + t.bindings.toNat

/-- **Calls**: the endpoints of the provider, the pages of the user, and the operator plane. -/
inductive Call
  | authorize (req : AuthorizeParams) (userID : String)
  | approveAuthorization (id subject : String) (authTime : Option Time)
  | denyAuthorization (id : String)
  | authorizeCallback (id : String)
  | deviceAuthorization (clientID : String) (lifetime : Duration) (scopes : List String)
  | decideDeviceAuthorization (userCode subject : String) (approve : Bool)
  | code (clientID value : String)
  | refresh (clientID value : String)
  | device (clientID deviceCode : String)
  | revokeToken (clientID tokenOrTokenID : String)
  | endSession (userID clientID : String)
  | revokeGrant (subject clientID : String)
  | revokeTokens (f : TokenFilter)
  | purgeSubject (subject : String)
  | sweepExpired
  | createClient (c : Client)
  | rotateClientSecret (id : String) (secretHash : List UInt8)
  | activateClient (id : String)
  | suspendClient (id : String)
  | deleteClient (id : String)
  | killSwitch (target : Target)
  | advanceClock (d : ℕ)

/-- The authorization endpoint: the client is looked up, the request is checked and stored. -/
def authorize (req : AuthorizeParams) (userID : String) : Steps env Unit := do
  let _ ← step (.getClientByClientID req.clientID)
  let _ ← step .judge
  let _ ← step (.createAuthRequest req userID)

/-- `ApproveAuthorization`: the scopes it settles on are the library's and the catalogue's. -/
def approveAuthorization (id subject : String) (authTime : Option Time) : Steps env Unit := do
  let _ ← step (.authRequestByID id)
  let scopes ← step .judge
  match authTime with
  | none => step (.completeLogin id subject scopes)
  | some at_ =>
    step (.setAuthTime id at_)
    step (.completeLogin id subject scopes)

/-- `DenyAuthorization`. -/
def denyAuthorization (id : String) : Steps env Unit := do
  let _ ← step (.authRequestByID id)
  step (.deleteAuthRequest id)

/-- The callback of the authorization endpoint hands the code out. -/
def authorizeCallback (id : String) : Steps env Unit := do
  let a ← step (.authRequestByID id)
  if a.isDone then
    let _ ← step (.getClientByClientID a.clientID)
    let _ ← step (.saveAuthCode id)
  else throw .refused

/-- The device authorization endpoint. -/
def deviceAuthorization (clientID : String) (lifetime : Duration) (scopes : List String) :
    Steps env Unit := do
  let _ ← step (.getClientByClientID clientID)
  let _ ← step .judge
  let _ ← step (.storeDeviceAuthorization clientID lifetime scopes)

/-- `DecideDeviceAuthorization`. -/
def decideDeviceAuthorization (userCode subject : String) (approve : Bool) : Steps env Unit :=
  if subject = "" then throw (.accessDenied "user is not authenticated")
  else do
    let state ← step (.deviceByUserCode userCode)
    let now ← step .now
    if state.done || state.denied || state.expires < now then throw .deviceNotFound
    else if approve then
      let scopes ← step .judge
      step (.approveDevice userCode subject scopes)
    else step (.denyDevice userCode)

/-- The grant of a code. The library compares the client of the request with the one it has looked
up. -/
def redeemCode (clientID value : String) : Steps env Pair := do
  let _ ← step (.getClientByClientID clientID)
  let (request, epochs) ← step (.authRequestByCode value)
  if request.clientID = clientID then
    let _ ← step .judge
    step (.createAccessAndRefreshTokens request.token (some epochs) "")
  else throw .refused

/-- The grant of a refresh token. The library turns down a request without one and may narrow the
scopes. -/
def redeemRefresh (clientID value : String) : Steps env Pair :=
  if value = "" then throw .refused
  else do
    let _ ← step (.getClientByClientID clientID)
    let (request, epochs) ← step (.tokenRequestByRefreshToken value)
    if request.clientID = clientID then
      let scopes ← step .judge
      step (.createAccessAndRefreshTokens { request.token with scopes := scopes } (some epochs) value)
    else throw .refused

/-- The grant of a device code. The library answers by the state: denied, approved, or neither. -/
def redeemDevice (clientID deviceCode : String) : Steps env Pair := do
  let _ ← step (.getClientByClientID clientID)
  let (state, epochs) ← step (.getDeviceAuthorizatonState clientID deviceCode)
  if state.denied then throw .refused
  else if state.done then
    let _ ← step .judge
    step (.createAccessAndRefreshTokens state.token epochs "")
  else throw .refused

/-- `SuspendClient`. -/
def suspendClient (id : String) : Steps env Unit := do
  step (.setStatus id .suspended)
  let _ ← step (.revokeTokens ⟨id, ""⟩)

/-- `DeleteClient`. The registry's own `Delete` revokes before the registration goes. -/
def deleteClient (id : String) : Steps env Unit := do
  let _ ← step (.revokeTokens ⟨id, ""⟩)
  step (.removeClient id)
  let _ ← step (.revokeTokens ⟨id, ""⟩)

/-- The part of `KillSwitch` after the suspension. Sessions, bindings and bind flows live elsewhere; a
failure there fails the call. -/
def killSweep (t : Target) : Steps env Unit := do
  if t.bindings then
    let _ ← step .judge
  else
    let _ ← step (.revokeTokens ⟨t.clientID, t.subject⟩)
    if t.all || t.subject != "" then
      let _ ← step .judge

/-- `KillSwitch`. -/
def killSwitch (t : Target) : Steps env Unit :=
  if t.setCount ≠ 1 then throw .invalidTarget
  else if t.clientID = "" then killSweep t
  else do
    step (.setStatus t.clientID .suspended)
    killSweep t

/-- A call that answers with success only. -/
def unanswered (m : Steps env α) : Steps env (Option Pair) := m >>= fun _ => pure none

/-- A token request. -/
def answered (m : Steps env Pair) : Steps env (Option Pair) := m >>= fun pair => pure (some pair)

/-- The program of a call; a token request answers with a pair. -/
def Call.body : Call → Steps env (Option Pair)
  | authorize req userID => unanswered (Memory.authorize req userID)
  | approveAuthorization id subject at_ => unanswered (Memory.approveAuthorization id subject at_)
  | denyAuthorization id => unanswered (Memory.denyAuthorization id)
  | authorizeCallback id => unanswered (Memory.authorizeCallback id)
  | deviceAuthorization c l scopes => unanswered (Memory.deviceAuthorization c l scopes)
  | decideDeviceAuthorization userCode u b => unanswered (Memory.decideDeviceAuthorization userCode u b)
  | code c value => answered (redeemCode c value)
  | refresh c value => answered (redeemRefresh c value)
  | device c d => answered (redeemDevice c d)
  | revokeToken c token => do
    let _ ← step (.getClientByClientID c)
    unanswered (step (.revokeToken token c))
  | endSession u c => unanswered (step (.terminateSession u c))
  | revokeGrant u c => unanswered (step (.revokeGrant u c))
  | revokeTokens f => unanswered (step (.revokeTokens f))
  | purgeSubject u => unanswered (step (.purgeSubject u))
  | sweepExpired => unanswered (step .sweepExpired)
  | createClient c => unanswered (step (.createClient c))
  | rotateClientSecret id hash => unanswered (step (.rotateSecret id hash))
  | activateClient id => unanswered (step (.setStatus id .active))
  | suspendClient id => unanswered (Memory.suspendClient id)
  | deleteClient id => unanswered (Memory.deleteClient id)
  | killSwitch t => unanswered (Memory.killSwitch t)
  | advanceClock d => unanswered (step (.advanceClock d))

/-- The provider. -/
abbrev provider (env : Env) : Service (machine env) where
  Call := Call
  Reply := Except Err (Option Pair)
  body c := c.body.run

/-! ## What a call has in hand -/

/-- **Stage** of a call. -/
inductive Stage
  /-- Nothing yet. -/
  | idle
  /-- A pending request that was read. -/
  | found (id : String)
  /-- A grant whose code, refresh token or device code has been resolved: its client and subject, and
  the generations captured then. -/
  | holding (owner : String × String) (captured : Option RevocationEpochs)
  /-- A pair that was stored. -/
  | minted (accessID value : String)
  /-- Nothing any more. -/
  | settled
  /-- The client cannot be looked up any more. -/
  | closed (id : String)
  /-- The client cannot be looked up, and what it had is revoked. -/
  | cleared (id : String)
  deriving DecidableEq

/-- **Phase** of a call: its arguments, the client it has looked up, and its stage. -/
structure Phase where
  call : Call
  admitted : Option String
  stage : Stage

/-- The stage a step leads to. -/
def Stage.enter (st : Stage) : (op : Op) → Except Err op.Answer → Stage
  | .authRequestByID id, .ok _ => .found id
  | .authRequestByCode _, .ok (a, e) => .holding (a.clientID, a.subject) (some e)
  | .tokenRequestByRefreshToken _, .ok (r, e) => .holding (r.clientID, r.subject) (some e)
  | .getDeviceAuthorizatonState _ _, .ok (d, e) =>
    if d.done && !d.denied then .holding (d.clientID, d.subject) e else st
  | .createAccessAndRefreshTokens _ _ _, .ok (accessID, value, _) => .minted accessID value
  | .createAccessAndRefreshTokens _ _ _, .error _ => .settled
  | .setStatus id .suspended, .ok _ => .closed id
  | .removeClient id, .ok _ => .closed id
  | .revokeTokens f, .ok _ => if st = .closed f.clientID ∧ f.subject = "" then .cleared f.clientID else st
  | _, _ => st

/-- The stage after a step; a call that has minted is done. -/
def Stage.advance (st : Stage) (op : Op) (r : Except Err op.Answer) : Stage :=
  match st with
  | .minted accessID value => .minted accessID value
  | st => st.enter op r

/-- **Enters**: the steps after which a call is in another stage. -/
inductive Enters (st : Stage) : (op : Op) → Except Err op.Answer → Stage → Prop
  | found (id : String) (a : AuthRequest) : Enters st (.authRequestByID id) (.ok a) (.found id)
  | code (v : String) (a : AuthRequest) (e : RevocationEpochs) :
    Enters st (.authRequestByCode v) (.ok (a, e)) (.holding (a.clientID, a.subject) (some e))
  | refresh (v : String) (r : Oidc.RefreshRequest) (e : RevocationEpochs) :
    Enters st (.tokenRequestByRefreshToken v) (.ok (r, e)) (.holding (r.clientID, r.subject) (some e))
  | device (c v : String) (d : DeviceAuthorizationState) (e : Option RevocationEpochs)
      (h : (d.done && !d.denied) = true) :
    Enters st (.getDeviceAuthorizatonState c v) (.ok (d, e)) (.holding (d.clientID, d.subject) e)
  | minted (request : TokenRequest) (captured : Option RevocationEpochs) (current accessID value : String)
      (t : Time) :
    Enters st (.createAccessAndRefreshTokens request captured current) (.ok (accessID, value, t))
      (.minted accessID value)
  | settled (request : TokenRequest) (captured : Option RevocationEpochs) (current : String) (e : Err) :
    Enters st (.createAccessAndRefreshTokens request captured current) (.error e) .settled
  | suspended (id : String) : Enters st (.setStatus id .suspended) (.ok ()) (.closed id)
  | removed (id : String) : Enters st (.removeClient id) (.ok ()) (.closed id)
  | cleared (f : TokenFilter) (n : ℕ) (hst : st = .closed f.clientID) (hf : f.subject = "") :
    Enters st (.revokeTokens f) (.ok n) (.cleared f.clientID)

theorem Stage.enter_cases (st : Stage) (op : Op) (r : Except Err op.Answer) :
    st.enter op r = st ∨ Enters st op r (st.enter op r) := by
  cases op with
  | authRequestByID id =>
    rcases r with _ | a
    · exact .inl rfl
    · exact .inr (.found id a)
  | authRequestByCode v =>
    rcases r with _ | ⟨a, e⟩
    · exact .inl rfl
    · exact .inr (.code v a e)
  | tokenRequestByRefreshToken v =>
    rcases r with _ | ⟨a, e⟩
    · exact .inl rfl
    · exact .inr (.refresh v a e)
  | getDeviceAuthorizatonState c v =>
    rcases r with _ | ⟨d, e⟩
    · exact .inl rfl
    · by_cases h : (d.done && !d.denied) = true
      · rw [Stage.enter, if_pos h]
        exact .inr (.device c v d e h)
      · exact .inl (if_neg h)
  | createAccessAndRefreshTokens request captured current =>
    rcases r with e | ⟨a, v, t⟩
    · exact .inr (.settled request captured current e)
    · exact .inr (.minted request captured current a v t)
  | setStatus id status =>
    cases status with
    | active => exact .inl rfl
    | suspended =>
      rcases r with _ | _
      · exact .inl rfl
      · exact .inr (.suspended id)
  | removeClient id =>
    rcases r with _ | _
    · exact .inl rfl
    · exact .inr (.removed id)
  | revokeTokens f =>
    rcases r with _ | n
    · exact .inl rfl
    · by_cases h : st = .closed f.clientID ∧ f.subject = ""
      · rw [Stage.enter, if_pos h]
        exact .inr (.cleared f n h.1 h.2)
      · exact .inl (if_neg h)
  | _ => exact .inl rfl

/-- A step leaves the stage alone or enters another. -/
theorem Stage.advance_cases (st : Stage) (op : Op) (r : Except Err op.Answer) :
    st.advance op r = st ∨ Enters st op r (st.advance op r) := by
  cases st with
  | minted accessID value => exact .inl rfl
  | _ => exact Stage.enter_cases _ op r

/-- The client a call has looked up, after a step. -/
def admittedAfter (admitted : Option String) : (op : Op) → Except Err op.Answer → Option String
  | .getClientByClientID id, .ok _ => some id
  | _, _ => admitted

/-- The phase after a step. -/
def Phase.advance (p : Phase) (op : Op) (r : Except Err op.Answer) : Phase :=
  ⟨p.call, admittedAfter p.admitted op r, p.stage.advance op r⟩

/-- What a call must have in hand for a step. -/
def Allowed (p : Phase) : Op → Prop
  | .getClientByClientID _ => ∀ o e, p.stage ≠ .holding o e
  | .authRequestByCode v => p.stage = .idle ∧ ∃ c, p.call = .code c v ∧ p.admitted = some c
  | .tokenRequestByRefreshToken v => p.stage = .idle ∧ ∃ c, p.call = .refresh c v ∧ p.admitted = some c
  | .getDeviceAuthorizatonState c d =>
    p.stage = .idle ∧ p.call = .device c d ∧ p.admitted = some c
  | .saveAuthCode id => p.stage = .found id
  | .createAccessAndRefreshTokens request captured _ =>
    p.stage = .holding (request.clientID, request.subject) captured ∧
      (p.admitted = some request.clientID ∨ ∃ c d, p.call = .device c d)
  | _ => True

/-- The typestate of the provider. -/
abbrev typestate (env : Env) : Typestate (provider env) where
  Phase := Phase
  start c := ⟨c, none, .idle⟩
  allowed := Allowed
  advance := Phase.advance

/-- The client a call of the operator plane switches off. -/
def Call.switchesOff : Call → Option String
  | suspendClient id | deleteClient id => some id
  | killSwitch t => if t.clientID = "" then none else some t.clientID
  | _ => none

/-- How a call ends: one that switches a client off and succeeds has cleared it. -/
def Ends (reply : Except Err (Option Pair)) (p : Phase) : Prop :=
  reply.isOk = true → ∀ c, p.call.switchesOff = some c → p.stage = .cleared c

/-! ## Trails -/

/-- **Generation** of a family: what a mint was given and what it answered. The first has no parent. -/
structure Generation where
  parent : String
  accessID : String
  value : String
  clientID : String
  subject : String
  expiresAt : Time
  deriving DecidableEq

/-- **Trail** of a call: the refresh token it was given, the owner that was resolved for it, the
generation the call has minted and the value that was spent for it. -/
structure Trail where
  presented : String
  resolved : Option (String × String)
  minted : Option Generation
  spent : Option String
  deriving DecidableEq

/-- The refresh token a call was given. -/
def Call.refreshValue : Call → String
  | refresh _ value => value
  | _ => ""

/-- The trail after a step. A mint that is refused because of a revocation has spent its value. -/
def Trail.advance (p : Trail) : (op : Op) → Except Err op.Answer → Trail
  | .tokenRequestByRefreshToken _, .ok (r, _) => { p with resolved := some (r.clientID, r.subject) }
  | .createAccessAndRefreshTokens request _ current, .ok (accessID, value, expires) =>
    { p with
      minted := some ⟨current, accessID, value, request.clientID, request.subject, expires⟩
      spent := some current }
  | .createAccessAndRefreshTokens _ _ current, .error .grantRevokedInFlight =>
    { p with spent := some current }
  | _, _ => p

/-- A call mints once, for the value it was given and for the owner that was resolved. -/
def Trail.Allowed (p : Trail) : Op → Prop
  | .tokenRequestByRefreshToken value => p.presented = value
  | .createAccessAndRefreshTokens request _ current => p.minted = none ∧ p.spent = none ∧
    p.presented = current ∧ (current ≠ "" → p.resolved = some (request.clientID, request.subject))
  | _ => True

/-- The typestate of trails. -/
abbrev trail (env : Env) : Typestate (provider env) where
  Phase := Trail
  start c := ⟨c.refreshValue, none, none, none⟩
  allowed := Trail.Allowed
  advance := Trail.advance

/-! ## Every call keeps to the order and to its trail -/

section Conformance

variable {p : Phase} {x : Trail} {Q : Except Err α → Phase → Prop} {op : Op} {c : Call} {v id u : String}
  {t : Target}

/-- A part of a call keeps to the order and to its trail, and ends with `Q`. -/
abbrev Performs (p : Phase) (x : Trail) (m : Steps env α) (Q : Except Err α → Phase → Prop) : Prop :=
  Prog.Follows ((typestate env).prod (trail env)) (p, x) m.run fun r s => Q r s.1

theorem performs_op {f : op.Answer → Steps env α} (ha : Allowed p op) (hx : x.Allowed op)
    (hok : ∀ a, Performs (p.advance op (.ok a)) (x.advance op (.ok a)) (f a) Q)
    (herr : ∀ e, Q (.error e) (p.advance op (.error e))) : Performs p x (step op >>= f) Q := by
  refine ⟨⟨ha, hx⟩, ?_⟩
  rintro (e | a)
  · exact herr e
  · exact hok a

/-- A step in a part that promises nothing but to stay with its call. -/
theorem performs_step {f : op.Answer → Steps env α} (ha : Allowed p op) (hx : x.Allowed op)
    (hok : ∀ a, Performs (p.advance op (.ok a)) (x.advance op (.ok a)) (f a) fun _ q => q.call = p.call) :
    Performs p x (step op >>= f) fun _ q => q.call = p.call :=
  performs_op ha hx hok fun _ => rfl

/-- The last step of a part. -/
theorem performs_last {Q : Except Err op.Answer → Phase → Prop} (ha : Allowed p op) (hx : x.Allowed op)
    (h : ∀ r, Q r (p.advance op r)) : Performs p x (step op : Steps env op.Answer) Q := ⟨⟨ha, hx⟩, h⟩

/-- A call that switches nothing off makes no promise about its end. -/
theorem ends_of_none {reply : Except Err (Option Pair)} (h : p.call.switchesOff = none) : Ends reply p := by
  intro _ c hc
  rw [h] at hc
  cases hc

/-- The part of a call before its answer. -/
theorem performs_unanswered {m : Steps env α} (hc : c.switchesOff = none)
    (hm : Performs p x m fun _ q => q.call = c) : Performs p x (unanswered m) Ends := by
  refine Prog.Follows.bindE hm ?_ ?_
  all_goals
    intro _ q hq
    exact ends_of_none (hq ▸ hc)

theorem performs_answered {m : Steps env Pair} (hc : c.switchesOff = none)
    (hm : Performs p x m fun _ q => q.call = c) : Performs p x (answered m) Ends := by
  refine Prog.Follows.bindE hm ?_ ?_
  all_goals
    intro _ q hq
    exact ends_of_none (hq ▸ hc)

theorem redeemCode_performs {c : String} :
    Performs ⟨.code c v, none, .idle⟩ ⟨"", none, none, none⟩ (redeemCode c v : Steps env Pair)
      fun _ q => q.call = .code c v := by
  refine performs_step nofun trivial fun _ => ?_
  refine performs_step ⟨rfl, c, rfl, rfl⟩ trivial ?_
  rintro ⟨request, epochs⟩
  dsimp only
  split_ifs with hclient
  · refine performs_step trivial trivial fun _ => ?_
    exact performs_last ⟨rfl, .inl (congrArg some hclient.symm)⟩ ⟨rfl, rfl, rfl, absurd rfl⟩ fun _ => rfl
  · exact rfl

theorem redeemRefresh_performs {c : String} :
    Performs ⟨.refresh c v, none, .idle⟩ ⟨v, none, none, none⟩ (redeemRefresh c v : Steps env Pair)
      fun _ q => q.call = .refresh c v := by
  rw [redeemRefresh]
  split_ifs
  · exact rfl
  refine performs_step nofun trivial fun _ => ?_
  refine performs_step ⟨rfl, c, rfl, rfl⟩ rfl ?_
  rintro ⟨request, epochs⟩
  dsimp only
  split_ifs with hclient
  · refine performs_step trivial trivial fun _ => ?_
    exact performs_last ⟨rfl, .inl (congrArg some hclient.symm)⟩ ⟨rfl, rfl, rfl, fun _ => rfl⟩ fun _ => rfl
  · exact rfl

theorem redeemDevice_performs {c d : String} :
    Performs ⟨.device c d, none, .idle⟩ ⟨"", none, none, none⟩ (redeemDevice c d : Steps env Pair)
      fun _ q => q.call = .device c d := by
  refine performs_step nofun trivial fun _ => ?_
  refine performs_step ⟨rfl, rfl, rfl⟩ trivial ?_
  rintro ⟨state, epochs⟩
  dsimp only
  split_ifs with hdenied hdone
  · exact rfl
  · have hheld : Stage.idle.advance (.getDeviceAuthorizatonState c d) (.ok (state, epochs)) =
        .holding (state.clientID, state.subject) epochs := if_pos (by simp [hdenied, hdone])
    refine performs_step trivial trivial fun scopes => ?_
    refine performs_last ⟨?_, .inr ⟨c, d, rfl⟩⟩ ⟨rfl, rfl, rfl, absurd rfl⟩ fun _ => rfl
    show (Stage.idle.advance (.getDeviceAuthorizatonState c d) (.ok (state, epochs))).advance .judge
      (.ok scopes) = _
    rw [hheld]
    rfl
  · exact rfl

theorem approveAuthorization_performs {at_ : Option Time} :
    Performs p x (approveAuthorization id u at_ : Steps env Unit) fun _ q => q.call = p.call := by
  refine performs_step trivial trivial fun _ => ?_
  refine performs_step trivial trivial fun _ => ?_
  cases at_ with
  | none => exact performs_last trivial trivial fun _ => rfl
  | some at_ =>
    refine performs_step trivial trivial fun _ => ?_
    exact performs_last trivial trivial fun _ => rfl

theorem authorizeCallback_performs :
    Performs ⟨.authorizeCallback id, none, .idle⟩ ⟨"", none, none, none⟩ (authorizeCallback id : Steps env Unit)
      fun _ q => q.call = .authorizeCallback id := by
  refine performs_step trivial trivial fun a => ?_
  split_ifs
  · refine performs_step nofun trivial fun _ => ?_
    exact performs_step rfl trivial fun _ => rfl
  · exact rfl

theorem decideDeviceAuthorization_performs {userCode : String} {b : Bool} :
    Performs p x (decideDeviceAuthorization userCode u b : Steps env Unit)
      fun _ q => q.call = p.call := by
  rw [decideDeviceAuthorization]
  split
  · exact rfl
  refine performs_step trivial trivial fun state => ?_
  refine performs_step trivial trivial fun now => ?_
  split_ifs
  · exact rfl
  · refine performs_step trivial trivial fun _ => ?_
    exact performs_last trivial trivial fun _ => rfl
  · exact performs_last trivial trivial fun _ => rfl

/-- A target with a client has nothing else. -/
theorem Target.only_client (h : t.setCount = 1) (hc : t.clientID ≠ "") :
    t.subject = "" ∧ t.all = false ∧ t.bindings = false := by
  have hc' : (t.clientID != "").toNat = 1 := by simp [hc]
  rw [Target.setCount, hc'] at h
  have hu : (t.subject != "").toNat = 0 := by omega
  have hall : t.all.toNat = 0 := by omega
  have hb : t.bindings.toNat = 0 := by omega
  simpa using And.intro hu (And.intro hall hb)

theorem killSweep_performs : Performs p x (killSweep t : Steps env Unit) fun _ q => q.call = p.call := by
  rw [killSweep]
  split_ifs
  · exact performs_step trivial trivial fun _ => rfl
  · refine performs_step trivial trivial fun _ => ?_
    exact performs_step trivial trivial fun _ => rfl
  · exact performs_step trivial trivial fun _ => rfl

/-- A call after which the client `id` is switched off, if it succeeds. -/
abbrev SwitchesOff (c : Call) (id : String) (m : Steps env Unit) : Prop :=
  Performs ⟨c, none, .idle⟩ ⟨"", none, none, none⟩ m fun r q => q.call = c ∧ (r.isOk = true → q.stage = .cleared id)

theorem suspendClient_switchesOff :
    SwitchesOff (.suspendClient id) id (suspendClient id : Steps env Unit) := by
  refine performs_op trivial trivial (fun _ => ?_) fun _ => ⟨rfl, nofun⟩
  refine performs_op trivial trivial (fun _ => ?_) fun _ => ⟨rfl, nofun⟩
  exact ⟨rfl, fun _ => if_pos ⟨rfl, rfl⟩⟩

theorem deleteClient_switchesOff : SwitchesOff (.deleteClient id) id (deleteClient id : Steps env Unit) := by
  refine performs_op trivial trivial (fun _ => ?_) fun _ => ⟨rfl, nofun⟩
  refine performs_op trivial trivial (fun _ => ?_) fun _ => ⟨rfl, nofun⟩
  refine performs_op trivial trivial (fun _ => ?_) fun _ => ⟨rfl, nofun⟩
  exact ⟨rfl, fun _ => if_pos ⟨rfl, rfl⟩⟩

theorem killSwitch_switchesOff (hc : t.clientID ≠ "") :
    SwitchesOff (.killSwitch t) t.clientID (killSwitch t : Steps env Unit) := by
  rw [killSwitch]
  split_ifs with hcount
  · exact ⟨rfl, nofun⟩
  · obtain ⟨hu, hall, hb⟩ := Target.only_client (not_not.1 hcount) hc
    refine performs_op trivial trivial (fun _ => ?_) fun _ => ⟨rfl, nofun⟩
    rw [killSweep, if_neg (by simp [hb])]
    rw [if_neg (by simp [hall, hu])]
    refine performs_op trivial trivial (fun _ => ?_) fun _ => ⟨rfl, nofun⟩
    exact ⟨rfl, fun _ => if_pos ⟨rfl, hu⟩⟩

theorem killSwitch_performs (hc : t.clientID = "") :
    Performs p x (killSwitch t : Steps env Unit) fun _ q => q.call = p.call := by
  rw [killSwitch]
  split_ifs
  · exact rfl
  · exact killSweep_performs

theorem performs_switchOff {m : Steps env Unit} (hc : c.switchesOff = some id)
    (hm : SwitchesOff c id m) : Performs ⟨c, none, .idle⟩ ⟨"", none, none, none⟩ (unanswered m) Ends := by
  refine Prog.Follows.bindE hm ?_ ?_
  · rintro _ q ⟨hcall, hstage⟩ _ id' hid'
    rw [hcall, hc] at hid'
    cases hid'
    exact hstage rfl
  · rintro _ q - hok
    cases hok

/-- One step and no more. -/
theorem performs_single (hc : c.switchesOff = none) (ha : Allowed ⟨c, none, .idle⟩ op)
    (hx : Trail.Allowed ⟨"", none, none, none⟩ op) :
    Performs ⟨c, none, .idle⟩ ⟨"", none, none, none⟩ (unanswered (step op : Steps env op.Answer)) Ends :=
  performs_unanswered hc (performs_last ha hx fun _ => rfl)

theorem body_performs (c : Call) :
    ((provider env).body c).Follows ((typestate env).prod (trail env)) (((typestate env).prod (trail env)).start c)
      fun r s => Ends r s.1 := by
  cases c with
  | authorize req u =>
    refine performs_unanswered rfl (performs_step nofun trivial fun _ => ?_)
    refine performs_step trivial trivial fun _ => ?_
    exact performs_step trivial trivial fun _ => rfl
  | approveAuthorization id u at_ => exact performs_unanswered rfl approveAuthorization_performs
  | denyAuthorization id =>
    refine performs_unanswered rfl (performs_step trivial trivial fun _ => ?_)
    exact performs_last trivial trivial fun _ => rfl
  | authorizeCallback id => exact performs_unanswered rfl authorizeCallback_performs
  | deviceAuthorization c l scopes =>
    refine performs_unanswered rfl (performs_step nofun trivial fun _ => ?_)
    refine performs_step trivial trivial fun _ => ?_
    exact performs_step trivial trivial fun _ => rfl
  | decideDeviceAuthorization userCode u b =>
    exact performs_unanswered rfl decideDeviceAuthorization_performs
  | code c v => exact performs_answered rfl redeemCode_performs
  | refresh c v => exact performs_answered rfl redeemRefresh_performs
  | device c d => exact performs_answered rfl redeemDevice_performs
  | revokeToken c token =>
    refine performs_op nofun trivial (fun _ => ?_) fun _ => nofun
    exact performs_unanswered rfl (performs_last trivial trivial fun _ => rfl)
  | endSession u c => exact performs_single rfl trivial trivial
  | revokeGrant u c => exact performs_single rfl trivial trivial
  | revokeTokens f => exact performs_single rfl trivial trivial
  | purgeSubject u => exact performs_single rfl trivial trivial
  | sweepExpired => exact performs_single rfl trivial trivial
  | createClient c => exact performs_single rfl trivial trivial
  | rotateClientSecret id hash => exact performs_single rfl trivial trivial
  | activateClient id => exact performs_single rfl trivial trivial
  | suspendClient id => exact performs_switchOff rfl suspendClient_switchesOff
  | deleteClient id => exact performs_switchOff rfl deleteClient_switchesOff
  | killSwitch t =>
    by_cases hc : t.clientID = ""
    · exact performs_unanswered (c := .killSwitch t) (if_pos hc) (killSwitch_performs hc)
    · exact performs_switchOff (if_neg hc) (killSwitch_switchesOff hc)
  | advanceClock d => exact performs_single rfl trivial trivial

/-- **Conformance** of every call to the order. -/
theorem provider_follows (c : Call) :
    ((provider env).body c).Follows (typestate env) ((typestate env).start c) Ends :=
  (body_performs c).fst fun _ _ h => h

/-- **Conformance** of every call to its trail. -/
theorem trail_follows (c : Call) :
    ((provider env).body c).Follows (trail env) ((trail env).start c) fun _ _ => True :=
  (body_performs c).snd fun _ _ _ => trivial

end Conformance

end Re0Auth.Memory

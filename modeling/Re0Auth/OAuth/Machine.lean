import Re0Auth.Lib.Interleave
import Re0Auth.OAuth.Devices

/-!
# The shared objects of the authorization server

What the calls of one `oauth` service share: the client registry, the token store, the device
store, the grant epochs, the refresh turnstiles and the clock. Each operation below is one call on
one of them that the source makes under a single lock, so it is atomic; a service call
(`oauth/as.go`) is a program of such operations.

Two further operations mark the ends of a call. `receive` takes in the token values a caller
presents and `respond` hands values out. They carry what the source relies on when it draws 32
bytes from the system's random source: a drawn value is new, and nobody presents it before it was
handed out.
-/

namespace Re0Auth.OAuth

open Lib

/-- **Configuration** of a service, after `NewService` has put in its defaults. -/
structure Config where
  env : Env
  issuer : String
  scopes : Registry
  atTTL : Duration
  rtTTL : Duration
  codeTTL : Duration
  deviceTTL : Duration
  pollInterval : Duration
  verifyPath : String
  atTTL_pos : 0 < atTTL
  rtTTL_pos : 0 < rtTTL
  codeTTL_pos : 0 < codeTTL
  deviceTTL_pos : 0 < deviceTTL
  pollInterval_pos : 0 < pollInterval

/-- **Shared state** of the calls of one service. -/
structure Shared where
  clients : MemoryClientRegistry
  tokens : MemoryStore
  devices : MemoryDeviceStore
  /-- `grantEpochs`; an absent entry reads as zero. -/
  grantEpochs : Dict String UInt64
  /-- The keys whose turnstile is held. -/
  locked : List String
  now : Time
  /-- Every value drawn from the random source or presented by a caller so far. -/
  seen : List String
  /-- The values drawn and not handed out. -/
  secret : List String

/-- The service before its first call. -/
def Shared.init (now : Time) : Shared where
  clients := ∅
  tokens := .empty
  devices := .empty
  grantEpochs := ∅
  locked := []
  now := now
  seen := []
  secret := []

/-- `grantEpochKey`. -/
def grantEpochKey (subject clientID : String) : String := subject ++ "\x00" ++ clientID

/-- `grantEpoch`: the current revocation generation of a grant. -/
def Shared.grantEpoch (sh : Shared) (subject clientID : String) : UInt64 :=
  (sh.grantEpochs.get (grantEpochKey subject clientID)).getD 0

/-- A value nobody has drawn, presented or stored under its hash. -/
def Shared.fresh (env : Env) (sh : Shared) (v : String) : Bool :=
  v != "" && !sh.seen.contains v &&
    (sh.tokens.codes.get (env.tokenHash v)).isNone &&
    (sh.tokens.access.get (env.tokenHash v)).isNone &&
    (sh.tokens.refresh.get (env.tokenHash v)).isNone &&
    (sh.tokens.tombstones.get (env.tokenHash v)).isNone &&
    (sh.devices.byDev.get (env.tokenHash v)).isNone

/-- `userCodeAlphabet`. -/
def userCodeAlphabet : String := "BCDFGHJKLMNPQRSTVWXZ"

/-- The codes `newUserCode` can draw: two groups of four letters of the alphabet. -/
def isUserCode (s : String) : Bool :=
  s.length == 9 && s.toList[4]? == some '-' &&
    (s.toList.eraseIdx 4).all userCodeAlphabet.toList.contains

/-- **Atomic operations** of the shared objects. -/
inductive Op
  | receive (values : List String)
  | respond (values : List String)
  | now
  | newToken
  | newUserCode
  | advanceClock (d : ℕ)
  | getClient (id : String)
  | createClient (c : Client)
  | setStatus (id : String) (status : ClientStatus)
  | rotateSecret (id : String) (secretHash : List UInt8)
  | removeClient (id : String)
  | saveCode (value : String) (c : AuthorizationCode)
  | getCode (value : String)
  | consumeCode (value : String)
  | saveAccess (value : String) (t : AccessToken)
  | getAccess (value : String)
  | deleteAccess (value : String)
  | tokenOwner (value : String)
  | spentRefreshOwner (value : String)
  | saveRefresh (value : String) (t : RefreshToken)
  | getRefresh (value : String)
  | consumeRefresh (value : String)
  | deleteRefresh (value : String)
  | refreshFamily (value : String)
  | revokeRefreshFamily (familyID : String)
  | deleteBySubjectClient (subject clientID : String)
  | revokeTokens (f : TokenFilter)
  | sweepTokens (now : Time)
  | grantEpoch (subject clientID : String)
  | bumpGrantEpoch (subject clientID : String)
  | lock (key : String)
  | unlock (key : String)
  | saveDevice (deviceCode : String) (d : DeviceAuthorizationRecord)
  | getDevice (deviceCode : String)
  | getDeviceByUserCode (userCode : String)
  | recordPoll (deviceCodeHash : String) (at_ : Time)
  | recordDecision (deviceCodeHash : String) (d : DeviceDecision)
  | consumeDevice (deviceCodeHash : String)
  | sweepDevices (now : Time)

/-- What an operation answers. -/
@[reducible] def Op.Res : Op → Type
  | now => Time
  | newToken | newUserCode => String
  | getClient _ => Except Error Client
  | createClient _ | setStatus _ _ | rotateSecret _ _ => Except Error Unit
  | getCode _ | consumeCode _ => Except Error AuthorizationCode
  | getAccess _ => Except Error AccessToken
  | tokenOwner _ | spentRefreshOwner _ | refreshFamily _ => Except Error String
  | getRefresh _ | consumeRefresh _ => Except Error RefreshToken
  | revokeRefreshFamily _ | revokeTokens _ | sweepTokens _ | sweepDevices _ => ℕ
  | grantEpoch _ _ => UInt64
  | saveDevice _ _ | recordPoll _ _ => Except Error Unit
  | getDevice _ | getDeviceByUserCode _ => Except Error DeviceAuthorizationRecord
  | recordDecision _ _ => Bool
  | consumeDevice _ => Option DeviceAuthorizationRecord
  | _ => Unit

/-- An operation that may be refused: the new state where it is not, the old one where it is. -/
def settle {α : Type} (old : α) : Except Error α → Except Error Unit × α
  | .ok new => (.ok (), new)
  | .error e => (.error e, old)

/-- **One atomic operation.** The choice is the value the random source yields; the other
operations do not look at it. -/
def exec (cfg : Config) (op : Op) (ω : String) (sh : Shared) : Option (op.Res × Shared) :=
  let env := cfg.env
  match op with
  | .receive values =>
    if values.all fun v => !sh.secret.contains v then
      some ((), { sh with seen := values ++ sh.seen })
    else none
  | .respond values =>
    some ((), { sh with secret := sh.secret.filter fun v => !values.contains v })
  | .now => some (sh.now, sh)
  | .newToken =>
    if sh.fresh env ω then
      some (ω, { sh with seen := ω :: sh.seen, secret := ω :: sh.secret })
    else none
  | .newUserCode => if isUserCode ω then some (ω, sh) else none
  | .advanceClock d => some ((), { sh with now := sh.now + d })
  | .getClient id => some (sh.clients.lookup id, sh)
  | .createClient c =>
    let x := settle sh.clients (sh.clients.create c)
    some (x.1, { sh with clients := x.2 })
  | .setStatus id status =>
    let x := settle sh.clients (sh.clients.setStatus id status)
    some (x.1, { sh with clients := x.2 })
  | .rotateSecret id secretHash =>
    let x := settle sh.clients (sh.clients.rotateSecret env id secretHash)
    some (x.1, { sh with clients := x.2 })
  | .removeClient id => some ((), { sh with clients := sh.clients.remove id })
  | .saveCode value c => some ((), { sh with tokens := sh.tokens.saveCode env value c })
  | .getCode value => some (sh.tokens.getCode env value, sh)
  | .consumeCode value =>
    let x := sh.tokens.consumeCode env value
    some (x.1, { sh with tokens := x.2 })
  | .saveAccess value t => some ((), { sh with tokens := sh.tokens.saveAccess env value t })
  | .getAccess value => some (sh.tokens.getAccess env value, sh)
  | .deleteAccess value => some ((), { sh with tokens := sh.tokens.deleteAccess env value })
  | .tokenOwner value => some (sh.tokens.tokenOwner env value, sh)
  | .spentRefreshOwner value =>
    some (sh.tokens.spentRefreshOwner env (some sh.now) value, sh)
  | .saveRefresh value t => some ((), { sh with tokens := sh.tokens.saveRefresh env value t })
  | .getRefresh value => some (sh.tokens.getRefresh env value, sh)
  | .consumeRefresh value =>
    let x := sh.tokens.consumeRefresh env (some sh.now) value
    some (x.1, { sh with tokens := x.2 })
  | .deleteRefresh value => some ((), { sh with tokens := sh.tokens.deleteRefresh env value })
  | .refreshFamily value => some (sh.tokens.refreshFamily env (some sh.now) value, sh)
  | .revokeRefreshFamily familyID =>
    let x := sh.tokens.revokeRefreshFamily familyID
    some (x.1, { sh with tokens := x.2 })
  | .deleteBySubjectClient subject clientID =>
    some ((), { sh with tokens := sh.tokens.deleteBySubjectClient subject clientID })
  | .revokeTokens f =>
    let x := sh.tokens.revokeTokens f
    some (x.1, { sh with tokens := x.2 })
  | .sweepTokens now =>
    let x := sh.tokens.sweepExpired now
    some (x.1, { sh with tokens := x.2 })
  | .grantEpoch subject clientID => some (sh.grantEpoch subject clientID, sh)
  | .bumpGrantEpoch subject clientID =>
    some ((), { sh with grantEpochs :=
      sh.grantEpochs.set (grantEpochKey subject clientID) (sh.grantEpoch subject clientID + 1) })
  | .lock key =>
    if sh.locked.contains key then none else some ((), { sh with locked := key :: sh.locked })
  | .unlock key => some ((), { sh with locked := sh.locked.erase key })
  | .saveDevice deviceCode d =>
    let x := settle sh.devices (sh.devices.saveDevice env deviceCode d)
    some (x.1, { sh with devices := x.2 })
  | .getDevice deviceCode => some (sh.devices.getDevice env deviceCode, sh)
  | .getDeviceByUserCode userCode => some (sh.devices.getDeviceByUserCode env userCode, sh)
  | .recordPoll deviceCodeHash at_ =>
    let x := settle sh.devices (sh.devices.recordPoll deviceCodeHash at_)
    some (x.1, { sh with devices := x.2 })
  | .recordDecision deviceCodeHash d =>
    let x := sh.devices.recordDecision deviceCodeHash d
    some (x.1, { sh with devices := x.2 })
  | .consumeDevice deviceCodeHash =>
    let x := sh.devices.consumeDevice env deviceCodeHash
    some (x.1, { sh with devices := x.2 })
  | .sweepDevices now =>
    let x := sh.devices.sweepExpired env now
    some (x.1, { sh with devices := x.2 })

/-- The shared objects as a machine. -/
abbrev machine (cfg : Config) : Machine where
  Op := Op
  Res := Op.Res
  Sh := Shared
  Choice := String
  exec := exec cfg

end Re0Auth.OAuth

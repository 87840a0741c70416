import Re0Auth.OAuth.Machine

/-!
# The calls of the authorization server

The service of `oauth/as.go`, `oauth/grants.go` and `oauth/device.go`, and the management calls on
its registry and stores, as programs over the shared objects. A program makes the same accesses in
the same order as the source, one operation each, and its failures carry the source's error codes
and texts. What the source writes to the audit log is left out: nothing reads it back, and a failed
write is only logged.

The stores are the in-memory ones, whose writes do not fail; the branches of the source that handle
a failing write have no counterpart here.
-/

namespace Re0Auth.OAuth

open Lib

/-! ## Requests and responses -/

/-- `AuthorizationRequest`. -/
structure AuthorizationRequest where
  clientID : String
  redirectURI : String
  subject : String
  scopes : List Scope
  explicit : List Scope
  state : String
  codeChallenge : String
  codeChallengeMethod : String

/-- `AuthorizationResponse`. -/
structure AuthorizationResponse where
  code : String
  state : String
  redirectURI : String
  deriving DecidableEq, Repr

/-- `CodeExchangeRequest`. -/
structure CodeExchangeRequest where
  clientID : String
  clientSecret : String
  code : String
  redirectURI : String
  codeVerifier : String
  deriving DecidableEq

/-- `RefreshRequest`. -/
structure RefreshRequest where
  clientID : String
  clientSecret : String
  refreshToken : String
  scopes : List Scope

/-- `RevokeRequest`; the type hint is not read. -/
structure RevokeRequest where
  clientID : String
  clientSecret : String
  token : String

/-- `TokenResponse`. -/
structure TokenResponse where
  accessToken : String
  tokenType : String
  expiresIn : Int
  refreshToken : String
  scope : String
  deriving DecidableEq, Repr

/-- `TokenInfo`. -/
structure TokenInfo where
  active : Bool
  subject : String
  clientID : String
  scopes : List Scope
  expiresAt : Time
  deriving DecidableEq, Repr

/-- `DeviceAuthorizationRequest`. -/
structure DeviceAuthorizationRequest where
  clientID : String
  clientSecret : String
  scopes : List Scope

/-- `DeviceAuthorizationResponse`. -/
structure DeviceAuthorizationResponse where
  deviceCode : String
  userCode : String
  verificationURI : String
  verificationURIComplete : String
  expiresIn : Int
  interval : Int
  deriving DecidableEq, Repr

/-- `DeviceCodeExchangeRequest`. -/
structure DeviceCodeExchangeRequest where
  clientID : String
  clientSecret : String
  deviceCode : String
  deriving DecidableEq

/-- `DeviceAuthorization`: a pending request as the verification page sees it. -/
structure DeviceAuthorization where
  userCode : String
  client : Client
  scopes : List Descriptor
  expiresAt : Time
  deriving DecidableEq, Repr

/-! ## Helpers -/

/-- Programs of the service: they may fail with an error. -/
abbrev Svc (cfg : Config) := ExceptT Error (Prog (machine cfg))

variable {cfg : Config}

/-- One operation. -/
def act (o : Op) : Svc cfg o.Res := ExceptT.lift (Prog.call (M := machine cfg) o)

/-- `client`: an unknown client and a wrong secret are answered alike. -/
def client (id secret : String) (auth : Bool) : Svc cfg Client := do
  let r : Except Error Client ← act (.getClient id)
  match r with
  | .error .clientNotFound => throw (.protocol "invalid_client" "invalid client credentials")
  | .error e => throw e
  | .ok c =>
    if auth && c.type = .confidential && !c.authenticate cfg.env secret then
      throw (.protocol "invalid_client" "invalid client credentials")
    else return c

/-- `validPKCEChallenge`: 43 characters of the base64url alphabet. -/
def validPKCEChallenge (challenge : String) : Bool :=
  challenge.length == 43 && challenge.toList.all fun c =>
    ('A' ≤ c && c ≤ 'Z') || ('a' ≤ c && c ≤ 'z') || ('0' ≤ c && c ≤ '9') || c == '-' || c == '_'

/-- `verifyPKCE`. -/
def verifyPKCE (env : Env) (verifier challenge method : String) : Bool :=
  if verifier == "" || !validPKCEChallenge challenge || method != "S256" then false
  else env.s256 verifier == challenge

/-- `resolveScopes`: every requested scope is known and registered to the client. -/
def resolveScopes (client : Client) (scopes : List Scope) : Svc cfg (Client × List Descriptor) :=
  match resolve cfg.env cfg.scopes scopes client.id with
  | .error text => throw (.protocol "invalid_scope" text)
  | .ok descriptors =>
    match scopes.find? fun sc => !client.allowsScope sc with
    | some sc => throw (.protocol "invalid_scope" ("client is not registered for " ++ sc))
    | none => return (client, descriptors)

/-- `describeScopes`. -/
def describeScopes (clientID : String) (scopes : List Scope) :
    Svc cfg (Client × List Descriptor) := do
  let c ← client clientID "" false
  resolveScopes c scopes

/-- `describeAuthenticatedScopes`. -/
def describeAuthenticatedScopes (clientID clientSecret : String) (scopes : List Scope) :
    Svc cfg (Client × List Descriptor) := do
  let c ← client clientID clientSecret true
  resolveScopes c scopes

/-! ## The authorization code flow -/

/-- `describe`: what must hold before any consent is shown. -/
def describe (req : AuthorizationRequest) : Svc cfg (Client × List Descriptor) := do
  let c ← client req.clientID "" false
  if !c.allowsRedirect cfg.env req.redirectURI then
    throw (.protocol "invalid_request" "redirect_uri is not registered")
  else if !validPKCEChallenge req.codeChallenge || req.codeChallengeMethod != "S256" then
    throw (.protocol "invalid_request" "PKCE with S256 is required")
  else resolveScopes c req.scopes

/-- **`Authorize`** writes a code for what the subject approved. -/
def authorize (req : AuthorizationRequest) : Svc cfg AuthorizationResponse := do
  let (c, descriptors) ← describe req
  if req.subject = "" then throw (.protocol "access_denied" "user is not authenticated")
  else
    match checkExplicit descriptors req.explicit with
    | .error e => throw e
    | .ok () =>
      let code : String ← act .newToken
      let now : Time ← act .now
      act (.saveCode code {
        clientID := c.id, subject := req.subject, scopes := req.scopes,
        redirectURI := req.redirectURI, codeChallenge := req.codeChallenge,
        codeChallengeMethod := req.codeChallengeMethod, expiresAt := now + cfg.codeTTL })
      return { code := code, state := req.state, redirectURI := req.redirectURI }

/-- `checkCodeBinding`: expiry first, then the client, the redirect URI and PKCE. -/
def checkCodeBinding (c : Client) (code : AuthorizationCode) (req : CodeExchangeRequest) :
    Svc cfg Unit := do
  let now : Time ← act .now
  if ¬ now < code.expiresAt then throw (.protocol "invalid_grant" "authorization code has expired")
  else if code.clientID ≠ c.id then
    throw (.protocol "invalid_grant" "authorization code was issued to another client")
  else if code.redirectURI ≠ req.redirectURI then
    throw (.protocol "invalid_grant" "redirect_uri mismatch")
  else if !verifyPKCE cfg.env req.codeVerifier code.codeChallenge code.codeChallengeMethod then
    throw (.protocol "invalid_grant" "PKCE verification failed")
  else return ()

/-- The family of a new pair: a first issuance is a family of its own. -/
def issueFamily (familyID : String) : Svc cfg String :=
  if familyID = "" then act .newToken else pure familyID

/-- `issue` mints a pair. The empty family mints a new one. -/
def issue (clientID subject : String) (scopes : List Scope) (familyID : String) :
    Svc cfg TokenResponse := do
  let at_ : String ← act .newToken
  let rt : String ← act .newToken
  let familyID ← issueFamily familyID
  let now : Time ← act .now
  act (.saveAccess at_ {
    clientID := clientID, subject := subject, scopes := scopes, familyID := familyID,
    issuedAt := now, expiresAt := now + cfg.atTTL })
  act (.saveRefresh rt {
    clientID := clientID, subject := subject, scopes := scopes, familyID := familyID,
    issuedAt := now, expiresAt := now + cfg.rtTTL })
  return {
    accessToken := at_, tokenType := "Bearer", expiresIn := cfg.atTTL / second,
    refreshToken := rt, scope := joinScopes scopes }

/-- `issueGuarded` mints a pair and takes it back when the grant's epoch has moved since it was
captured. -/
def issueGuarded (clientID subject : String) (scopes : List Scope) (familyID : String)
    (epoch : UInt64) : Svc cfg TokenResponse := do
  let resp ← issue clientID subject scopes familyID
  let current : UInt64 ← act (.grantEpoch subject clientID)
  if current = epoch then return resp
  else
    act (.deleteAccess resp.accessToken)
    act (.deleteRefresh resp.refreshToken)
    throw (.protocol "invalid_grant" "the grant was revoked while this request was in flight")

/-- **`Exchange`**: the code is read and judged, then claimed, and only the claim mints. -/
def exchange (req : CodeExchangeRequest) : Svc cfg TokenResponse := do
  let c ← client req.clientID req.clientSecret true
  let read : Except Error AuthorizationCode ← act (.getCode req.code)
  match read with
  | .error .tokenNotFound =>
    throw (.protocol "invalid_grant" "authorization code is unknown or already used")
  | .error e => throw e
  | .ok code =>
    checkCodeBinding c code req
    let epoch : UInt64 ← act (.grantEpoch code.subject c.id)
    let claim : Except Error AuthorizationCode ← act (.consumeCode req.code)
    match claim with
    | .error .tokenNotFound =>
      throw (.protocol "invalid_grant" "authorization code is unknown or already used")
    | .error e => throw e
    | .ok claimed =>
      checkCodeBinding c claimed req
      issueGuarded c.id claimed.subject claimed.scopes "" epoch

/-! ## Refresh -/

/-- `refreshFamilyKey`, from what `RefreshFamily` answered for the value: the family where it is
known, the value itself where it is not. -/
def refreshKey (env : Env) (value : String) : Except Error String → Except Error String
  | .ok family =>
    if family ≠ "" then .ok ("refresh:family:" ++ family)
    else .ok ("refresh:value:" ++ env.tokenHash value)
  | .error .tokenNotFound => .ok ("refresh:value:" ++ env.tokenHash value)
  | .error e => .error e

/-- The part of `Refresh` that runs while the turnstile is held: claim the value, then either
revoke the family of a replay or rotate. -/
def claimRefresh (c : Client) (req : RefreshRequest) (epoch : UInt64) : Svc cfg TokenResponse := do
  let claim : Except Error RefreshToken ← act (.consumeRefresh req.refreshToken)
  match claim with
  | .error (.refreshTokenReused familyID) =>
    let _removed : ℕ ← act (.revokeRefreshFamily familyID)
    throw (.protocol "invalid_grant" "refresh token is unknown or already used")
  | .error .tokenNotFound =>
    throw (.protocol "invalid_grant" "refresh token is unknown or already used")
  | .error e => throw e
  | .ok rt =>
    let now : Time ← act .now
    if ¬ now < rt.expiresAt then throw (.protocol "invalid_grant" "refresh token has expired")
    else if rt.clientID ≠ c.id then
      throw (.protocol "invalid_grant" "refresh token was issued to another client")
    else if req.scopes.isEmpty then issueGuarded c.id rt.subject rt.scopes rt.familyID epoch
    else if !req.scopes.all rt.scopes.contains then
      throw (.protocol "invalid_scope" "refresh cannot widen the granted scope")
    else issueGuarded c.id rt.subject req.scopes rt.familyID epoch

/-- The refusal of a value `TokenOwner` reports as another client's; an unknown value is left to
the claim. -/
def foreignOwner (c : Client) : Except Error String → Option Error
  | .ok owner =>
    if owner ≠ c.id then
      some (.protocol "invalid_grant" "refresh token was issued to another client")
    else none
  | .error .tokenNotFound => none
  | .error e => some e

/-- The grant epoch of the refresh record that was read, zero where none was found. -/
def heldEpoch (clientID : String) : Except Error RefreshToken → Svc cfg UInt64
  | .ok held => act (.grantEpoch held.subject clientID)
  | .error _ => pure 0

/-- **`Refresh`**: ownership and the epoch are read first, then everything from the claim on runs
under the family's turnstile, which is released whatever the outcome. -/
def refresh (req : RefreshRequest) : Svc cfg TokenResponse := do
  let c ← client req.clientID req.clientSecret true
  let owner : Except Error String ← act (.tokenOwner req.refreshToken)
  match foreignOwner c owner with
  | some e => throw e
  | none =>
    let held : Except Error RefreshToken ← act (.getRefresh req.refreshToken)
    let epoch ← heldEpoch c.id held
    let family : Except Error String ← act (.refreshFamily req.refreshToken)
    match refreshKey cfg.env req.refreshToken family with
    | .error e => throw e
    | .ok key =>
      act (.lock key)
      let outcome : Except Error TokenResponse ← ExceptT.lift (claimRefresh c req epoch).run
      act (.unlock key)
      match outcome with
      | .error e => throw e
      | .ok resp => return resp

/-! ## Revocation and introspection -/

/-- `revocableOwner`: a spent refresh value is owned by whoever its tombstone names. -/
def revocableOwner (value : String) : Svc cfg (Except Error String) := do
  let owner : Except Error String ← act (.tokenOwner value)
  match owner with
  | .ok owner => return .ok owner
  | .error .tokenNotFound =>
    let spent : Except Error String ← act (.spentRefreshOwner value)
    return spent
  | .error e => return .error e

/-- **`Revoke`**: an unknown value and another client's value are answered alike, and nothing is
revoked for either. -/
def revoke (req : RevokeRequest) : Svc cfg Unit := do
  let c ← client req.clientID req.clientSecret true
  let owner ← revocableOwner req.token
  match owner with
  | .error .tokenNotFound => return ()
  | .error e => throw e
  | .ok owner =>
    if owner ≠ c.id then return ()
    else
      act (.deleteAccess req.token)
      act (.deleteRefresh req.token)

/-- **`RevokeGrant`**: the epoch moves first, then every token, code and tombstone of the pair
goes. -/
def revokeGrant (subject clientID : String) : Svc cfg Unit := do
  if subject = "" || clientID = "" then
    throw (.other "oauth: subject and client id are required")
  else
    act (.bumpGrantEpoch subject clientID)
    act (.deleteBySubjectClient subject clientID)

/-- `TokenInfo` of a token that grants nothing. -/
def inactive : TokenInfo := ⟨false, "", "", [], 0⟩

/-- **`Introspect`**. -/
def introspect (accessToken : String) : Svc cfg TokenInfo := do
  let r : Except Error AccessToken ← act (.getAccess accessToken)
  match r with
  | .error .tokenNotFound => return inactive
  | .error e => throw e
  | .ok t =>
    let now : Time ← act .now
    if ¬ now < t.expiresAt then return inactive
    else
      let r : Except Error Client ← act (.getClient t.clientID)
      match r with
      | .error .clientNotFound => return inactive
      | .error e => throw e
      | .ok _ => return ⟨true, t.subject, t.clientID, t.scopes, t.expiresAt⟩

/-- **`AuthenticateClient`**: a public client cannot authenticate. -/
def authenticateClient (clientID clientSecret : String) : Svc cfg Unit := do
  let c ← client clientID clientSecret true
  if c.type ≠ .confidential then
    throw (.protocol "invalid_client" "public clients cannot authenticate")
  else return ()

/-! ## The device flow -/

/-- `freeUserCode`, with the attempts left: a code that names a request is drawn again. -/
def freeUserCode : ℕ → Svc cfg String
  | 0 => throw (.other "oauth: could not allocate a unique user code")
  | n + 1 => do
    let code : String ← act .newUserCode
    let r : Except Error DeviceAuthorizationRecord ← act (.getDeviceByUserCode code)
    match r with
    | .ok _ => freeUserCode n
    | .error (.userCodeConflict _) => freeUserCode n
    | .error .deviceNotFound => return code
    | .error e => throw e

/-- `saveDeviceAuthorization`, with the attempts left: only a taken user code is tried again. -/
def saveDeviceAuthorization (deviceCode : String) (base : DeviceAuthorizationRecord) :
    ℕ → Svc cfg String
  | 0 => throw (.other "oauth: could not allocate a unique user code")
  | n + 1 => do
    let userCode ← freeUserCode 8
    let r : Except Error Unit ← act (.saveDevice deviceCode { base with userCode := userCode })
    match r with
    | .ok () => return userCode
    | .error (.userCodeConflict _) => saveDeviceAuthorization deviceCode base n
    | .error e => throw e

/-- `strings.TrimRight(s, "/")`. -/
def trimRightSlash (s : String) : String :=
  String.ofList (s.toList.reverse.dropWhile (· = '/')).reverse

/-- **`BeginDeviceAuthorization`**. -/
def beginDeviceAuthorization (req : DeviceAuthorizationRequest) :
    Svc cfg DeviceAuthorizationResponse := do
  if req.scopes.isEmpty then throw (.protocol "invalid_scope" "scope is required")
  else
    let (c, _) ← describeAuthenticatedScopes req.clientID req.clientSecret req.scopes
    let deviceCode : String ← act .newToken
    let now : Time ← act .now
    let userCode ← saveDeviceAuthorization deviceCode {
      deviceCodeHash := "", userCode := "", clientID := c.id, scopes := req.scopes,
      status := .pending, subject := "", explicit := [], expiresAt := now + cfg.deviceTTL,
      lastPoll := 0 } 8
    let verify := trimRightSlash cfg.issuer ++ cfg.verifyPath
    let interval := (cfg.pollInterval + second - 1) / second
    return {
      deviceCode := deviceCode, userCode := userCode, verificationURI := verify,
      verificationURIComplete := verify ++ "?user_code=" ++ cfg.env.queryEscape userCode,
      expiresIn := cfg.deviceTTL / second,
      interval := if interval < 1 then 1 else interval }

/-- **`PollDeviceAuthorization`**: only the consume of an approved request mints. -/
def pollDeviceAuthorization (req : DeviceCodeExchangeRequest) : Svc cfg TokenResponse := do
  let c ← client req.clientID req.clientSecret true
  let r : Except Error DeviceAuthorizationRecord ← act (.getDevice req.deviceCode)
  match r with
  | .error .deviceNotFound => throw (.protocol "invalid_grant" "device code is unknown")
  | .error e => throw e
  | .ok rec =>
    if rec.clientID ≠ c.id then
      throw (.protocol "invalid_grant" "device code was issued to another client")
    else
      let now : Time ← act .now
      if ¬ now < rec.expiresAt then
        throw (.protocol "expired_token" "the device code has expired")
      else
        match rec.status with
        | .denied => throw (.protocol "access_denied" "the user denied the request")
        | .pending =>
          if rec.lastPoll ≠ 0 && now < rec.lastPoll + cfg.pollInterval then
            throw (.protocol "slow_down" "polling faster than the advertised interval")
          else
            let r : Except Error Unit ← act (.recordPoll rec.deviceCodeHash now)
            match r with
            | .error e => throw e
            | .ok () => throw (.protocol "authorization_pending" "the user has not decided yet")
        | .approved =>
          let epoch : UInt64 ← act (.grantEpoch rec.subject c.id)
          let consumed : Option DeviceAuthorizationRecord ←
            act (.consumeDevice rec.deviceCodeHash)
          match consumed with
          | none => throw (.protocol "invalid_grant" "device code has already been redeemed")
          | some consumed => issueGuarded c.id consumed.subject consumed.scopes "" epoch

/-- **`DescribeDeviceAuthorization`**. -/
def describeDeviceAuthorization (userCode : String) : Svc cfg DeviceAuthorization := do
  let r : Except Error DeviceAuthorizationRecord ← act (.getDeviceByUserCode userCode)
  match r with
  | .error e => throw e
  | .ok rec =>
    let now : Time ← act .now
    if ¬ now < rec.expiresAt then throw .deviceNotFound
    else if rec.status ≠ .pending then throw .deviceNotFound
    else
      let (c, descriptors) ← describeScopes rec.clientID rec.scopes
      return ⟨rec.userCode, c, descriptors, rec.expiresAt⟩

/-- The scopes a decision grants: the requested ones when it names none, otherwise the named ones,
which may only narrow the request. -/
def grantedScopes (requested : List Scope) : Option (List Scope) → Except Error (List Scope)
  | none => .ok requested
  | some [] => .error (.protocol "invalid_request"
      "an approval must grant at least one scope; omit scopes to grant the requested set")
  | some scopes =>
    if scopes.all requested.contains then .ok scopes
    else .error (.protocol "invalid_scope" "the decision cannot widen the requested scope")

/-- The last step of a decision: the store refuses it when another decision came first. -/
def recordDecision (deviceCodeHash : String) (d : DeviceDecision) : Svc cfg Unit := do
  let applied : Bool ← act (.recordDecision deviceCodeHash d)
  if applied then return ()
  else throw (.protocol "invalid_request" "the request has already been decided")

/-- **`DecideDeviceAuthorization`**: an approval may only narrow the scopes and must tick every
scope that needs explicit consent. -/
def decideDeviceAuthorization (userCode subject : String) (approve : Bool)
    (scopes : Option (List Scope)) (explicit : List Scope) : Svc cfg Unit := do
  if subject = "" then throw (.protocol "access_denied" "user is not authenticated")
  else
    let r : Except Error DeviceAuthorizationRecord ← act (.getDeviceByUserCode userCode)
    match r with
    | .error e => throw e
    | .ok rec =>
      let now : Time ← act .now
      if ¬ now < rec.expiresAt then throw .deviceNotFound
      else if rec.status ≠ .pending then
        throw (.protocol "invalid_request" "the request has already been decided")
      else if !approve then
        recordDecision rec.deviceCodeHash ⟨.denied, "", [], []⟩
      else
        match grantedScopes rec.scopes scopes with
        | .error e => throw e
        | .ok granted =>
          let (_, descriptors) ← describeScopes rec.clientID granted
          match checkExplicit descriptors explicit with
          | .error e => throw e
          | .ok () => recordDecision rec.deviceCodeHash ⟨.approved, subject, granted, explicit⟩

/-! ## Management -/

/-- `MemoryClientRegistry.Delete`: the client's tokens go first, through the token store
`NewService` has published to the registry, then the registration. -/
def deleteClient (id : String) : Svc cfg Unit := do
  let _removed : ℕ ← act (.revokeTokens ⟨id, ""⟩)
  act (.removeClient id)

/-- **Calls** on one service and its stores. `advanceClock` is the passing of time. -/
inductive Call
  | authorize (req : AuthorizationRequest)
  | describeAuthorization (req : AuthorizationRequest)
  | exchange (req : CodeExchangeRequest)
  | refresh (req : RefreshRequest)
  | revoke (req : RevokeRequest)
  | revokeGrant (subject clientID : String)
  | introspect (accessToken : String)
  | authenticateClient (clientID clientSecret : String)
  | beginDevice (req : DeviceAuthorizationRequest)
  | pollDevice (req : DeviceCodeExchangeRequest)
  | describeDevice (userCode : String)
  | decideDevice (userCode subject : String) (approve : Bool) (scopes : Option (List Scope))
      (explicit : List Scope)
  | createClient (c : Client)
  | setStatus (id : String) (status : ClientStatus)
  | rotateSecret (id : String) (secretHash : List UInt8)
  | deleteClient (id : String)
  | revokeTokens (f : TokenFilter)
  | sweepTokens (now : Time)
  | sweepDevices (now : Time)
  | advanceClock (d : ℕ)

/-- What a call returns when it does not fail. -/
inductive Reply
  | authorization (r : AuthorizationResponse)
  | details (client : Client) (scopes : List Descriptor)
  | token (r : TokenResponse)
  | info (r : TokenInfo)
  | device (r : DeviceAuthorizationResponse)
  | deviceDetails (r : DeviceAuthorization)
  | count (n : ℕ)
  | done
  deriving DecidableEq, Repr

/-- The secret values a reply hands to the caller. -/
def Reply.handsOut : Reply → List String
  | authorization r => [r.code]
  | token r => [r.accessToken, r.refreshToken]
  | device r => [r.deviceCode]
  | _ => []

/-- The token values a call presents. -/
def Call.presents : Call → List String
  | exchange req => [req.code]
  | refresh req => [req.refreshToken]
  | revoke req => [req.token]
  | introspect accessToken => [accessToken]
  | pollDevice req => [req.deviceCode]
  | _ => []

/-- A call that is one operation of the registry, which may be refused. -/
def attempt (m : Svc cfg (Except Error Unit)) : Svc cfg Reply := do
  let r ← m
  match r with
  | .error e => throw e
  | .ok () => return .done

/-- What a call does between taking in its request and answering it. -/
def Call.work (cfg : Config) : Call → Svc cfg Reply
  | authorize req => .authorization <$> OAuth.authorize req
  | describeAuthorization req => (fun (c, d) => .details c d) <$> describe req
  | exchange req => .token <$> OAuth.exchange req
  | refresh req => .token <$> OAuth.refresh req
  | revoke req => (fun _ => .done) <$> OAuth.revoke req
  | revokeGrant subject clientID => (fun _ => .done) <$> OAuth.revokeGrant subject clientID
  | introspect accessToken => .info <$> OAuth.introspect accessToken
  | authenticateClient clientID clientSecret =>
    (fun _ => .done) <$> OAuth.authenticateClient clientID clientSecret
  | beginDevice req => .device <$> beginDeviceAuthorization req
  | pollDevice req => .token <$> pollDeviceAuthorization req
  | describeDevice userCode => .deviceDetails <$> describeDeviceAuthorization userCode
  | decideDevice userCode subject approve scopes explicit =>
    (fun _ => .done) <$> decideDeviceAuthorization userCode subject approve scopes explicit
  | createClient c => attempt (act (.createClient c))
  | setStatus id status => attempt (act (.setStatus id status))
  | rotateSecret id secretHash => attempt (act (.rotateSecret id secretHash))
  | deleteClient id => (fun _ => .done) <$> OAuth.deleteClient id
  | revokeTokens f => .count <$> act (.revokeTokens f)
  | sweepTokens now => .count <$> act (.sweepTokens now)
  | sweepDevices now => .count <$> act (.sweepDevices now)
  | advanceClock d => (fun _ => .done) <$> act (.advanceClock d)

/-- A whole call: the request comes in, the work is done, the answer goes out. -/
def Call.body (cfg : Config) (c : Call) : Prog (machine cfg) (Except Error Reply) := do
  Prog.call (M := machine cfg) (.receive c.presents)
  let r ← (c.work cfg).run
  Prog.call (M := machine cfg) (.respond (match r with
    | .ok reply => reply.handsOut
    | .error _ => []))
  return r

/-- The service, for interleaved runs. -/
abbrev service (cfg : Config) : Service (machine cfg) where
  Call := Call
  Reply := Except Error Reply
  body := Call.body cfg

end Re0Auth.OAuth

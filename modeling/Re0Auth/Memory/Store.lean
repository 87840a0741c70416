import Re0Auth.Lib.Index
import Re0Auth.Oidc.Requests

/-!
# The in-memory OpenID store

`OIDCStore` (`internal/store/memory/oidc.go`). Every method runs under the store's one lock, so each is
one function from the store to an answer and the store after it; the clock and the values a method
draws are arguments.

* **`OIDCStore`**: the maps and the indexes beside them;
* **`putAccessLocked`** .. **`deleteCodesForRequestLocked`**: the writes that keep map and index
  together;
* **`removeAll`**: the loops that delete while they range over a map;
* the methods of `op.Storage` and of the operator plane, under their own names.
-/

namespace Re0Auth.Memory

open Lib OAuth Oidc

/-- `codeRecord`. -/
structure CodeRecord where
  requestID : String
  expiresAt : Time
  deriving DecidableEq, Repr

/-- `accessToken`. -/
structure AccessToken where
  id : String
  clientID : String
  subject : String
  scopes : List String
  issuedAt : Time
  expiresAt : Time
  deriving DecidableEq, Repr

/-- `refreshToken`. -/
structure RefreshToken where
  valueHash : String
  idHash : String
  clientID : String
  subject : String
  scopes : List String
  amr : List String
  audience : List String
  authTime : Option Time
  nonce : String
  familyID : String
  issuedAt : Time
  expiresAt : Time
  deriving DecidableEq, Repr

/-- The request `TokenRequestByRefreshToken` builds from a record. -/
def RefreshToken.request (r : RefreshToken) : Oidc.RefreshRequest where
  idHash := r.idHash
  clientID := r.clientID
  subject := r.subject
  scopes := r.scopes
  amr := r.amr
  audience := r.audience
  authTime := r.authTime
  nonce := r.nonce

/-- `refreshTombstone`. -/
structure RefreshTombstone where
  familyID : String
  idHash : String
  clientID : String
  subject : String
  expiresAt : Time
  deriving DecidableEq, Repr

/-- `deviceRecord`; `lastPoll` is Go's zero time before the first poll. -/
structure DeviceRecord where
  deviceCodeHash : String
  userCode : String
  clientID : String
  scopes : List String
  expiresAt : Time
  done : Bool
  denied : Bool
  subject : String
  authTime : Time
  lastPoll : Time
  deriving DecidableEq, Repr

/-- `deviceRecord.state`. -/
def DeviceRecord.state (d : DeviceRecord) : DeviceAuthorizationState where
  clientID := d.clientID
  scopes := d.scopes
  expires := d.expiresAt
  done := d.done
  denied := d.denied
  subject := d.subject
  authTime := d.authTime

/-- The zero value of `deviceRecord`, which a map answers with for a key it does not hold. -/
def DeviceRecord.zero : DeviceRecord := ⟨"", "", "", [], 0, false, false, "", 0, 0⟩

/-- `revocationScope`. -/
inductive RevocationScope
  | global
  | client (id : String)
  | subject (id : String)
  deriving DecidableEq, Repr

/-- **`OIDCStore`**: the maps by token hash, device code hash and request id, and the indexes. -/
structure OIDCStore where
  authRequests : Dict String AuthRequest
  authRequestExpiry : Dict String Time
  codes : Dict String CodeRecord
  codeByRequest : Index String String
  accessTokens : Dict String AccessToken
  refreshTokens : Dict String RefreshToken
  refreshTombstones : Dict String RefreshTombstone
  revocationEpochs : Dict RevocationScope ℤ
  devices : Dict String DeviceRecord
  userCodes : Dict String String
  accessBySubject : Index String String
  refreshBySubject : Index String String
  requestBySubject : Index String String
  refreshByIDHash : Dict String String
  maxTombstones : ℕ
  maxPendingAuthRequests : ℕ
  maxPendingDeviceAuthorizations : ℕ
  accessTTL : Duration
  refreshTTL : Duration
  requestTTL : Duration

/-- `OIDCOptions`: the bounds and the lifetime of a pending request; zero asks for the default. -/
structure OIDCOptions where
  requestTTL : Duration
  maxRefreshTombstones : ℕ
  maxPendingAuthRequests : ℕ
  maxPendingDeviceAuthorizations : ℕ

/-- `NewOIDCStore`. -/
def newOIDCStore (opts : OIDCOptions) : OIDCStore where
  authRequests := ∅
  authRequestExpiry := ∅
  codes := ∅
  codeByRequest := ∅
  accessTokens := ∅
  refreshTokens := ∅
  refreshTombstones := ∅
  revocationEpochs := ∅
  devices := ∅
  userCodes := ∅
  accessBySubject := ∅
  refreshBySubject := ∅
  requestBySubject := ∅
  refreshByIDHash := ∅
  maxTombstones := if opts.maxRefreshTombstones = 0 then 65536 else opts.maxRefreshTombstones
  maxPendingAuthRequests :=
    if opts.maxPendingAuthRequests = 0 then 131072 else opts.maxPendingAuthRequests
  maxPendingDeviceAuthorizations :=
    if opts.maxPendingDeviceAuthorizations = 0 then 32768 else opts.maxPendingDeviceAuthorizations
  accessTTL := 3600 * second
  refreshTTL := 30 * 24 * 3600 * second
  requestTTL := if opts.requestTTL ≤ 0 then 1800 * second else opts.requestTTL

/-- **Errors** of the store: its sentinels, those of the library and of the registry, and plain texts.
`refused` is the provider library turning a request down between two calls of the store. -/
inductive Err
  | new (text : String)
  | random
  | requestExpired (text : String)
  | refreshTokenSpent
  | grantRevokedInFlight
  | pendingAuthRequestsFull
  | pendingDeviceAuthorizationsFull
  | duplicateUserCode
  | deadlineExceeded
  | reauthenticationRequired
  | tokenNotFound
  | deviceNotFound
  | invalidClient
  | accessDenied (description : String)
  | registry (e : OAuth.Error)
  | invalidTarget
  | refused
  deriving DecidableEq, Repr

/-- `normalizeUserCode`. -/
def normalizeUserCode (env : Env) (code : String) : String :=
  env.toUpper (String.ofList (code.toList.filter (· ≠ '-')))

/-- `subjectIndex.add`: a record without a subject is not filed. -/
def subjectAdd (ix : Index String String) (subject key : String) : Index String String :=
  if subject = "" then ix else ix.add subject key

/-- What `CreateAuthRequest` reads of the library's authorization request. -/
structure AuthorizeParams where
  clientID : String
  redirectURI : String
  responseType : String
  responseMode : String
  scopes : List String
  state : String
  nonce : String
  codeChallenge : String
  codeChallengeMethod : String
  prompt : List String
  maxAge : Option ℕ
  deriving DecidableEq, Repr

/-- The values `CreateAccessAndRefreshTokens` draws, and which tombstone goes when there are too
many. -/
structure MintDraws where
  accessID : String
  value : String
  familyID : String
  evict : ℕ
  deriving DecidableEq, Repr

namespace OIDCStore

/-! ## Indexed writes -/

/-- `putAccessLocked`. -/
def putAccessLocked (s : OIDCStore) (key : String) (t : AccessToken) : OIDCStore :=
  { s with
    accessTokens := s.accessTokens.set key t
    accessBySubject := subjectAdd s.accessBySubject t.subject key }

/-- `deleteAccessLocked`. -/
def deleteAccessLocked (s : OIDCStore) (key : String) : OIDCStore :=
  match s.accessTokens.get key with
  | none => s
  | some t =>
    { s with
      accessTokens := s.accessTokens.del key
      accessBySubject := s.accessBySubject.remove t.subject key }

/-- `putRefreshLocked`. -/
def putRefreshLocked (s : OIDCStore) (key : String) (t : RefreshToken) : OIDCStore :=
  { s with
    refreshTokens := s.refreshTokens.set key t
    refreshBySubject := subjectAdd s.refreshBySubject t.subject key
    refreshByIDHash := s.refreshByIDHash.set t.idHash key }

/-- `deleteRefreshLocked`: the entry by id hash goes only if it still names this record. -/
def deleteRefreshLocked (s : OIDCStore) (key : String) : OIDCStore :=
  match s.refreshTokens.get key with
  | none => s
  | some t =>
    { s with
      refreshTokens := s.refreshTokens.del key
      refreshBySubject := s.refreshBySubject.remove t.subject key
      refreshByIDHash :=
        if s.refreshByIDHash.get t.idHash = some key then s.refreshByIDHash.del t.idHash
        else s.refreshByIDHash }

/-- `deleteRequestLocked`. -/
def deleteRequestLocked (s : OIDCStore) (id : String) : OIDCStore :=
  match s.authRequests.get id with
  | none => s
  | some a =>
    { s with
      authRequests := s.authRequests.del id
      authRequestExpiry := s.authRequestExpiry.del id
      requestBySubject := s.requestBySubject.remove a.subject id }

/-- `putCodeLocked`: a hash that is saved again moves to the new request. -/
def putCodeLocked (s : OIDCStore) (key requestID : String) (expiresAt : Time) : OIDCStore :=
  let index := match s.codes.get key with
    | none => s.codeByRequest
    | some old => s.codeByRequest.remove old.requestID key
  { s with codes := s.codes.set key ⟨requestID, expiresAt⟩, codeByRequest := index.add requestID key }

/-- `deleteCodeLocked`. -/
def deleteCodeLocked (s : OIDCStore) (key : String) : OIDCStore :=
  match s.codes.get key with
  | none => s
  | some c =>
    { s with codes := s.codes.del key, codeByRequest := s.codeByRequest.remove c.requestID key }

/-- `deleteCodesForRequestLocked`, with the number of codes it removes. -/
def deleteCodesForRequestLocked (s : OIDCStore) (requestID : String) : ℕ × OIDCStore :=
  let keys := s.codeByRequest.bucket requestID
  if keys.isEmpty then (0, s)
  else (keys.length,
    { s with codes := keys.foldl Dict.del s.codes, codeByRequest := Dict.del s.codeByRequest requestID })

/-- A device authorization and its user code go. -/
def deleteDevice (env : Env) (s : OIDCStore) (h : String) (d : DeviceRecord) : OIDCStore :=
  { s with devices := s.devices.del h, userCodes := s.userCodes.del (normalizeUserCode env d.userCode) }

/-- A tombstone goes. -/
def deleteTombstone (s : OIDCStore) (key : String) : OIDCStore :=
  { s with refreshTombstones := s.refreshTombstones.del key }

/-! ## Candidate keys -/

/-- `accessKeysLocked`: the subject's records where a subject is given, every record otherwise. -/
def accessKeysLocked (s : OIDCStore) (subject : String) : List String :=
  if subject = "" then s.accessTokens.keys else s.accessBySubject.bucket subject

/-- `refreshKeysLocked`. -/
def refreshKeysLocked (s : OIDCStore) (subject : String) : List String :=
  if subject = "" then s.refreshTokens.keys else s.refreshBySubject.bucket subject

/-- `requestKeysLocked`. -/
def requestKeysLocked (s : OIDCStore) (subject : String) : List String :=
  if subject = "" then s.authRequests.keys else s.requestBySubject.bucket subject

/-- **A loop that deletes** over the keys of a map: `del` is applied to each record that passes the
test; the answer names the records it was applied to. -/
def removeAll {V : Type} (rows : OIDCStore → Dict String V) (p : V → Bool)
    (del : OIDCStore → String → V → OIDCStore) :
    (keys : List String) → OIDCStore → List String × OIDCStore
  | [], s => ([], s)
  | k :: keys, s =>
    match (rows s).get k with
    | none => removeAll rows p del keys s
    | some v =>
      if p v then
        let (gone, s) := removeAll rows p del keys (del s k v)
        (k :: gone, s)
      else removeAll rows p del keys s

/-- The loop over the access tokens of a revocation or a sweep. -/
def removeAccess (p : AccessToken → Bool) (keys : List String) (s : OIDCStore) :
    List String × OIDCStore :=
  removeAll accessTokens p (fun s k _ => s.deleteAccessLocked k) keys s

/-- The loop over the refresh tokens. -/
def removeRefresh (p : RefreshToken → Bool) (keys : List String) (s : OIDCStore) :
    List String × OIDCStore :=
  removeAll refreshTokens p (fun s k _ => s.deleteRefreshLocked k) keys s

/-- The loop over the tombstones of a revocation: the paired access token goes with each. -/
def removeTombstones (p : RefreshTombstone → Bool) (s : OIDCStore) : OIDCStore :=
  (removeAll refreshTombstones p (fun s k ts => (s.deleteTombstone k).deleteAccessLocked ts.idHash)
    s.refreshTombstones.keys s).2

/-- The loops over the pending requests and their codes: the requests that go, and the number of
codes. -/
def removeRequests (p : AuthRequest → Bool) (keys : List String) (s : OIDCStore) :
    ℕ × OIDCStore :=
  let (purged, s) := removeAll authRequests p (fun s id _ => s.deleteRequestLocked id) keys s
  purged.foldl (fun (n, s) id =>
    let (codes, s) := s.deleteCodesForRequestLocked id
    (n + codes, s)) (purged.length, s)

/-- The loop over the device authorizations. -/
def removeDevices (env : Env) (p : DeviceRecord → Bool) (s : OIDCStore) : List String × OIDCStore :=
  removeAll devices p (deleteDevice env) s.devices.keys s

/-! ## Revocation generations -/

/-- The generation of a scope. -/
def epoch (s : OIDCStore) (scope : RevocationScope) : ℤ := (s.revocationEpochs.get scope).getD 0

/-- `revocationEpochsLocked`. -/
def revocationEpochsLocked (s : OIDCStore) (clientID subject : String) : RevocationEpochs where
  global := s.epoch .global
  client := if clientID = "" then 0 else s.epoch (.client clientID)
  subject := if subject = "" then 0 else s.epoch (.subject subject)

/-- One generation moves on. -/
def bump (s : OIDCStore) (scope : RevocationScope) : OIDCStore :=
  { s with revocationEpochs := s.revocationEpochs.set scope (s.epoch scope + 1) }

/-- `bumpRevocationEpochsLocked`. -/
def bumpRevocationEpochsLocked (s : OIDCStore) (clientID subject : String) : OIDCStore :=
  if clientID = "" ∧ subject = "" then s.bump .global
  else
    let s := if clientID = "" then s else s.bump (.client clientID)
    if subject = "" then s else s.bump (.subject subject)

/-! ## Authorization requests and codes -/

/-- `CreateAuthRequest`; `id` is the value it draws. -/
def createAuthRequest (now : Time) (id : String) (req : AuthorizeParams) (userID : String)
    (s : OIDCStore) : Except Err AuthRequest × OIDCStore :=
  if s.maxPendingAuthRequests ≤ s.authRequests.size then (.error .pendingAuthRequestsFull, s)
  else
    let a : AuthRequest :=
      { id := id
        clientID := req.clientID
        redirectURI := req.redirectURI
        responseType := req.responseType
        responseMode := req.responseMode
        scopes := req.scopes
        state := req.state
        nonce := req.nonce
        codeChallenge :=
          if req.codeChallenge = "" then none else some (req.codeChallenge, req.codeChallengeMethod)
        subject := userID
        isDone := false
        authTime := none
        prompt := req.prompt
        maxAge := req.maxAge }
    (.ok a,
     { s with
       authRequests := s.authRequests.set id a
       authRequestExpiry := s.authRequestExpiry.set id (now + s.requestTTL)
       requestBySubject := subjectAdd s.requestBySubject userID id })

/-- `AuthRequestByID`: a request without a deadline is past it. -/
def authRequestByID (now : Time) (id : String) (s : OIDCStore) : Except Err AuthRequest :=
  match s.authRequests.get id with
  | none => .error (.requestExpired "memory: auth request not found")
  | some a =>
    if now < (s.authRequestExpiry.get id).getD 0 then .ok a
    else .error (.requestExpired "memory: auth request is unknown or expired")

/-- **`AuthRequestByCode`** consumes the code and the request, and captures the generations. -/
def authRequestByCode (env : Env) (now : Time) (code : String) (s : OIDCStore) :
    Except Err (AuthRequest × RevocationEpochs) × OIDCStore :=
  let key := env.tokenHash code
  match (s.codes.get key).filter fun c => now < c.expiresAt with
  | none => (.error (.new "memory: authorization code is unknown or expired"), s)
  | some c =>
    match s.authRequests.get c.requestID with
    | none => (.error (.new "memory: auth request not found"), s)
    | some a =>
      (.ok (a, s.revocationEpochsLocked a.clientID a.subject),
       (s.deleteCodeLocked key).deleteRequestLocked c.requestID)

/-- `SaveAuthCode`. -/
def saveAuthCode (env : Env) (now : Time) (id code : String) (s : OIDCStore) : OIDCStore :=
  s.putCodeLocked (env.tokenHash code) id (now + s.requestTTL)

/-- `DeleteAuthRequest`. -/
def deleteAuthRequest (id : String) (s : OIDCStore) : OIDCStore :=
  ((s.deleteRequestLocked id).deleteCodesForRequestLocked id).2

/-- `SetAuthTime`. -/
def setAuthTime (id : String) (at_ : Time) (s : OIDCStore) : Except Err Unit × OIDCStore :=
  match s.authRequests.get id with
  | none => (.error (.new "memory: auth request not found"), s)
  | some a => (.ok (), { s with authRequests := s.authRequests.set id { a with authTime := some at_ } })

/-- `CompleteLogin`: the request moves to the bucket of the subject it is attached to. -/
def completeLogin (now : Time) (id subject : String) (scopes : List String) (s : OIDCStore) :
    Except Err Unit × OIDCStore :=
  match s.authRequests.get id with
  | none => (.error (.new "memory: auth request not found"), s)
  | some a =>
    if a.requiresReauthentication now then (.error .reauthenticationRequired, s)
    else
      (.ok (),
       { s with
         authRequests := s.authRequests.set id
           { a with
             subject := subject
             scopes := scopes
             isDone := true
             authTime := some (a.authTime.getD now) }
         requestBySubject :=
           if a.subject = subject then s.requestBySubject
           else subjectAdd (s.requestBySubject.remove a.subject id) subject id })

/-! ## Tokens -/

/-- `revokeFamilyLocked`: the generations of the family and its tombstones go, each with the access
token it is paired with. -/
def revokeFamilyLocked (familyID : String) (s : OIDCStore) : OIDCStore :=
  if familyID = "" then s
  else
    let (_, s) := removeAll refreshTokens (·.familyID == familyID)
      (fun s k t => (s.deleteRefreshLocked k).deleteAccessLocked t.idHash) s.refreshTokens.keys s
    removeTombstones (·.familyID == familyID) s

/-- Past the bound one arbitrary tombstone goes, unless the new one takes the place of another. -/
def evictTombstone (evict : ℕ) (spent : String) (s : OIDCStore) : OIDCStore :=
  if (s.refreshTombstones.get spent).isNone ∧ s.maxTombstones ≤ s.refreshTombstones.size then
    let keys := s.refreshTombstones.keys
    s.deleteTombstone (keys.getD (evict % keys.length) "")
  else s

/-- The claim of the mint on the presented refresh token: the family it belongs to. -/
def claimRefresh (env : Env) (evict : ℕ) (current : String) (s : OIDCStore) :
    Except Err String × OIDCStore :=
  let spent := env.tokenHash current
  match s.refreshTokens.get spent with
  | none =>
    match s.refreshTombstones.get spent with
    | none => (.error .refreshTokenSpent, s)
    | some ts => (.error .refreshTokenSpent, s.revokeFamilyLocked ts.familyID)
  | some held =>
    let familyID := if held.familyID = "" then spent else held.familyID
    let s := s.evictTombstone evict spent
    let tombstone : RefreshTombstone :=
      { familyID := familyID
        idHash := held.idHash
        clientID := held.clientID
        subject := held.subject
        expiresAt := held.expiresAt }
    let s := { s with refreshTombstones := s.refreshTombstones.set spent tombstone }
    (.ok familyID, s.deleteRefreshLocked spent)

/-- The family of a mint: the one of the refresh token it claims, or a new one. -/
def mintFamily (env : Env) (draws : MintDraws) (current : String) (s : OIDCStore) :
    Except Err String × OIDCStore :=
  if current = "" then (.ok draws.familyID, s) else s.claimRefresh env draws.evict current

/-- The access token of a mint. -/
def mintedAccess (s : OIDCStore) (draws : MintDraws) (now : Time) (request : TokenRequest) :
    AccessToken where
  id := draws.accessID
  clientID := request.clientID
  subject := request.subject
  scopes := withoutOfflineAccess request.scopes
  issuedAt := now
  expiresAt := now + s.accessTTL

/-- `CreateAccessToken`: an access token on its own; `id` is the value it draws. -/
def createAccessToken (env : Env) (now : Time) (id : String) (request : TokenRequest) (s : OIDCStore) :
    Except Err (String × Time) × OIDCStore :=
  let t : AccessToken :=
    { id := id
      clientID := request.clientID
      subject := request.subject
      scopes := withoutOfflineAccess request.scopes
      issuedAt := now
      expiresAt := now + s.accessTTL }
  (.ok (id, t.expiresAt), s.putAccessLocked (env.tokenHash id) t)

/-- The refresh token of a mint. -/
def mintedRefresh (env : Env) (s : OIDCStore) (draws : MintDraws) (now : Time)
    (request : TokenRequest) (familyID : String) : RefreshToken where
  valueHash := env.tokenHash draws.value
  idHash := env.tokenHash draws.accessID
  clientID := request.clientID
  subject := request.subject
  scopes := withoutOfflineAccess request.scopes
  amr := request.amr
  audience := request.audience
  authTime := request.recordedAuthTime
  nonce := request.nonce
  familyID := familyID
  issuedAt := now
  expiresAt := now + s.refreshTTL

/-- **`CreateAccessAndRefreshTokens`**: claim the presented refresh token or draw a family, compare
the generations, store the pair. -/
def createAccessAndRefreshTokens (env : Env) (draws : MintDraws) (now : Time) (request : TokenRequest)
    (captured : Option RevocationEpochs) (current : String) (s : OIDCStore) :
    Except Err (String × String × Time) × OIDCStore :=
  let access := s.mintedAccess draws now request
  match s.mintFamily env draws current with
  | (.error e, s) => (.error e, s)
  | (.ok familyID, s) =>
    if revocationUnchanged captured (s.revocationEpochsLocked access.clientID access.subject) then
      let refresh := s.mintedRefresh env draws now request familyID
      (.ok (draws.accessID, draws.value, access.expiresAt),
       (s.putAccessLocked (env.tokenHash draws.accessID) access).putRefreshLocked
         (env.tokenHash draws.value) refresh)
    else (.error .grantRevokedInFlight, s)

/-- **`TokenRequestByRefreshToken`** captures the generations; a spent value takes its family down. -/
def tokenRequestByRefreshToken (env : Env) (now : Time) (value : String) (s : OIDCStore) :
    Except Err (Oidc.RefreshRequest × RevocationEpochs) × OIDCStore :=
  let spent := env.tokenHash value
  match (s.refreshTokens.get spent).filter fun r => now < r.expiresAt with
  | some r => (.ok (r.request, s.revocationEpochsLocked r.clientID r.subject), s)
  | none =>
    match (s.refreshTombstones.get spent).filter fun ts => now < ts.expiresAt with
    | some ts => (.error .refreshTokenSpent, s.revokeFamilyLocked ts.familyID)
    | none => (.error .tokenNotFound, s)

/-- `TerminateSession`. -/
def terminateSession (userID clientID : String) (s : OIDCStore) : OIDCStore :=
  let (_, s) := removeAccess (·.clientID == clientID) (s.accessBySubject.bucket userID) s
  let (_, s) := removeRefresh (·.clientID == clientID) (s.refreshBySubject.bucket userID) s
  removeTombstones (fun ts => ts.subject == userID && ts.clientID == clientID) s

/-- The tombstones of an id hash go; their access token is gone already. -/
def forgetTombstones (idHash : String) (s : OIDCStore) : OIDCStore :=
  (removeAll refreshTombstones (·.idHash == idHash) (fun s k _ => s.deleteTombstone k)
    s.refreshTombstones.keys s).2

/-- `RevokeToken`: by the access token's id, by the id of an access token that is gone already, by the
refresh token's value. A token of another client is left alone. -/
def revokeToken (env : Env) (tokenOrTokenID clientID : String) (s : OIDCStore) : OIDCStore :=
  let h := env.tokenHash tokenOrTokenID
  match s.accessTokens.get h with
  | some t =>
    if t.clientID ≠ clientID then s
    else
      let s := s.deleteAccessLocked h
      let s := match s.refreshByIDHash.get h with
        | none => s
        | some k => s.deleteRefreshLocked k
      s.forgetTombstones h
  | none =>
    match s.refreshByIDHash.get h with
    | some key =>
      if (s.refreshTokens.get key).any (·.clientID != clientID) then s
      else ((s.deleteRefreshLocked key).deleteAccessLocked h).forgetTombstones h
    | none =>
      match s.refreshTokens.get h with
      | none => s
      | some t =>
        if t.clientID ≠ clientID then s
        else ((s.deleteRefreshLocked h).deleteAccessLocked t.idHash).deleteTombstone h

/-! ## Device authorizations -/

/-- The first half of `StoreDeviceAuthorization`: a user code is free, or its request is past its
deadline and goes. -/
def freeUserCode (now : Time) (key : String) (s : OIDCStore) : Except Err OIDCStore :=
  match s.userCodes.get key with
  | none => .ok s
  | some h =>
    if (s.devices.get h).any fun rec => ¬ now < rec.expiresAt then
      .ok { s with devices := s.devices.del h, userCodes := s.userCodes.del key }
    else .error .duplicateUserCode

/-- `StoreDeviceAuthorization`. -/
def storeDeviceAuthorization (env : Env) (now : Time) (clientID deviceCode userCode : String)
    (expires : Time) (scopes : List String) (s : OIDCStore) : Except Err Unit × OIDCStore :=
  let key := normalizeUserCode env userCode
  match s.freeUserCode now key with
  | .error e => (.error e, s)
  | .ok s =>
    let h := env.tokenHash deviceCode
    if (s.devices.get h).isNone ∧ s.maxPendingDeviceAuthorizations ≤ s.devices.size then
      (.error .pendingDeviceAuthorizationsFull, s)
    else
      let d : DeviceRecord :=
        { DeviceRecord.zero with
          deviceCodeHash := h
          userCode := userCode
          clientID := clientID
          scopes := scopes
          expiresAt := expires }
      (.ok (), { s with devices := s.devices.set h d, userCodes := s.userCodes.set key h })

/-- **`GetDeviceAuthorizatonState`**: an approved request is consumed, with the generations captured;
one that is past its deadline is handed back as not approved. -/
def getDeviceAuthorizatonState (env : Env) (now : Time) (clientID deviceCode : String) (s : OIDCStore) :
    Except Err (DeviceAuthorizationState × Option RevocationEpochs) × OIDCStore :=
  let h := env.tokenHash deviceCode
  match (s.devices.get h).filter fun d => d.clientID = clientID with
  | none => (.error (.new "memory: device authorization not found"), s)
  | some d =>
    let polled := { s with devices := s.devices.set h { d with lastPoll := now } }
    if !d.done && !d.denied && d.lastPoll != 0 && now < d.lastPoll + defaultDevicePollInterval then
      (.error .deadlineExceeded, polled)
    else if d.done && !d.denied then
      let state := if now < d.expiresAt then d.state else { d.state with done := false }
      (.ok (state, some (s.revocationEpochsLocked d.clientID d.subject)), s.deleteDevice env h d)
    else (.ok (d.state, none), polled)

/-- `DeviceByUserCode`. -/
def deviceByUserCode (env : Env) (userCode : String) (s : OIDCStore) :
    Except Err DeviceAuthorizationState :=
  match (s.userCodes.get (normalizeUserCode env userCode)).bind s.devices.get with
  | none => .error (.new "memory: device authorization not found")
  | some d => .ok d.state

/-- `approveDevice`: a user code without its request reads as the zero record, which is past its
deadline. -/
def approveDevice (env : Env) (now : Time) (userCode subject : String) (scopes : Option (List String))
    (s : OIDCStore) : Except Err Unit × OIDCStore :=
  match s.userCodes.get (normalizeUserCode env userCode) with
  | none => (.error .deviceNotFound, s)
  | some h =>
    let d := (s.devices.get h).getD .zero
    if d.done || d.denied || !decide (now < d.expiresAt) then (.error .deviceNotFound, s)
    else
      let d' :=
        { d with done := true, subject := subject, authTime := now, scopes := scopes.getD d.scopes }
      (.ok (), { s with devices := s.devices.set h d' })

/-- `DenyDevice`: an approval does not stop it. -/
def denyDevice (env : Env) (userCode : String) (s : OIDCStore) : Except Err Unit × OIDCStore :=
  match s.userCodes.get (normalizeUserCode env userCode) with
  | none => (.error .deviceNotFound, s)
  | some h =>
    let d := (s.devices.get h).getD .zero
    if d.denied then (.error .deviceNotFound, s)
    else (.ok (), { s with devices := s.devices.set h { d with denied := true } })

/-! ## Sweeps and revocations -/

/-- The first loop of `SweepExpired`: it ranges over the deadlines. -/
def sweepRequests (now : Time) (s : OIDCStore) : List String × OIDCStore :=
  removeAll authRequestExpiry (· < now) (fun s id _ => s.deleteRequestLocked id)
    s.authRequestExpiry.keys s

/-- `SweepExpired`. -/
def sweepExpired (env : Env) (now : Time) (s : OIDCStore) : ℕ × OIDCStore :=
  let (requests, s) := s.sweepRequests now
  let (codes, s) := removeAll codes (·.expiresAt < now) (fun s k _ => s.deleteCodeLocked k)
    s.codes.keys s
  let (access, s) := removeAccess (fun t => ¬ now < t.expiresAt) s.accessTokens.keys s
  let (refresh, s) := removeRefresh (fun t => ¬ now < t.expiresAt) s.refreshTokens.keys s
  let (tombstones, s) := removeAll refreshTombstones (fun ts => ¬ now < ts.expiresAt)
    (fun s k _ => s.deleteTombstone k) s.refreshTombstones.keys s
  let (devices, s) := removeDevices env (·.expiresAt < now) s
  (requests.length + codes.length + access.length + refresh.length + tombstones.length +
    devices.length, s)

/-- What the loops of a revocation range over and delete. -/
structure Selection where
  accessKeys : OIDCStore → List String
  access : AccessToken → Bool
  refreshKeys : OIDCStore → List String
  refresh : RefreshToken → Bool
  tombstone : RefreshTombstone → Bool
  requestKeys : OIDCStore → List String
  request : AuthRequest → Bool
  device : DeviceRecord → Bool

/-- The loops of a revocation; the number counts access and refresh tokens. -/
def removeSelected (env : Env) (sel : Selection) (s : OIDCStore) : ℕ × OIDCStore :=
  let (access, s) := removeAccess sel.access (sel.accessKeys s) s
  let (refresh, s) := removeRefresh sel.refresh (sel.refreshKeys s) s
  let s := removeTombstones sel.tombstone s
  let (_, s) := removeRequests sel.request (sel.requestKeys s) s
  let (_, s) := removeDevices env sel.device s
  (access.length + refresh.length, s)

/-- What `RevokeGrant` selects: the records of the subject, by the indexes, that are the client's. -/
def grantSelection (subject clientID : String) : Selection where
  accessKeys s := s.accessBySubject.bucket subject
  access t := t.clientID == clientID
  refreshKeys s := s.refreshBySubject.bucket subject
  refresh t := t.clientID == clientID
  tombstone ts := ts.subject == subject && ts.clientID == clientID
  requestKeys s := s.requestBySubject.bucket subject
  request a := a.clientID == clientID
  device d := d.clientID == clientID && d.subject == subject

/-- **`RevokeGrant`**. -/
def revokeGrant (env : Env) (subject clientID : String) (s : OIDCStore) : Except Err Unit × OIDCStore :=
  if subject = "" ∨ clientID = "" then
    (.error (.new "memory: subject and client id are required"), s)
  else
    let s := s.bumpRevocationEpochsLocked clientID subject
    (.ok (), (s.removeSelected env (grantSelection subject clientID)).2)

/-- What `RevokeTokens` selects. -/
def filterSelection (f : TokenFilter) : Selection where
  accessKeys s := s.accessKeysLocked f.subject
  access t := f.matches t.clientID t.subject
  refreshKeys s := s.refreshKeysLocked f.subject
  refresh t := f.matches t.clientID t.subject
  tombstone ts := f.matches ts.clientID ts.subject
  requestKeys s := s.requestKeysLocked f.subject
  request a := f.matches a.clientID a.subject
  device d := f.matches d.clientID d.subject

/-- **`RevokeTokens`**. -/
def revokeTokens (env : Env) (f : TokenFilter) (s : OIDCStore) : ℕ × OIDCStore :=
  (s.bumpRevocationEpochsLocked f.clientID f.subject).removeSelected env (filterSelection f)

/-- `PurgeSubject`: what is pending for a subject goes. -/
def purgeSubject (env : Env) (subject : String) (s : OIDCStore) : Except Err ℕ × OIDCStore :=
  if subject = "" then (.error (.new "memory: subject is required"), s)
  else
    let (requests, s) := removeRequests (·.subject == subject) (s.requestKeysLocked subject) s
    let (devices, s) := removeDevices env (·.subject == subject) s
    (.ok (requests + devices.length), s)

end OIDCStore

end Re0Auth.Memory

import Re0Auth.Postgres.Schema

/-!
# The methods of the Postgres adapter

`internal/store/postgres/oidc.go`, `revocation_epochs.go` and the deletion of a client in `oauth.go`,
statement by statement.

* **`authRequestByCode`**, **`tokenRequestByRefreshToken`**, **`getDeviceAuthorizatonState`**: the
  steps that resolve a grant and capture its revocation generations;
* **`createAccessAndRefreshTokens`**: the step that mints, and rotates a refresh token;
* **`revokeGrant`**, **`revokeTokens`**, **`deleteClient`**: the revocations;
* **`Transactions`**: the transactions the methods are made of, so that a method can be run statement
  by statement or transaction by transaction.

A method that refuses after the last statement of a transaction commits before it refuses; one that
fails on the way rolls back (**`inTx`**).
-/

namespace Re0Auth.Postgres

open Lib OAuth Oidc

variable {env : Env} {α : Type}

/-- One statement of a method. -/
def stmt (m : Prog (machine env) (Except Err α)) : Sql env α := ExceptT.mk m

/-- The store clock. -/
def readClock : Sql env Time := liftM (Prog.call (M := machine env) .now)

/-- `RandomValue`. -/
def randomValue : Sql env String := stmt (Prog.call (M := machine env) .random)

/-- `fmt.Errorf("..: %w", err)`. -/
def wrapping (context : String) (m : Sql env α) : Sql env α :=
  ExceptT.mk do
    let r ← m.run
    return r.mapError (.wrap context)

/-- How the body of a transaction ends when no statement fails: the transaction is committed and the
method goes on with a value or refuses, or it is rolled back and the method goes on. -/
inductive Outcome (α : Type)
  | keep (a : α)
  | refuse (e : Err)
  | abandon (a : α)

/-- A transaction with a deferred rollback: where a statement fails, nothing is kept. `ctx` is put
around a failure of the begin or the commit. -/
def inTx (ctx : Err → Err) (body : ℕ → Sql env (Outcome α)) : Sql env α := do
  let began : Except Err ℕ ← liftM (Prog.call (M := machine env) .begin)
  match began with
  | .error e => throw (ctx e)
  | .ok t =>
    let result : Except Err (Outcome α) ← liftM (body t).run
    match result with
    | .error e =>
      liftM (Prog.call (M := machine env) (.rollback t))
      throw e
    | .ok (.abandon a) =>
      liftM (Prog.call (M := machine env) (.rollback t))
      return a
    | .ok (.keep a) => finishTx ctx t (.ok a)
    | .ok (.refuse e) => finishTx ctx t (.error e)
where
  /-- The commit, and the answer once it has gone through. -/
  finishTx (ctx : Err → Err) (t : ℕ) (answer : Except Err α) : Sql env α := do
    let committed : Except Err Unit ← liftM (Prog.call (M := machine env) (.commit t))
    match committed with
    | .error e =>
      liftM (Prog.call (M := machine env) (.rollback t))
      throw (ctx e)
    | .ok () => ExceptT.mk (pure answer)

/-! ## Statements on several rows -/

/-- The rows a `DELETE` has found go one by one; a row another transaction has deleted meanwhile is
passed over. -/
def deleteRows (t : ℕ) (i : Tbl) : List String → Sql env (List (Row i))
  | [] => return []
  | k :: ks => do
    let row ← stmt (Prog.call (M := machine env) (.delete t i k))
    let rows ← deleteRows t i ks
    return row.toList ++ rows

/-- `DELETE .. WHERE .. RETURNING`. -/
def deleteWhere (t : ℕ) (i : Tbl) (q : Snapshot Row → String → Row i → Bool) :
    Sql env (List (Row i)) := do
  let keys ← stmt (Prog.call (M := machine env) (.scan t i q none))
  deleteRows t i keys

/-- `SELECT .. FOR SHARE` locks the rows it has found one by one. -/
def shareRows (t : ℕ) (i : Tbl) : List String → Sql env (List (String × Row i))
  | [] => return []
  | k :: ks => do
    let row ← stmt (Prog.call (M := machine env) (.share t i k))
    let rows ← shareRows t i ks
    return (row.map (k, ·)).toList ++ rows

/-- `revokeBatchSize`. -/
def revokeBatchSize : ℕ := 1000

/-- `execBatched` repeats a bounded `DELETE` until a batch removes fewer rows than its bound. The
loop of the source has no limit of its own; `fuel` is one, and a run that would go on beyond it does
not come to an end here. -/
def execBatched (t : ℕ) (i : Tbl) (q : Snapshot Row → String → Row i → Bool) :
    (fuel : ℕ) → Sql env ℕ
  | 0 => do
    liftM (Prog.call (M := machine env) .spin)
    return 0
  | fuel + 1 => do
    let keys ← stmt (Prog.call (M := machine env) (.scan t i q (some revokeBatchSize)))
    let rows ← deleteRows t i keys
    if rows.length < revokeBatchSize then return rows.length
    else
      let more ← execBatched t i q fuel
      return rows.length + more

/-- The rows of an owner the filter matches, `revokePredicate`: an empty field of the filter drops
out. -/
def ownedBy (f : TokenFilter) (i : Tbl) (row : Row i) : Bool :=
  (owner i row).any fun o => f.matches o.1 o.2

/-- `revokeMatching`. -/
def revokeMatching (fuel t : ℕ) (f : TokenFilter) : List Tbl → Sql env ℕ
  | [] => return 0
  | i :: tables => do
    let n ← execBatched t i (fun _ _ row => ownedBy f i row) fuel
    let total ← revokeMatching fuel t f tables
    return n + total

/-- The codes whose authorization request the filter matches. -/
def codesOf (p : AuthRequestRow → Bool) (s : Snapshot Row) (row : CodeRow) : Bool :=
  (s .authRequests).any fun r => r.1 == row.requestID && p r.2

/-- `revokePendingAuthorizations`: first the codes, whose only link to their owner is the
request. -/
def revokePendingAuthorizations (fuel t : ℕ) (f : TokenFilter) : Sql env ℕ := do
  let codes ← execBatched t .codes (fun s _ row => codesOf (ownedBy f .authRequests) s row) fuel
  let requests ← execBatched t .authRequests (fun _ _ row => ownedBy f .authRequests row) fuel
  return codes + requests

/-! ## Revocation generations -/

/-- `revocationScopeKeys`. -/
def revocationScopeKeys (clientID subject : String) : List String :=
  if clientID = "" ∧ subject = "" then ["*"]
  else
    (if clientID = "" then [] else ["client:" ++ clientID]) ++
      (if subject = "" then [] else ["subject:" ++ subject])

/-- One round of the loops of `bumpRevocationEpochs`. -/
def bumpEpoch (t : ℕ) (key : String) : Sql env Unit :=
  if key = "*" then do
    let _ ← stmt (Prog.call (M := machine env) (.update t .revocationEpochs "*" (· + 1)))
  else stmt (Prog.call (M := machine env) (.upsert t .revocationEpochs key (1 : ℤ) (· + 1)))

/-- `bumpRevocationEpochs`. -/
def bumpRevocationEpochs (t : ℕ) (clientID subject : String) : Sql env Unit :=
  (revocationScopeKeys clientID subject).forM (bumpEpoch t)

/-- The generations in the rows a query has returned. -/
def epochsOf (clientID subject : String) (rows : List (String × ℤ)) : RevocationEpochs :=
  rows.foldl (fun e r =>
    if r.1 = "*" then { e with global := r.2 }
    else if clientID ≠ "" ∧ r.1 = "client:" ++ clientID then { e with client := r.2 }
    else if subject ≠ "" ∧ r.1 = "subject:" ++ subject then { e with subject := r.2 }
    else e) ⟨0, 0, 0⟩

/-- `captureRevocationEpochs`: what a resolving step hands to the mint. -/
def captureRevocationEpochs (t : Option ℕ) (clientID subject : String) :
    Sql env RevocationEpochs := do
  let rows ← stmt (Prog.call (M := machine env)
    (.select t .revocationEpochs (revocationScopeKeys clientID subject)))
  return epochsOf clientID subject rows

/-- `checkRevocationEpochs`: the rows are read under `FOR SHARE`. -/
def checkRevocationEpochs (t : ℕ) (clientID subject : String)
    (captured : Option RevocationEpochs) : Sql env Unit := do
  let keys ← stmt (Prog.call (M := machine env) (.scan t .revocationEpochs
    (fun _ k _ => (revocationScopeKeys clientID subject).contains k) none))
  let rows ← shareRows t .revocationEpochs keys
  if revocationUnchanged captured (epochsOf clientID subject rows) then return ()
  else throw .grantRevokedInFlight

/-! ## Resolving a grant -/

/-- **`AuthRequestByCode`**: the code and its request are consumed and the generations captured in
one transaction. -/
def authRequestByCode (code : String) : Sql env (AuthRequest × RevocationEpochs) :=
  inTx id fun t => do
    let now ← readClock
    let codes ← wrapping "postgres: claim authorization code"
      (deleteWhere t .codes fun _ k row => k == env.tokenHash code && now < row.expiresAt)
    match codes.head? with
    | none => throw .codeUnknown
    | some claimed =>
      let requests ← wrapping "postgres: auth request"
        (deleteWhere t .authRequests fun _ k _ => k == claimed.requestID)
      match requests.head? with
      | none => throw .authRequestNotFound
      | some row =>
        let epochs ← wrapping "postgres: capture revocation epochs"
          (captureRevocationEpochs (some t) row.clientID row.subject)
        return .keep (row.request, epochs)

/-- `revokeFamilyTx`: the access rows the family's generations name, then the live generation, then
the spent ones. -/
def revokeFamilyTx (t : ℕ) (familyID : String) : Sql env Unit := do
  let _ ← deleteWhere t .accessTokens fun s k _ =>
    (s .refreshTokens).any (fun r => r.2.familyID == familyID && r.2.idHash == k) ||
      (s .tombstones).any (fun r => r.2.familyID == familyID && r.2.idHash == k)
  let _ ← deleteWhere t .refreshTokens fun _ _ row => row.familyID == familyID
  let _ ← deleteWhere t .tombstones fun _ _ row => row.familyID == familyID

/-- The family a spent value's tombstone names. -/
def spentFamily (t : ℕ) (value : String) (now : Time) : Sql env (Option String) := do
  let rows ← stmt (Prog.call (M := machine env) (.select (some t) .tombstones [env.tokenHash value]))
  return (rows.find? fun r => now < r.2.expiresAt).map fun r => r.2.familyID

/-- The part of `TokenRequestByRefreshToken` for a value without a live row: the replay of a spent
value revokes its family, and every way out is an error. -/
def replayed (value : String) : Sql env Empty :=
  inTx (.wrap "postgres: revoke replayed refresh token family") fun t => do
    let now ← readClock
    let family ← wrapping "postgres: revoke replayed refresh token family" (spentFamily t value now)
    match family with
    | none => throw .tokenNotFound
    | some familyID =>
      wrapping "postgres: revoke replayed refresh token family" (revokeFamilyTx t familyID)
      return .refuse .refreshTokenSpent

/-- The live row of a refresh token, `none` where there is none or it has expired. -/
def loadRefresh (value : String) (now : Time) : Sql env (Option RefreshRow) := do
  let rows ← wrapping "postgres: load refresh token"
    (stmt (Prog.call (M := machine env) (.select none .refreshTokens [env.tokenHash value])))
  return (rows.find? fun r => now < r.2.expiresAt).map (·.2)

/-- The first transaction of `GetDeviceAuthorizatonState`: an approved request is consumed. -/
def consumeDevice (now : Time) (clientID deviceCode : String) :
    Sql env (Option (DeviceAuthorizationState × RevocationEpochs)) :=
  inTx (.wrap "postgres: consume device authorization") fun t => do
    let rows ← wrapping "postgres: consume device authorization"
      (deleteWhere t .devices fun _ k row => k == env.tokenHash deviceCode &&
        row.clientID == clientID && row.done && !row.denied && now < row.expiresAt)
    match rows.head? with
    | none => return .abandon none
    | some row =>
      let epochs ← wrapping "postgres: capture revocation epochs"
        (captureRevocationEpochs (some t) row.clientID row.subject)
      return .keep (some (row.state, epochs))

/-- The second transaction: the poll of a pending request moves its anchor. The answer is the old
anchor, `none` where there is no pending request. -/
def recordDevicePoll (now : Time) (clientID deviceCode : String) :
    Sql env (Option (Option Time)) :=
  inTx (.wrap "postgres: record device poll") fun t => do
    let keys ← wrapping "postgres: record device poll"
      (stmt (Prog.call (M := machine env) (.scan t .devices (fun _ k row =>
        k == env.tokenHash deviceCode && row.clientID == clientID && !row.done && !row.denied) none)))
    match keys.head? with
    | none => return .abandon none
    | some k =>
      -- the row is locked and judged again as it is now
      let row ← wrapping "postgres: record device poll"
        (stmt (Prog.call (M := machine env) (.update t .devices k id)))
      match row.filter fun d => d.clientID == clientID && !d.done && !d.denied with
      | none => return .abandon none
      | some d =>
        let _ ← wrapping "postgres: record device poll"
          (stmt (Prog.call (M := machine env)
            (.update t .devices k fun d => { d with lastPoll := some now })))
        return .keep (some d.lastPoll)

/-- `deviceState`. -/
def deviceState (clientID deviceCode : String) : Sql env DeviceAuthorizationState := do
  let rows ← wrapping "postgres: device authorization"
    (stmt (Prog.call (M := machine env) (.select none .devices [env.tokenHash deviceCode])))
  match rows.find? fun r => r.2.clientID == clientID with
  | none => throw .deviceNotFound
  | some (_, row) => return row.state

/-- An approved request past its deadline is deleted. -/
def expireDevice (clientID deviceCode : String) : Sql env Unit :=
  inTx (.wrap "postgres: expire device authorization") fun t => do
    let _ ← wrapping "postgres: expire device authorization"
      (deleteWhere t .devices fun _ k row =>
        k == env.tokenHash deviceCode && row.clientID == clientID)
    return .keep ()

/-! ## Minting -/

/-- The lifetimes `NewOIDCStore` sets. -/
def accessTTL : Duration := 3600 * second

@[inherit_doc accessTTL]
def refreshTTL : Duration := 30 * 24 * 3600 * second

/-- The two inserts of a mint. -/
def insertPair (t : ℕ) (request : TokenRequest) (accessID value familyID : String) (now : Time) :
    Sql env Unit := do
  let scopes := withoutOfflineAccess request.scopes
  wrapping "postgres: create access token" (stmt (Prog.call (M := machine env)
    (.insert t .accessTokens (env.tokenHash accessID) {
      clientID := request.clientID, subject := request.subject, scopes := scopes
      issuedAt := now, expiresAt := now + accessTTL })))
  wrapping "postgres: create refresh token" (stmt (Prog.call (M := machine env)
    (.insert t .refreshTokens (env.tokenHash value) {
      idHash := env.tokenHash accessID, clientID := request.clientID, subject := request.subject
      scopes := scopes, amr := request.amr, audience := request.audience
      authTime := request.recordedAuthTime, nonce := request.nonce, familyID := familyID
      issuedAt := now, expiresAt := now + refreshTTL })))

/-- What `CreateAccessAndRefreshTokens` has put together before its transaction. -/
structure Mint where
  request : TokenRequest
  captured : Option RevocationEpochs
  /-- The refresh token presented, empty for a first issuance. -/
  current : String
  accessID : String
  value : String
  now : Time

/-- The transaction of **`CreateAccessAndRefreshTokens`**: the generations are checked under a share
lock; a presented refresh token is claimed by a `DELETE` and leaves a tombstone; the pair is written.
A presented token that is gone and has left a tombstone revokes its family. -/
def mint (m : Mint) : Sql env Time :=
  inTx id fun t => do
    checkRevocationEpochs t m.request.clientID m.request.subject m.captured
    if m.current = "" then
      let familyID ← randomValue
      insertPair t m.request m.accessID m.value familyID m.now
      return .keep (m.now + accessTTL)
    else
      let rows ← wrapping "postgres: rotate refresh token"
        (deleteWhere t .refreshTokens fun _ k row =>
          k == env.tokenHash m.current && m.now < row.expiresAt)
      match rows.head? with
      | some spent =>
        let familyID := if spent.familyID = "" then env.tokenHash m.current else spent.familyID
        wrapping "postgres: record spent refresh token" (stmt (Prog.call (M := machine env)
          (.insert t .tombstones (env.tokenHash m.current) {
            familyID := familyID, idHash := spent.idHash, clientID := spent.clientID
            subject := spent.subject, expiresAt := spent.expiresAt })))
        insertPair t m.request m.accessID m.value familyID m.now
        return .keep (m.now + accessTTL)
      | none =>
        let family ← wrapping "postgres: look up spent refresh token"
          (spentFamily t m.current m.now)
        match family with
        | none => throw .refreshTokenSpent
        | some familyID =>
          wrapping "postgres: revoke refresh token family" (revokeFamilyTx t familyID)
          return .refuse .refreshTokenSpent

/-! ## Revocations -/

/-- The rows of one client and one subject. -/
def ofGrant (subject clientID : String) (i : Tbl) (row : Row i) : Bool :=
  (owner i row).any fun o => o.2 == subject && o.1 == clientID

/-- **`RevokeGrant`**. -/
def revokeGrant (subject clientID : String) : Sql env Unit :=
  if subject = "" ∨ clientID = "" then throw .ownerRequired
  else inTx id fun t => do
    bumpRevocationEpochs t clientID subject
    let _ ← deleteWhere t .accessTokens fun _ _ row => ofGrant subject clientID .accessTokens row
    let _ ← deleteWhere t .refreshTokens fun _ _ row => ofGrant subject clientID .refreshTokens row
    let _ ← deleteWhere t .tombstones fun _ _ row => ofGrant subject clientID .tombstones row
    let _ ← deleteWhere t .devices fun _ _ row => ofGrant subject clientID .devices row
    let _ ← deleteWhere t .codes fun s _ row =>
      codesOf (ofGrant subject clientID .authRequests) s row
    let _ ← deleteWhere t .authRequests fun _ _ row => ofGrant subject clientID .authRequests row
    return .keep ()

/-- **`RevokeTokens`**: codes, tombstones and device requests go with the tokens and are not
counted. -/
def revokeTokens (fuel : ℕ) (f : TokenFilter) : Sql env ℕ :=
  inTx id fun t => do
    bumpRevocationEpochs t f.clientID f.subject
    let total ← revokeMatching fuel t f [.accessTokens, .refreshTokens]
    let _ ← revokeMatching fuel t f [.tombstones]
    let _ ← revokePendingAuthorizations fuel t f
    let _ ← revokeMatching fuel t f [.devices]
    return .keep total

/-- **`Clients.Delete`**: the rows of both engines go with the registration. -/
def deleteClient (fuel : ℕ) (id : String) : Sql env Unit :=
  inTx (fun e => e) fun t => do
    let f : TokenFilter := ⟨id, ""⟩
    let _ ← revokeMatching fuel t f [.accessTokens, .refreshTokens, .tombstones, .devices]
    let _ ← revokeMatching fuel t f [.retired .accessTokens, .retired .refreshTokens,
      .retired .codes, .retired .refreshTombstones, .retired .deviceAuthorizations]
    let _ ← revokePendingAuthorizations fuel t f
    let _ ← deleteWhere t .clients fun _ k _ => k == id
    return .keep ()

/-! ## Methods of several transactions -/

/-- The transactions the methods of the adapter are made of, as programs over a machine: the
database, where they are their statements, or one on which each of them is a single step. -/
structure Transactions (M : Machine) where
  now : ExceptT Err (Prog M) Time
  random : ExceptT Err (Prog M) String
  authRequestByCode (code : String) : ExceptT Err (Prog M) (AuthRequest × RevocationEpochs)
  loadRefresh (value : String) (now : Time) : ExceptT Err (Prog M) (Option RefreshRow)
  replayed (value : String) : ExceptT Err (Prog M) Empty
  captureEpochs (clientID subject : String) : ExceptT Err (Prog M) RevocationEpochs
  consumeDevice (now : Time) (clientID deviceCode : String) :
    ExceptT Err (Prog M) (Option (DeviceAuthorizationState × RevocationEpochs))
  recordDevicePoll (now : Time) (clientID deviceCode : String) :
    ExceptT Err (Prog M) (Option (Option Time))
  deviceState (clientID deviceCode : String) : ExceptT Err (Prog M) DeviceAuthorizationState
  expireDevice (clientID deviceCode : String) : ExceptT Err (Prog M) Unit
  mint (m : Mint) : ExceptT Err (Prog M) Time

/-- The transactions as their statements. -/
def sql (env : Env) : Transactions (machine env) where
  now := readClock
  random := randomValue
  authRequestByCode := authRequestByCode
  loadRefresh := loadRefresh
  replayed := replayed
  captureEpochs clientID subject := wrapping "postgres: capture revocation epochs"
    (captureRevocationEpochs none clientID subject)
  consumeDevice := consumeDevice
  recordDevicePoll := recordDevicePoll
  deviceState := deviceState
  expireDevice := expireDevice
  mint := mint

variable {M : Machine} (X : Transactions M)

/-- **`TokenRequestByRefreshToken`**: two reads outside a transaction, or the replay of a spent
value. -/
def tokenRequestByRefreshToken (value : String) :
    ExceptT Err (Prog M) (Oidc.RefreshRequest × RevocationEpochs) := do
  let now ← X.now
  let live ← X.loadRefresh value now
  match live with
  | none =>
    let spent ← X.replayed value
    return spent.elim
  | some row =>
    let epochs ← X.captureEpochs row.clientID row.subject
    return (row.request, epochs)

/-- **`GetDeviceAuthorizatonState`**: an approved request is consumed and its generations captured;
the poll of a pending one is recorded and judged; anything else is read. -/
def getDeviceAuthorizatonState (clientID deviceCode : String) :
    ExceptT Err (Prog M) (DeviceAuthorizationState × Option RevocationEpochs) := do
  let now ← X.now
  let approved ← X.consumeDevice now clientID deviceCode
  match approved with
  | some (state, epochs) => return (state, some epochs)
  | none =>
    let previous ← X.recordDevicePoll now clientID deviceCode
    match previous with
    | some last =>
      if last.any fun at_ => now - defaultDevicePollInterval < at_ then throw .slowDown
      else
        let state ← X.deviceState clientID deviceCode
        return (state, none)
    | none =>
      let state ← X.deviceState clientID deviceCode
      if state.done && !state.denied && !decide (now < state.expires) then
        X.expireDevice clientID deviceCode
        return ({ state with done := false }, none)
      else return (state, none)

/-- **`CreateAccessAndRefreshTokens`**. -/
def createAccessAndRefreshTokens (request : TokenRequest) (captured : Option RevocationEpochs)
    (current : String) : ExceptT Err (Prog M) (String × String × Time) := do
  let accessID ← X.random
  let value ← X.random
  let now ← X.now
  let expires ← X.mint ⟨request, captured, current, accessID, value, now⟩
  return (accessID, value, expires)

end Re0Auth.Postgres

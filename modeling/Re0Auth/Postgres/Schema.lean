import Re0Auth.Lib.Interleave
import Re0Auth.Lib.ReadCommitted
import Re0Auth.Oidc.Requests

/-!
# The database of the OpenID provider

The tables of the Postgres adapter (`internal/store/postgres/migrations`) and the statements its
methods are made of. A statement that may have to wait is split where it waits: a `DELETE` first
finds its rows (`scan`) and then takes them one by one (`delete`), each of which waits for a
transaction that has written or locked the row; `SELECT .. FOR SHARE` likewise (`scan`, `share`).

* **`Tbl`**, **`Row`**: the tables and their rows, keyed by primary key;
* **`Op`**, **`exec`**: the statements, on a **`Shared`** database, clock and random source.
-/

namespace Re0Auth.Postgres

open Lib OAuth Oidc

/-- The tables of the retired engine that the deletion of a client clears. -/
inductive RetiredTbl
  | accessTokens | refreshTokens | codes | refreshTombstones | deviceAuthorizations
  deriving DecidableEq

/-- The tables. -/
inductive Tbl
  | revocationEpochs | codes | authRequests | devices | accessTokens | refreshTokens | tombstones
  | clients
  | retired (r : RetiredTbl)
  deriving DecidableEq

/-- `oidc_codes`. -/
structure CodeRow where
  requestID : String
  expiresAt : Time
  deriving DecidableEq, Repr

/-- `oidc_auth_requests`. -/
structure AuthRequestRow where
  id : String
  clientID : String
  redirectURI : String
  responseType : String
  responseMode : String
  scopes : List String
  state : String
  nonce : String
  codeChallenge : String
  codeChallengeMethod : String
  subject : String
  done : Bool
  authTime : Option Time
  prompt : List String
  maxAgeSeconds : Option ℕ
  expiresAt : Time
  deriving DecidableEq, Repr

/-- `authRequestRow.request`. -/
def AuthRequestRow.request (r : AuthRequestRow) : AuthRequest where
  id := r.id
  clientID := r.clientID
  redirectURI := r.redirectURI
  responseType := r.responseType
  responseMode := r.responseMode
  scopes := r.scopes
  state := r.state
  nonce := r.nonce
  codeChallenge :=
    if r.codeChallenge = "" then none else some (r.codeChallenge, r.codeChallengeMethod)
  subject := r.subject
  isDone := r.done
  authTime := r.authTime
  prompt := r.prompt
  maxAge := r.maxAgeSeconds

/-- `oidc_devices`. -/
structure DeviceRow where
  userCode : String
  clientID : String
  scopes : List String
  expiresAt : Time
  done : Bool
  denied : Bool
  subject : String
  authTime : Option Time
  lastPoll : Option Time
  deriving DecidableEq, Repr

/-- `deviceStateRow.state`. -/
def DeviceRow.state (r : DeviceRow) : DeviceAuthorizationState where
  clientID := r.clientID
  scopes := r.scopes
  expires := r.expiresAt
  done := r.done
  denied := r.denied
  subject := r.subject
  authTime := r.authTime.getD 0

/-- `oidc_access_tokens`. -/
structure AccessRow where
  clientID : String
  subject : String
  scopes : List String
  issuedAt : Time
  expiresAt : Time
  deriving DecidableEq, Repr

/-- `oidc_refresh_tokens`. -/
structure RefreshRow where
  idHash : String
  clientID : String
  subject : String
  scopes : List String
  amr : List String
  audience : List String
  authTime : Option Time
  nonce : String
  familyID : String
  issuedAt : Time
  expiresAt : Time
  deriving DecidableEq, Repr

/-- The request `TokenRequestByRefreshToken` builds from a row. -/
def RefreshRow.request (r : RefreshRow) : Oidc.RefreshRequest where
  idHash := r.idHash
  clientID := r.clientID
  subject := r.subject
  scopes := r.scopes
  amr := r.amr
  audience := r.audience
  authTime := r.authTime
  nonce := r.nonce

/-- `oidc_refresh_token_tombstones`. -/
structure TombstoneRow where
  familyID : String
  idHash : String
  clientID : String
  subject : String
  expiresAt : Time
  deriving DecidableEq, Repr

/-- The owner columns of a row of the retired engine. -/
structure RetiredRow where
  clientID : String
  subject : String
  deriving DecidableEq, Repr

/-- The rows of a table. -/
@[reducible] def Row : Tbl → Type
  | .revocationEpochs => ℤ
  | .codes => CodeRow
  | .authRequests => AuthRequestRow
  | .devices => DeviceRow
  | .accessTokens => AccessRow
  | .refreshTokens => RefreshRow
  | .tombstones => TombstoneRow
  | .clients => Client
  | .retired _ => RetiredRow

/-- The columns `client_id` and `subject` of the tables that have them. -/
def owner : (i : Tbl) → Row i → Option (String × String)
  | .authRequests, r => some (r.clientID, r.subject)
  | .devices, r => some (r.clientID, r.subject)
  | .accessTokens, r => some (r.clientID, r.subject)
  | .refreshTokens, r => some (r.clientID, r.subject)
  | .tombstones, r => some (r.clientID, r.subject)
  | .retired _, r => some (r.clientID, r.subject)
  | .revocationEpochs, _ | .codes, _ | .clients, _ => none

/-- **Errors** of the adapter. `database` is any failure of the database, a unique violation and a
detected deadlock included; `refused` is the provider library turning a request down between two steps
of the adapter; `wrap` is `fmt.Errorf` with `%w`. -/
inductive Err
  | database
  | codeUnknown
  | authRequestNotFound
  | tokenNotFound
  | refreshTokenSpent
  | grantRevokedInFlight
  | deviceNotFound
  | slowDown
  | ownerRequired
  | refused
  | wrap (context : String) (cause : Err)
  deriving DecidableEq, Repr

/-- **Shared state**: the database, the store clock and the values drawn so far. -/
structure Shared where
  db : Db Row
  now : Time
  drawn : List String

/-- A value nobody has drawn and no row is stored under. -/
def Shared.Fresh (env : Env) (sh : Shared) (v : String) : Prop :=
  v ∉ sh.drawn ∧ env.tokenHash v ∉ (sh.db.table .accessTokens).keys ∧
    env.tokenHash v ∉ (sh.db.table .refreshTokens).keys ∧
    env.tokenHash v ∉ (sh.db.table .tombstones).keys

instance {env : Env} {sh : Shared} {v : String} : Decidable (sh.Fresh env v) :=
  inferInstanceAs (Decidable (_ ∧ _ ∧ _ ∧ _))

/-- **Statements**, and what a method does besides: it reads the clock and draws values. -/
inductive Op
  | now
  | random
  | advanceClock (d : ℕ)
  | begin
  /-- `SELECT` by primary keys, outside a transaction or in one. -/
  | select (t : Option ℕ) (i : Tbl) (keys : List String)
  /-- The rows a `DELETE` or a locking `SELECT` goes after, as its snapshot has them. -/
  | scan (t : ℕ) (i : Tbl) (q : Snapshot Row → String → Row i → Bool) (limit : Option ℕ)
  | delete (t : ℕ) (i : Tbl) (k : String)
  | insert (t : ℕ) (i : Tbl) (k : String) (row : Row i)
  /-- `INSERT .. ON CONFLICT DO UPDATE`. -/
  | upsert (t : ℕ) (i : Tbl) (k : String) (row : Row i) (f : Row i → Row i)
  /-- `UPDATE` by primary key; `SELECT .. FOR UPDATE` is one that changes nothing. -/
  | update (t : ℕ) (i : Tbl) (k : String) (f : Row i → Row i)
  | share (t : ℕ) (i : Tbl) (k : String)
  | commit (t : ℕ)
  | rollback (t : ℕ)
  /-- A loop that has not come to its end: nothing happens. -/
  | spin

/-- What a statement answers. -/
@[reducible] def Op.Res : Op → Type
  | now => Time
  | random => Except Err String
  | advanceClock _ => Unit
  | begin => Except Err ℕ
  | select _ i _ => Except Err (List (String × Row i))
  | scan _ _ _ _ => Except Err (List String)
  | delete _ i _ | update _ i _ _ | share _ i _ => Except Err (Option (Row i))
  | insert _ _ _ _ | upsert _ _ _ _ _ | commit _ => Except Err Unit
  | rollback _ | spin => Unit

/-- A statement that changes a row, once nobody else is at work on it: `f` gives the new row, `none`
where it is deleted. A row that is gone is not changed. -/
def change (t : ℕ) (i : Tbl) (k : String) (f : Row i → Option (Row i)) (sh : Shared) :
    Option (Except Err (Option (Row i)) × Shared) :=
  match sh.db.view t i k with
  | none => if (sh.db.cell i k).Quiet t then some (.ok none, sh) else none
  | some v => (sh.db.write t i k (f v)).map fun db => (.ok (some v), { sh with db := db })

/-- **One statement.** The choice is `none` where the database fails it, and otherwise the value the
random source yields. A statement that has to wait has no next state. -/
def exec (env : Env) (op : Op) (ω : Option String) (sh : Shared) : Option (op.Res × Shared) :=
  match op with
  | .now => some (sh.now, sh)
  | .random =>
    match ω with
    | none => some (.error .database, sh)
    | some v => if sh.Fresh env v then some (.ok v, { sh with drawn := v :: sh.drawn }) else none
  | .advanceClock d => some ((), { sh with now := sh.now + d })
  | .begin =>
    if ω.isNone then some (.error .database, sh)
    else some (.ok sh.db.next, { sh with db := { sh.db with next := sh.db.next + 1 } })
  | .select t i keys =>
    if ω.isNone then some (.error .database, sh)
    else some (.ok (keys.filterMap fun k => (sh.db.read t i k).map (k, ·)), sh)
  | .scan t i q limit =>
    if ω.isNone then some (.error .database, sh)
    else
      let found := ((sh.db.rows t i).filter fun r => q (sh.db.rows t) r.1 r.2).map (·.1)
      some (.ok (match limit with | none => found | some n => found.take n), sh)
  | .delete t i k =>
    if ω.isNone then some (.error .database, sh) else change t i k (fun _ => none) sh
  | .insert t i k row =>
    if ω.isNone then some (.error .database, sh)
    else if (sh.db.cell i k).Quiet t then
      match sh.db.view t i k with
      | some _ => some (.error .database, sh)
      | none => some (.ok (), { sh with db := sh.db.modify i k (.write t (some row)) })
    else none
  | .upsert t i k row f =>
    if ω.isNone then some (.error .database, sh)
    else (sh.db.write t i k (some (((sh.db.view t i k).map f).getD row))).map fun db =>
      (.ok (), { sh with db := db })
  | .update t i k f =>
    if ω.isNone then some (.error .database, sh) else change t i k (fun v => some (f v)) sh
  | .share t i k =>
    if ω.isNone then some (.error .database, sh)
    else (sh.db.share t i k).map fun db => (.ok (sh.db.view t i k), { sh with db := db })
  | .commit t =>
    if ω.isNone then some (.error .database, sh)
    else some (.ok (), { sh with db := sh.db.finish t true })
  | .rollback t => some ((), { sh with db := sh.db.finish t false })
  | .spin => none

/-- The database as a machine. -/
abbrev machine (env : Env) : Machine where
  Op := Op
  Res := Op.Res
  Sh := Shared
  Choice := Option String
  exec := exec env

/-- Methods of the adapter. -/
abbrev Sql (env : Env) := ExceptT Err (Prog (machine env))

end Re0Auth.Postgres

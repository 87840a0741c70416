import Re0Auth.Lib.Hoare
import Mathlib.Data.Int.Notation

/-!
# Erasing an account

`DeleteAccount` (`internal/lifecycle/lifecycle.go`) clears an account's rows out of every store, one store
after the other, records that it did, and destroys the key that ties the account to its audit history last.
The stores, the audit log and the destroyer are ports; each call of one succeeds, or fails with a part of
its work done.

* **`Op`**, **`exec`**: the ports, on a **`World`** of rows, pseudonym keys and the log;
* **`deleteAccount`**: the erasure.
-/

namespace Re0Auth.Lifecycle

open Lib

/-- The stores an account's data is spread over. -/
inductive Store
  | bindings | vault | tokens | sessions | flows | oidc | legacy | account
  deriving DecidableEq, Repr

/-- A row of a store, with the account it belongs to. -/
structure Row where
  subject : String
  id : ℕ
  deriving DecidableEq, Repr

/-- `Config`: the ports that are optional and wired. `Accounts`, `Tokens`, `Vault` and `Audit` are required. -/
structure Config where
  bindings : Bool
  sessions : Bool
  oidc : Bool
  flows : Bool
  legacy : Bool
  pseudonyms : Bool
  deriving DecidableEq, Repr

/-- `BindingOutcome`. -/
structure BindingOutcome where
  total : ℤ
  revoked : ℤ
  failed : ℤ
  deriving DecidableEq, Repr

/-- `Result`. -/
structure Result where
  bindings : BindingOutcome
  vault : ℤ
  tokens : ℤ
  sessions : ℤ
  flows : ℤ
  oidc : ℤ
  legacy : ℤ
  sessionScoped : Bool
  pseudonymDestroyed : Bool
  deriving DecidableEq, Repr

/-- `Result{}`. -/
def Result.zero : Result := ⟨⟨0, 0, 0⟩, 0, 0, 0, 0, 0, 0, false, false⟩

/-- `audit.Event`, without its time. -/
structure AuditEvent where
  action : String
  subject : String
  provider : String
  outcome : String
  detail : List (String × String)
  deriving DecidableEq, Repr

/-- **Errors.** -/
inductive Error
  | subjectRequired
  /-- What a port returned. -/
  | port (text : String)
  /-- Bindings that could not be removed locally. -/
  | bindingsLeft (failed total : ℤ)
  /-- `lifecycle: the account was erased but its audit history is still linkable`. -/
  | stillLinkable (cause : Error)
  /-- `lifecycle: could not record the failure`. -/
  | unrecorded (cause : Error)
  /-- `errors.Join`. -/
  | join (first second : Error)
  deriving DecidableEq, Repr

/-- What a port was called for. -/
inductive Step
  | clear (s : Store)
  | record
  | pseudonym
  /-- The record of a failed attempt. -/
  | failure
  deriving DecidableEq, Repr

/-- What a port answered: success, an error, or a sweep that left bindings behind. -/
inductive Answer
  | ok
  | error (text : String)
  | left (failed total : ℤ)
  deriving DecidableEq, Repr

/-- **World**: the rows of every store, the accounts that have a pseudonym key, the audit log, and what the
ports were called for, with their answers. -/
structure World where
  rows : Store → List Row
  keys : List String
  log : List AuditEvent
  calls : List (Step × Answer)

/-- The rows of other accounts. -/
def clearOf (subject : String) (rows : List Row) : List Row := rows.filter (·.subject ≠ subject)

/-- The rows that are left where some of an account's rows were removed. -/
def clearSome (subject : String) (removed : List ℕ) (rows : List Row) : List Row :=
  rows.filter fun r => ¬ (r.subject = subject ∧ r.id ∈ removed)

/-- How many rows an account has. -/
def countOf (subject : String) (rows : List Row) : ℤ := (rows.filter (·.subject = subject)).length

/-- The sink makes a key for an account it has none for. -/
def mint (subject : String) (keys : List String) : List String :=
  if subject ∈ keys then keys else keys ++ [subject]

/-- The keys without an account's. -/
def destroyed (subject : String) (keys : List String) : List String := keys.filter (· ≠ subject)

namespace World

/-- The world with the rows of one store changed. -/
def setRows (w : World) (s : Store) (rows : List Row) : World :=
  { w with rows := Function.update w.rows s rows }

/-- The world after a call of a port. -/
def called (w : World) (step : Step) (a : Answer) : World := { w with calls := w.calls ++ [(step, a)] }

/-- The world with an event recorded. -/
def recorded (w : World) (e : AuditEvent) : World :=
  { w with log := w.log ++ [e], keys := mint e.subject w.keys }

end World

/-- **Operations**: the calls of the ports. -/
inductive Op
  /-- `RevokeUserBindings`. -/
  | revokeBindings (subject : String)
  /-- `DeleteSubject`, `RevokeTokens`, `RevokeSubjectSessions`, `PurgeUserFlows`, `PurgeSubject`,
  `PurgeLegacySubject`, `DeleteUser`. -/
  | clear (s : Store) (subject : String)
  | record (e : AuditEvent)
  | destroy (subject : String)

/-- What an operation answers. -/
@[reducible] def Op.Res : Op → Type
  | revokeBindings _ => Except String BindingOutcome
  | clear _ _ => Except String ℤ
  | record _ | destroy _ => Except String Unit

/-- **The environment's choices**: a port succeeds; the binding sweep ends with some bindings left; a port
fails, with some rows removed; or it fails although its work is done. -/
inductive Choice
  | done
  | swept (left : List ℕ)
  | failed (text : String) (removed : List ℕ)
  | lost (text : String)
  deriving DecidableEq

/-- The step an event of the log stands for. -/
def AuditEvent.step (e : AuditEvent) : Step := if e.outcome = "ok" then .record else .failure

/-- **One call of a port.** -/
def exec (op : Op) (ω : Choice) (w : World) : Option (op.Res × World) :=
  match op with
  | .revokeBindings subject =>
    let rows := w.rows .bindings
    match ω with
    | .failed text removed => some (.error text,
        (w.setRows .bindings (clearSome subject removed rows)).called (.clear .bindings) (.error text))
    | .lost text => some (.error text,
        (w.setRows .bindings (clearOf subject rows)).called (.clear .bindings) (.error text))
    | .swept left =>
      let rest := rows.filter fun r => ¬ (r.subject = subject ∧ r.id ∉ left)
      let failed := countOf subject rest
      some (.ok ⟨countOf subject rows, countOf subject rows - failed, failed⟩,
        (w.setRows .bindings rest).called (.clear .bindings)
          (if failed = 0 then .ok else .left failed (countOf subject rows)))
    | .done => some (.ok ⟨countOf subject rows, countOf subject rows, 0⟩,
        (w.setRows .bindings (clearOf subject rows)).called (.clear .bindings) .ok)
  | .clear s subject =>
    let rows := w.rows s
    match ω with
    | .failed text removed => some (.error text,
        (w.setRows s (clearSome subject removed rows)).called (.clear s) (.error text))
    | .lost text => some (.error text,
        (w.setRows s (clearOf subject rows)).called (.clear s) (.error text))
    | _ => some (.ok (countOf subject rows), (w.setRows s (clearOf subject rows)).called (.clear s) .ok)
  | .record e =>
    match ω with
    | .failed text _ => some (.error text, w.called e.step (.error text))
    | .lost text => some (.error text, (w.recorded e).called e.step (.error text))
    | _ => some (.ok (), (w.recorded e).called e.step .ok)
  | .destroy subject =>
    match ω with
    | .failed text _ => some (.error text, w.called .pseudonym (.error text))
    | .lost text => some (.error text,
        { w with keys := destroyed subject w.keys }.called .pseudonym (.error text))
    | _ => some (.ok (), { w with keys := destroyed subject w.keys }.called .pseudonym .ok)

/-- The ports as a machine. -/
abbrev machine : Machine where
  Op := Op
  Res := Op.Res
  Sh := World
  Choice := Choice
  exec := exec

/-- Methods of the deleter; where one fails, the result so far goes back with the error. -/
abbrev Del := ExceptT (Result × Error) (Prog machine)

/-- One call of a port. -/
def act (op : Op) : Del op.Res := liftM (Prog.call (M := machine) op)

variable (cfg : Config) (actor subject : String)

/-- `pseudonymState`. -/
def pseudonymState (failedAt : String) : String :=
  if !cfg.pseudonyms then "not_configured"
  else if failedAt = "pseudonym" then "failed" else "pending"

/-- The event of `record`. -/
def deletion (outcome : String) (res : Result) (failedAt : String) : AuditEvent where
  action := "account.delete"
  subject := subject
  provider := "account"
  outcome := outcome
  detail :=
    [("bindings_revoked", toString res.bindings.revoked), ("bindings_failed", toString res.bindings.failed),
      ("vault_removed", toString res.vault), ("tokens_revoked", toString res.tokens),
      ("sessions_revoked", toString res.sessions), ("flows_removed", toString res.flows),
      ("oidc_removed", toString res.oidc), ("legacy_removed", toString res.legacy),
      ("session_scoped", toString res.sessionScoped),
      ("pseudonym_destroyed", toString res.pseudonymDestroyed),
      ("pseudonym", pseudonymState cfg failedAt), ("self", toString (actor == subject))] ++
    if failedAt ≠ "" then [("failed_at", failedAt)] else []

/-- **`fail`**: the attempt is recorded, and what stopped it is returned, with the failure of the record. -/
def fail {α : Type} (step : String) (cause : Error) (res : Result) : Del α := do
  let recorded : Except String Unit ← act (.record (deletion cfg actor subject "error" res step))
  match recorded with
  | .error e => throw (res, .join cause (.unrecorded (.port e)))
  | .ok () => throw (res, cause)

/-- A step that clears one store; `note` enters what it reports. -/
def clearing (s : Store) (name : String) (note : ℤ → Result → Result) (res : Result) : Del Result := do
  let cleared : Except String ℤ ← act (.clear s subject)
  match cleared with
  | .error e => fail cfg actor subject name (.port e) res
  | .ok n => return note n res

/-- The binding sweep; a binding that is left is a failure, and the counts are in the result by then. -/
def revoking (res : Result) : Del Result := do
  let swept : Except String BindingOutcome ← act (.revokeBindings subject)
  match swept with
  | .error e => fail cfg actor subject "bindings" (.port e) res
  | .ok outcome =>
    let res := { res with bindings := outcome }
    if 0 < outcome.failed then
      fail cfg actor subject "bindings" (.bindingsLeft outcome.failed outcome.total) res
    else return res

/-- The destruction of the pseudonym key, after the record. -/
def destroying (res : Result) : Del Result := do
  let r : Except String Unit ← act (.destroy subject)
  match r with
  | .error e => fail cfg actor subject "pseudonym" (.stillLinkable (.port e)) res
  | .ok () => return { res with pseudonymDestroyed := true }

/-- An optional step. -/
def whenWired (wired : Bool) (m : Result → Del Result) (res : Result) : Del Result :=
  if wired then m res else return res

/-- The record of the erasure, written once every store is clear. -/
def recording (res : Result) : Del Result := do
  let recorded : Except String Unit ← act (.record (deletion cfg actor subject "ok" res ""))
  match recorded with
  | .error e => throw (res, .port e)
  | .ok () => return res

/-- **`DeleteAccount`**. -/
def deleteAccount : Del Result := do
  if subject = "" then throw (.zero, .subjectRequired)
  else
    let res ← whenWired cfg.bindings (revoking cfg actor subject) .zero
    let res ← clearing cfg actor subject .vault "vault" (fun n r => { r with vault := n }) res
    let res ← clearing cfg actor subject .tokens "tokens" (fun n r => { r with tokens := n }) res
    let res ← whenWired cfg.sessions (clearing cfg actor subject .sessions "sessions" fun n r =>
      { r with sessions := n, sessionScoped := true }) res
    let res ← whenWired cfg.flows (clearing cfg actor subject .flows "bind flows" fun n r =>
      { r with flows := n }) res
    let res ← whenWired cfg.oidc (clearing cfg actor subject .oidc "OP state" fun n r =>
      { r with oidc := n }) res
    let res ← whenWired cfg.legacy (clearing cfg actor subject .legacy "legacy state" fun n r =>
      { r with legacy := n }) res
    let res ← clearing cfg actor subject .account "account" (fun _ r => r) res
    let res ← recording cfg actor subject { res with pseudonymDestroyed := false }
    whenWired cfg.pseudonyms (destroying cfg actor subject) res

end Re0Auth.Lifecycle

import Re0Auth.DataPlane.Registry
import Re0Auth.Lib.Ledger
import Re0Auth.OAuth.Service

/-!
# Reading from a source

`Fetch` and `Raw` (`internal/federation/service.go`) with the handlers that call them
(`internal/httpapi/federation_routes.go`), over the binding store, the vault and the refreshes of
`Federation/Service`. A read holds a part of the joint budget for response bodies from before the body is
read until it has been written out, and a binding whose credential the source keeps rejecting is not
asked for a while.

* **`BufferBudget`**: the budget, with what each caller holds;
* **`BindingCooldown`**: the count of rejections in a row;
* **`Op`**, **`exec`**: the operations; those of the federation service among them;
* **`fetch`**, **`raw`**, **`handleGameResource`**, **`handleGameRaw`**;
* **`dataPlane`**: the service, with the calls of **`Call`**.
-/

namespace Re0Auth.DataPlane

open Lib OAuth Federation

/-! ## The budget -/

/-- `maxBody`. -/
def maxBody : ℕ := 4 * 2 ^ 20

/-- `defaultMaxBufferedBytes`. -/
def defaultMaxBufferedBytes : ℤ := 64 * 2 ^ 20

/-- `bufferBudget`; the counters are integers without a bound. -/
structure BufferBudget where
  limit : ℤ
  share : ℤ
  held : ℤ
  /-- What each caller holds. -/
  perKey : Dict String ℤ

/-- `bufferShare`. -/
def bufferShare (limit : ℤ) : ℤ :=
  let share := limit.tdiv 4
  let floor : ℤ := 2 * maxBody
  if share < floor then floor else share

/-- `newBufferBudget`. -/
def newBufferBudget (limit : ℤ) : BufferBudget := ⟨limit, bufferShare limit, 0, ∅⟩

/-- The budget `NewService` makes of `MaxBufferedBytes`; a negative number is refused. -/
def configuredBudget (maxBufferedBytes : ℤ) : Option BufferBudget :=
  let limit := if maxBufferedBytes = 0 then defaultMaxBufferedBytes else maxBufferedBytes
  if limit < 0 then none else some (newBufferBudget limit)

namespace BufferBudget

/-- `acquire`. -/
def acquire (b : BufferBudget) (key : String) (n : ℤ) : Option BufferBudget :=
  if b.limit < b.held + n then none
  else if b.share < (b.perKey.get key).getD 0 + n then none
  else some { b with held := b.held + n, perKey := b.perKey.set key ((b.perKey.get key).getD 0 + n) }

/-- `release`. -/
def release (b : BufferBudget) (key : String) (n : ℤ) : BufferBudget :=
  let held := b.held - n
  let left := (b.perKey.get key).getD 0 - n
  { b with
    held := if held < 0 then 0 else held
    perKey := if left ≤ 0 then b.perKey.del key else b.perKey.set key left }

end BufferBudget

/-! ## The cooldown -/

/-- `coolingBinding`; `none` is Go's zero time. -/
structure CoolingBinding where
  key : String
  failures : ℤ
  until_ : Option Time
  deriving DecidableEq, Repr

/-- `bindingCooldown`: the entries in the order of their last use, the latest first. -/
structure BindingCooldown where
  limit : ℕ
  threshold : ℤ
  window : Duration
  entries : List CoolingBinding
  deriving DecidableEq, Repr

namespace BindingCooldown

/-- `removeLocked`. -/
def remove (c : BindingCooldown) (key : String) : BindingCooldown :=
  { c with entries := c.entries.filter (·.key ≠ key) }

/-- `MoveToFront`. -/
def moveToFront (c : BindingCooldown) (e : CoolingBinding) : BindingCooldown :=
  { c with entries := e :: c.entries.filter (·.key ≠ e.key) }

/-- `cooling`: a window that is over is dropped. -/
def cooling (c : BindingCooldown) (now : Time) (key : String) : Bool × BindingCooldown :=
  match c.entries.find? (·.key = key) with
  | none => (false, c)
  | some e =>
    match e.until_ with
    | none => (false, c.moveToFront e)
    | some deadline =>
      if ¬ now < deadline then (false, c.remove key) else (true, c.moveToFront e)

/-- The entry `reject` counts in, at the front; a new one may push the last one out. -/
def enter (c : BindingCooldown) (key : String) : CoolingBinding × List CoolingBinding :=
  match c.entries.find? (·.key = key) with
  | some e => (e, c.entries.filter (·.key ≠ key))
  | none =>
    (⟨key, 0, none⟩, if c.limit < c.entries.length + 1 then c.entries.dropLast else c.entries)

/-- `reject`. -/
def reject (c : BindingCooldown) (now : Time) (key : String) : BindingCooldown :=
  let (e, rest) := c.enter key
  let failures := e.failures + 1
  let until_ := if failures < c.threshold then e.until_ else some (now + c.window)
  { c with entries := ⟨key, failures, until_⟩ :: rest }

/-- `reset`. -/
def reset (c : BindingCooldown) (key : String) : BindingCooldown := c.remove key

end BindingCooldown

/-! ## Operations -/

/-- What a source is asked for. -/
inductive Target
  | resource (name : String)
  | raw (path query : String)
  deriving DecidableEq, Repr

/-- What the data plane reads of a response before its body. -/
structure Response where
  status : ℕ
  contentLength : ℤ
  contentType : String
  contentEncoding : String
  deriving DecidableEq, Repr

/-- The bytes of a body. -/
abbrev Body : Type := List UInt8

/-- **Shared state**: the stores, the budget, the reservations that were ever made, each with the state of
its `sync.Once`, and the cooldown. -/
structure Shared where
  fed : Federation.Shared
  budget : BufferBudget
  reservations : List (Entry String)
  cooldown : BindingCooldown

/-- **Operations.** -/
inductive Op
  | fed (op : Federation.Op)
  | cooling (key : String)
  /-- `noteBindingOutcome`. -/
  | noteOutcome (key : String) (unauthorized : Bool)
  /-- `s.doer.Do`. -/
  | send (src : DataSource) (target : Target) (token : String)
  | acquire (caller : String) (n : ℤ)
  /-- `io.ReadAll` on a reader that stops one byte past the cap. -/
  | readAll
  /-- `releaseOnce.Do` of one reservation. -/
  | release (id : ℕ)

/-- What an operation answers. -/
@[reducible] def Op.Res : Op → Type
  | fed op => op.Res
  | cooling _ => Bool
  | noteOutcome _ _ | release _ => Unit
  | send _ _ _ => Except ReadError Response
  | acquire _ _ => Option ℕ
  | readAll => Except ReadError Body

/-- **The environment's choices.** -/
inductive Choice
  | fed (ω : Federation.Choice)
  | answered (r : Response)
  | body (b : Body)
  | failed
  deriving DecidableEq

/-- **One atomic operation.** A reservation that was never made cannot be released. -/
def exec (op : Op) (ω : Choice) (sh : Shared) : Option (op.Res × Shared) :=
  match op with
  | .fed op =>
    match ω with
    | .fed ω => (Federation.exec op ω sh.fed).map fun (r, fed) => (r, { sh with fed })
    | _ => none
  | .cooling key =>
    let (answer, cooldown) := sh.cooldown.cooling sh.fed.now key
    some (answer, { sh with cooldown })
  | .noteOutcome key unauthorized =>
    let cooldown :=
      if unauthorized then sh.cooldown.reject sh.fed.now key else sh.cooldown.reset key
    some ((), { sh with cooldown })
  | .send _ _ _ =>
    match ω with
    | .answered r => some (.ok r, sh)
    | .failed => some (.error (.transport "request"), sh)
    | _ => none
  | .acquire caller n =>
    match sh.budget.acquire caller n with
    | none => some (none, sh)
    | some budget => some (some sh.reservations.length,
        { sh with budget, reservations := sh.reservations ++ [⟨caller, n, false⟩] })
  | .readAll =>
    match ω with
    | .body b => if maxBody + 1 < b.length then none else some (.ok b, sh)
    | .failed => some (.error (.transport "read"), sh)
    | _ => none
  | .release id =>
    match sh.reservations[id]? with
    | none => none
    | some e =>
      if e.settled then some ((), sh)
      else some ((), { sh with
        budget := sh.budget.release e.key e.amount
        reservations := Ledger.settle sh.reservations id })

/-- The stores, the sources and the budget as a machine. -/
abbrev machine : Machine where
  Op := Op
  Res := Op.Res
  Sh := Shared
  Choice := Choice
  exec := exec

/-- Methods of the data plane. -/
abbrev Read := ExceptT ReadError (Prog machine)

variable {α : Type}

/-- The program that makes one operation. -/
def ask (op : Op) : Prog machine op.Res := Prog.call (M := machine) op

/-- One operation of a method. -/
def act (op : Op) : Read op.Res := liftM (ask op)

/-- An operation whose error is the method's. -/
def call (m : Prog machine (Except ReadError α)) : Read α := ExceptT.mk m

/-- A method of the federation service. -/
def federated (m : Svc α) : Read α :=
  ExceptT.mk do
    let r ← m.run.embed (N := machine) fun op => ask (.fed op)
    return r.mapError .fed

/-- A method whose failure is handed on as a value. -/
def attempt (m : Read α) : Read (Except ReadError α) := ExceptT.lift m.run

/-! ## Reading -/

/-- What a deployment configures, and two functions of the standard library. -/
structure Config where
  /-- The process; it has a budget and a cooldown of its own. -/
  process : ℕ
  registry : Registry
  /-- The registry as the binding flow reads it, its base URL and how long a flow lives. -/
  binding : Federation.Config
  cleanRawPath : String → Except ReadError String
  /-- `json.Valid`. -/
  jsonValid : Body → Bool

/-- `errors.As(err, &notBound)`. -/
def Error.asNotBound : Federation.Error → Option (String × String)
  | .notBoundAt game source => some (game, source)
  | .wrap _ cause => asNotBound cause
  | .join first second => (asNotBound first).orElse fun _ => asNotBound second
  | _ => none

def ReadError.asNotBound : ReadError → Option (String × String)
  | .fed e => Error.asNotBound e
  | _ => none

/-- `isUnauthorized`. -/
def ReadError.isUnauthorized : ReadError → Bool
  | .fed e => e.isUnauthorized
  | .source _ status => status == 401
  | _ => false

/-- `reserveFor`. -/
def reserveFor (resp : Response) (readCap : ℤ) : ℤ :=
  if 0 < resp.contentLength ∧ resp.contentLength < readCap then resp.contentLength + 1 else readCap

/-- The reservation of `rawFetch` and of `fetchResource`: it is made before the body is read, goes back
where no result comes of it, and belongs to the caller otherwise. -/
def reserving (caller : String) (resp : Response) (m : Read α) : Read (α × ℕ) := do
  let reserved : Option ℕ ← act (.acquire caller (reserveFor resp (maxBody + 1)))
  match reserved with
  | none => throw .bufferBudget
  | some id =>
    let r ← attempt m
    match r with
    | .ok a => return (a, id)
    | .error e =>
      act (.release id)
      throw e

/-- The body, if it is not longer than the cap. -/
def readBody : Read Body := do
  let body ← call (ask .readAll)
  if maxBody < body.length then throw .responseTooLarge else return body

/-- `RawResult`; `release` is the reservation its `Release` gives back. -/
structure RawResult where
  source : String
  status : ℕ
  contentType : String
  contentEncoding : String
  body : Body
  release : ℕ
  deriving DecidableEq, Repr

/-- `FetchResult`. -/
structure FetchResult where
  source : String
  degraded : Bool
  data : Body
  release : ℕ
  deriving DecidableEq, Repr

variable (cfg : Config)

/-- **`rawFetch`**. -/
def rawFetch (src : DataSource) (path query token caller : String) : Read RawResult := do
  match cfg.cleanRawPath path with
  | .error e => throw e
  | .ok cleaned =>
    let resp ← call (ask (.send src (.raw cleaned query) token))
    let (body, id) ← reserving caller resp readBody
    return ⟨"", resp.status, resp.contentType, resp.contentEncoding, body, id⟩

/-- The checks of `fetchResource` once the response is there. -/
def readResource (src : DataSource) (resp : Response) : Read Body := do
  let body ← readBody
  if resp.status ≠ 200 then throw (.source src.name resp.status)
  else if cfg.jsonValid body = false then throw (.invalidJSON src.name)
  else return body

/-- **`fetchResource`**. -/
def fetchResource (src : DataSource) (resource token caller : String) : Read (Body × ℕ) := do
  let resp ← call (ask (.send src (.resource resource) token))
  reserving caller resp (readResource cfg src resp)

/-- `withAccessToken`, with `fn` in the vault's window. -/
def withAccessToken (b : Binding) (fn : String → Read α) : Read α := do
  let secret ← federated (Federation.call (Federation.ask (.use b.ref)))
  fn secret.accessToken

/-- **`callWithRefresh`**: one refresh before the request if it is due, and one after a 401. -/
def callWithRefresh (process : ℕ) (src : Source) (binding : Binding) (fn : String → Read α) : Read α := do
  let binding ← federated (refreshIfDue process src binding)
  let r ← attempt (withAccessToken binding fn)
  match r with
  | .ok a => return a
  | .error e =>
    if !e.isUnauthorized || !binding.hasRefresh then throw e
    else
      let refreshed ← federated (refreshBinding process src binding true)
      withAccessToken refreshed fn

/-- The part `trySource` and `Raw` share: the binding is read, and the source asked unless the binding is
in cooldown; how it went is noted. -/
def readBound (process : ℕ) (src : DataSource) (k : Ref) (fn : String → Read α) : Read α := do
  let bound : Except Federation.Error (Row k) ← act (.fed (.getBinding k))
  match bound with
  | .error e => if e.isNotBound then throw (.fed (.notBoundAt k.game k.source)) else throw (.fed e)
  | .ok binding =>
    let cooling : Bool ← act (.cooling k.bindingKey)
    if cooling then throw (.bindingCooldown k.game k.source)
    else
      let r ← attempt (callWithRefresh process src.toSource binding.1 fn)
      match r with
      | .ok a =>
        act (.noteOutcome k.bindingKey false)
        return a
      | .error e =>
        act (.noteOutcome k.bindingKey e.isUnauthorized)
        throw e

/-- `FetchRequest`. -/
structure FetchRequest where
  user : String
  game : String
  resource : String
  /-- Empty where no source is pinned. -/
  source : String
  deriving DecidableEq, Repr

/-- **`trySource`**. -/
def trySource (src : DataSource) (req : FetchRequest) : Read FetchResult := do
  let (data, id) ← readBound cfg.process src ⟨req.user, req.game, src.name⟩ fun token =>
    fetchResource cfg src req.resource token req.user
  return ⟨src.name, false, data, id⟩

/-- What `Fetch` remembers of the candidates that failed. -/
structure Tried where
  lastErr : Option ReadError
  firstNotBound : Option (String × String)
  sawOther : Bool
  deriving DecidableEq, Repr

/-- After one more candidate failed. -/
def Tried.note (t : Tried) (e : ReadError) : Tried :=
  match e.asNotBound with
  | some at_ => ⟨some e, t.firstNotBound.or (some at_), t.sawOther⟩
  | none => ⟨some e, t.firstNotBound, true⟩

/-- The error of a `Fetch` without a candidate that answers. -/
def Tried.error (t : Tried) : ReadError :=
  match t.sawOther, t.firstNotBound, t.lastErr with
  | false, some (game, source), _ => .fed (.notBoundAt game source)
  | _, _, none => .unknownResource
  | _, _, some e => e

/-- The loop of `Fetch`; `i` counts the candidates that were tried. -/
def tryAll (req : FetchRequest) : ℕ → Tried → List DataSource → Read FetchResult
  | _, tried, [] => throw tried.error
  | i, tried, src :: rest => do
    let r ← attempt (trySource cfg src req)
    match r with
    | .ok result => return { result with degraded := decide (0 < i) }
    | .error e => tryAll req (i + 1) (tried.note e) rest

/-- **`Fetch`**. -/
def fetch (req : FetchRequest) : Read FetchResult := do
  match cfg.registry.candidates req.game req.resource req.source with
  | .error e => throw e
  | .ok candidates => tryAll cfg req 0 ⟨none, none, false⟩ candidates

/-- `RawRequest`. -/
structure RawRequest where
  user : String
  game : String
  source : String
  path : String
  query : String
  deriving DecidableEq, Repr

/-- What `Raw` makes of one answer: a 401 is given back and reported as an error. -/
def rawOnce (src : DataSource) (req : RawRequest) (token : String) : Read RawResult := do
  let result ← rawFetch cfg src req.path req.query token req.user
  if result.status = 401 then
    act (.release result.release)
    throw (.source src.name 401)
  else return result

/-- **`Raw`**. -/
def raw (req : RawRequest) : Read RawResult := do
  match cfg.registry.get req.game req.source with
  | none => throw .unknownSource
  | some src =>
    if src.status = .retired then throw .sourceRetired
    else if src.rawBase = "" then throw .rawUnsupported
    else
      let result ← readBound cfg.process src ⟨req.user, req.game, src.name⟩ (rawOnce cfg src req)
      return { result with source := src.name }

/-! ## The handlers -/

/-- What a handler has written out. -/
structure Served where
  source : String
  degraded : Bool
  body : Body
  deriving DecidableEq, Repr

/-- **The gate** of `handleGameResource`: the scope of every source that could answer. -/
def gate (scopes : List Scope) (game resource pinned : String) : Except ReadError Unit :=
  match cfg.registry.resourceRequirements game resource pinned with
  | .error e => .error e
  | .ok requirements =>
    match requirements.find? (·.scope ∉ scopes) with
    | some missing => .error (.insufficientScope missing.scope missing.source)
    | none => .ok ()

/-- **`handleGameResource`**: the gate, the read, and the release after the body was written. -/
def handleGameResource (info : TokenInfo) (game resource pinned : String) : Read Served := do
  match gate cfg info.scopes game resource pinned with
  | .error e => throw e
  | .ok () =>
    let result ← fetch cfg ⟨info.subject, game, resource, pinned⟩
    act (.release result.release)
    return ⟨result.source, result.degraded, result.data⟩

/-- `rawGate`: the scope that gates a game's raw passthrough. -/
def rawGate (game source : String) : Option Scope :=
  ((cfg.registry.sources game).find? (·.name = source)).map fun src => src.game ++ ".raw.read"

/-- **`handleGameRaw`**. -/
def handleGameRaw (info : TokenInfo) (game source path query : String) : Read Served := do
  match rawGate cfg game source with
  | none => throw .unknownSource
  | some scope =>
    if scope ∉ info.scopes then throw (.insufficientScope scope source)
    else
      let result ← raw cfg ⟨info.subject, game, source, path, query⟩
      act (.release result.release)
      return ⟨result.source, false, result.body⟩

/-! ## The service -/

/-- **Calls**: the reads of this process, its handlers, the `Release` of a result, by any caller and at any
time, and the calls of the federation service that write bindings, in this or in another process. A read
of another process (`Federation.Call.fetch`) has that process's budget. -/
inductive Call
  | fetch (req : FetchRequest)
  | raw (req : RawRequest)
  | gameResource (info : TokenInfo) (game resource pinned : String)
  | gameRaw (info : TokenInfo) (game source path query : String)
  | release (id : ℕ)
  | other (c : Federation.Call)

/-- What a call returns. -/
inductive Reply
  | fetched (r : FetchResult)
  | raw (r : RawResult)
  | served (s : Served)
  | released
  | other (r : Federation.Reply)
  deriving DecidableEq, Repr

/-- The reservation that goes to the caller with a result. -/
def Reply.release? : Reply → Option ℕ
  | .fetched r => some r.release
  | .raw r => some r.release
  | _ => none

/-- The program of a call. -/
def Call.body : Call → Read Reply
  | .fetch req => Reply.fetched <$> DataPlane.fetch cfg req
  | .raw req => Reply.raw <$> DataPlane.raw cfg req
  | .gameResource info game resource pinned =>
    Reply.served <$> handleGameResource cfg info game resource pinned
  | .gameRaw info game source path query => Reply.served <$> handleGameRaw cfg info game source path query
  | .release id => (fun _ => Reply.released) <$> act (.release id)
  | .other c => Reply.other <$> federated (c.body cfg.binding)

/-- **The data plane** of a process. -/
abbrev dataPlane : Service machine where
  Call := Call
  Reply := Except ReadError Reply
  body c := (c.body cfg).run

/-! ## A sample deployment -/

/-- A source with one resource. -/
def sampleSource : DataSource :=
  ⟨⟨"g", "s", .active, .revocable, "client", ""⟩, [⟨"profile", "g.profile.read"⟩], ""⟩

def sampleConfig : Config :=
  ⟨0, ⟨(∅ : Dict String _).set "g" [sampleSource], (∅ : Dict String _).set "g/s" sampleSource⟩,
    ⟨fun _ _ => some sampleSource.toSource, "", 0⟩, .ok, fun _ => true⟩

/-- The account is bound to the source. -/
def sampleBound : Federation.Shared :=
  ⟨0, MemoryBindingStore.empty.set ⟨⟨"u", "g", "s"⟩, "bearer", 0, false, 1⟩,
    (∅ : Dict Vault.Identity _).set ⟨"u", "g.s"⟩ ⟨"token", ""⟩, ∅, [], [], []⟩

def sampleCooldown : BindingCooldown := ⟨4096, 5, 30, []⟩

/-- The operations of a read that is answered with one byte. -/
def sampleChoices : List Choice :=
  [.fed .done, .failed, .fed .done, .answered ⟨200, 1, "", ""⟩, .failed, .body [49], .failed]

end Re0Auth.DataPlane

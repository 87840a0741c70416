import Re0Auth.Federation.Binding
import Re0Auth.Lib.Interleave

/-!
# Binding, refreshing and unbinding

The calls of the federation service that write a binding's row or its secret
(`internal/federation/refresh.go`, `bind.go`, `unbind.go`, `revocation.go`, `killswitch.go`), over any
number of processes that share one binding store and one vault. Each store, vault or upstream call is
one atomic operation; the keyed mutex of a process orders the calls of that process alone.

* **`Op`**, **`exec`**: the operations, on a **`Shared`** state;
* **`refreshBinding`**, **`completeBind`**, **`unbind`**, **`cascadeRevoke`**, **`revokeBinding`**;
* **`federation`**: the service, with the calls of **`Call`**.
-/

namespace Re0Auth.Federation

open Lib OAuth Vault

/-- What a deployment configures. -/
structure Config where
  /-- `Registry.Get`. -/
  registry : (game source : String) → Option Source
  baseURL : String
  bindTTL : Duration

/-- **Errors.** `store`, `vault` and `random` are failures of the binding store, the vault and the
random source. -/
inductive Error
  | notBound
  | notBoundAt (game source : String)
  | noRefreshToken
  | unknownSource
  | sourceRetired
  | bindUnavailable
  | unknownBind
  | bindUser
  | bindSuperseded
  | cascadeUnsupported
  | secretNotFound
  | unauthorized (source : String)
  | other (text : String)
  | store
  | vault
  | upstream
  | random
  /-- `fmt.Errorf` with `%w`. -/
  | wrap (context : String) (cause : Error)
  /-- `errors.Join`. -/
  | join (first second : Error)
  deriving DecidableEq, Repr

/-- `errors.Is`: the error, or one it wraps, is what `p` looks for. -/
def Error.is (p : Error → Bool) : Error → Bool
  | wrap context cause => p (wrap context cause) || cause.is p
  | join first second => first.is p || second.is p
  | e => p e

/-- `errors.Is(err, ErrNotBound)`. -/
def Error.isNotBound (e : Error) : Bool :=
  e.is fun e => match e with | notBound | notBoundAt _ _ => true | _ => false

/-- `errors.Is(err, vault.ErrNotFound)`. -/
def Error.isSecretNotFound (e : Error) : Bool := e.is (· == secretNotFound)

/-- `isUnauthorized`. -/
def Error.isUnauthorized (e : Error) : Bool :=
  e.is fun e => match e with | unauthorized _ => true | _ => false

/-- `UpstreamRevocation`. -/
inductive UpstreamRevocation
  | done | unsupported | unavailable | nothingToDo
  deriving DecidableEq, Repr

/-- What a source answers to a refresh grant. -/
inductive Grant
  | granted (t : Token)
  /-- `invalid_grant`. -/
  | rejected
  | transient
  deriving DecidableEq, Repr

/-- **Shared state**: the stores of all processes, the mutexes each of them holds, and the refresh
tokens the sources take for valid. -/
structure Shared where
  now : Time
  bindings : MemoryBindingStore
  vault : Dict Identity BindingSecret
  flows : Dict String BindFlow
  /-- The process and the key of a mutex that is held. -/
  locks : List (ℕ × String)
  live : List String
  issued : List String

/-- **Operations.** -/
inductive Op
  | now
  | advanceClock (d : ℕ)
  | lock (process : ℕ) (key : String)
  | unlock (process : ℕ) (key : String)
  | getBinding (k : Ref)
  | putIfVersion (b : Binding) (expected : UInt64)
  | create (b : Binding)
  | deleteBinding (k : Ref)
  | putFlow (f : BindFlow)
  | consumeFlow (state : String)
  | enroll (k : Ref) (secret : BindingSecret)
  | use (k : Ref)
  | revokeSecret (k : Ref)
  | refreshGrant (src : Source) (refreshToken : String)
  | exchange (src : Source) (code verifier : String)
  /-- `fetchResource`, `rawFetch`. -/
  | fetch (src : Source) (accessToken : String)
  | postRevocation (src : Source) (cascade : Bool) (token hint : String)
  | newBindID
  /-- `oauth2.GenerateVerifier`. -/
  | newVerifier
  | newBindingGeneration

/-- What an operation answers. -/
@[reducible] def Op.Res : Op → Type
  | now => Time
  | advanceClock _ | lock _ _ | unlock _ _ => Unit
  | getBinding k => Except Error (Row k)
  | putIfVersion _ _ | create _ => Except Error Bool
  | deleteBinding _ | putFlow _ | enroll _ _ | revokeSecret _ | fetch _ _ => Except Error Unit
  | consumeFlow _ => Except Error BindFlow
  | use _ => Except Error BindingSecret
  | refreshGrant _ _ => Grant
  | exchange _ _ _ => Except Error Token
  | postRevocation _ _ _ _ => Bool
  | newBindID => Except Error String
  | newVerifier => String
  | newBindingGeneration => Except Error UInt64

/-- **The environment's choices**: an operation goes through, or it fails, in which case a write may
have taken effect all the same; what a source answers; what the random source yields. -/
inductive Choice
  | done
  | failed (landed : Bool)
  | granted (t : Token)
  | rejected
  | drawn (v : String)
  | word (n : UInt64)
  deriving DecidableEq

/-- A write to a store: its answer and the new state where it goes through, the error where it fails. -/
def settle {α : Type} (ω : Choice) (e : Error) (old : Shared) (a : α) (new : Shared) :
    Option (Except Error α × Shared) :=
  match ω with
  | .failed landed => some (.error e, if landed then new else old)
  | _ => some (.ok a, new)

/-- A refresh token the sources take for valid from now on; an empty one is none. -/
def Shared.issue (sh : Shared) (token : String) : Shared :=
  if token = "" then sh else { sh with live := token :: sh.live, issued := token :: sh.issued }

/-- **One atomic operation.** -/
def exec (op : Op) (ω : Choice) (sh : Shared) : Option (op.Res × Shared) :=
  match op with
  | .now => some (sh.now, sh)
  | .advanceClock d => some ((), { sh with now := sh.now + d })
  | .lock process key =>
    if sh.locks.contains (process, key) then none
    else some ((), { sh with locks := (process, key) :: sh.locks })
  | .unlock process key => some ((), { sh with locks := sh.locks.erase (process, key) })
  | .getBinding k =>
    match ω with
    | .failed _ => some (.error .store, sh)
    | _ => some ((match sh.bindings.get k with | none => .error .notBound | some b => .ok b), sh)
  | .putIfVersion b expected =>
    let x := sh.bindings.putIfVersion b expected
    settle ω .store sh x.1 { sh with bindings := x.2 }
  | .create b =>
    let x := sh.bindings.create b
    settle ω .store sh x.1 { sh with bindings := x.2 }
  | .deleteBinding k => settle ω .store sh () { sh with bindings := sh.bindings.delete k }
  | .putFlow f => settle ω .store sh () { sh with flows := sh.flows.set f.state f }
  | .consumeFlow state =>
    match ω with
    | .failed landed => some (.error .store, if landed then { sh with flows := sh.flows.del state } else sh)
    | _ =>
      match sh.flows.get state with
      | none => some (.error .unknownBind, sh)
      | some f => some (.ok f, { sh with flows := sh.flows.del state })
  | .enroll k secret => settle ω .vault sh () { sh with vault := sh.vault.set k.identity secret }
  | .use k =>
    match ω with
    | .failed _ => some (.error .vault, sh)
    | _ => some ((match sh.vault.get k.identity with
        | none => .error .secretNotFound | some s => .ok s), sh)
  | .revokeSecret k => settle ω .vault sh () { sh with vault := sh.vault.del k.identity }
  | .refreshGrant _ token =>
    match ω with
    | .granted t =>
      -- a rotated token takes the place of the one presented
      some (.granted t, if t.refreshToken = "" then sh
        else { sh with live := sh.live.erase token }.issue t.refreshToken)
    | .rejected => some (.rejected, sh)
    | _ => some (.transient, sh)
  | .exchange _ _ _ =>
    match ω with
    | .granted t => some (.ok t, sh.issue t.refreshToken)
    | _ => some (.error .upstream, sh)
  | .fetch src _ =>
    match ω with
    | .done => some (.ok (), sh)
    | .rejected => some (.error (.unauthorized src.name), sh)
    | _ => some (.error .upstream, sh)
  | .postRevocation _ _ token _ =>
    match ω with
    | .done => some (true, { sh with live := sh.live.erase token })
    | _ => some (false, sh)
  | .newBindID =>
    match ω with
    | .drawn v => some (.ok v, sh)
    | _ => some (.error .random, sh)
  | .newVerifier =>
    match ω with
    | .drawn v => some (v, sh)
    | _ => none
  | .newBindingGeneration =>
    match ω with
    | .word n => some (.ok (if n = 0 then 1 else n), sh)
    | _ => some (.error .random, sh)

/-- The stores and the sources as a machine. -/
abbrev machine : Machine where
  Op := Op
  Res := Op.Res
  Sh := Shared
  Choice := Choice
  exec := exec

/-- Methods of the service. -/
abbrev Svc := ExceptT Error (Prog machine)

variable {α : Type}

/-- The program that makes one operation. -/
def ask (op : Op) : Prog machine op.Res := Prog.call (M := machine) op

/-- One operation of a method. -/
def act (op : Op) : Svc op.Res := liftM (ask op)

/-- An operation whose error is the method's. -/
def call (m : Prog machine (Except Error α)) : Svc α := ExceptT.mk m

/-- `fmt.Errorf("..: %w", err)`. -/
def wrapping (context : String) (m : Svc α) : Svc α :=
  ExceptT.mk do
    let r ← m.run
    return r.mapError (.wrap context)

/-- `unlock := s.locks.lock(key); defer unlock()`. -/
def withLock (process : ℕ) (k : Ref) (m : Svc α) : Svc α := do
  act (.lock process k.bindingKey)
  let r : Except Error α ← ExceptT.lift m.run
  act (.unlock process k.bindingKey)
  ExceptT.mk (pure r)

/-! ## Refreshing -/

/-- `refreshSkew`. -/
def refreshSkew : Duration := 30 * second

/-- `needsRefresh`. -/
def needsRefresh (b : Binding) : Svc Bool := do
  if !b.hasRefresh || b.expiry == 0 then return false
  else
    let now : Time ← act .now
    return decide (b.expiry < now + refreshSkew)

/-- The end of `refreshRejected`: the secret goes before the row. -/
def removeRejected (spent : Binding) : Svc Binding := do
  let shredded : Except Error Unit ← act (.revokeSecret spent.ref)
  match shredded with
  | .error _ => throw (.notBoundAt spent.ref.game spent.ref.source)
  | .ok () =>
    let _ ← act (.deleteBinding spent.ref)
    throw (.notBoundAt spent.ref.game spent.ref.source)

/-- `refreshRejected`: a version that has moved means that somebody else won. -/
def refreshRejected (spent : Binding) : Svc Binding := do
  let latest : Except Error (Row spent.ref) ← act (.getBinding spent.ref)
  match latest with
  | .ok latest => if latest.1.version ≠ spent.version then return latest.1 else removeRejected spent
  | .error e => if e.isNotBound then removeRejected spent else throw e

/-- The end of `refreshBinding`: the row is claimed first, the secret written only if the claim held. -/
def storeRotated (fresh : Binding) (rotated : BindingSecret) (t : Token) : Svc Binding := do
  let updated : Binding := { fresh with
    tokenType := t.tokenType, expiry := t.expiry, hasRefresh := rotated.refreshToken != ""
    version := fresh.version + 1 }
  let won ← call (ask (.putIfVersion updated fresh.version))
  if !won then
    let winner ← call (ask (.getBinding fresh.ref))
    return winner.1
  else
    call (ask (.enroll fresh.ref rotated))
    return updated

/-- The part of `refreshBinding` that spends the refresh token. -/
def spendRefresh (src : Source) (fresh : Binding) : Svc Binding := do
  let secret ← call (ask (.use fresh.ref))
  if secret.refreshToken = "" then throw .noRefreshToken
  else
    let answer : Grant ← act (.refreshGrant src secret.refreshToken)
    match answer with
    | .rejected => refreshRejected fresh
    | .transient => throw (.wrap ("federation: refresh " ++ src.name) .upstream)
    | .granted t =>
      -- the refresh token is kept unless it is rotated
      let rotated : BindingSecret := ⟨t.accessToken,
        if t.refreshToken ≠ "" then t.refreshToken else secret.refreshToken⟩
      storeRotated fresh rotated t

/-- `force || s.needsRefresh(b)`. -/
def refreshDue (b : Binding) (force : Bool) : Svc Bool :=
  if force then return true else needsRefresh b

/-- The body of `refreshBinding`, under the binding's lock. -/
def refreshLocked (src : Source) (current : Binding) (force : Bool) : Svc Binding := do
  let ⟨fresh, _⟩ ← call (ask (.getBinding current.ref))
  if fresh.version ≠ current.version then return fresh
  else
    let due ← refreshDue fresh force
    if !due then return fresh
    else if !fresh.hasRefresh then throw .noRefreshToken
    else spendRefresh src fresh

/-- **`refreshBinding`**. -/
def refreshBinding (process : ℕ) (src : Source) (current : Binding) (force : Bool) : Svc Binding :=
  withLock process current.ref (refreshLocked src current force)

/-- `withAccessToken`, with the request made in the vault's window. -/
def withAccessToken (src : Source) (b : Binding) : Svc Unit := do
  let secret ← call (ask (.use b.ref))
  call (ask (.fetch src secret.accessToken))

/-- The refresh before the request, if it is due. -/
def refreshIfDue (process : ℕ) (src : Source) (binding : Binding) : Svc Binding := do
  let due ← needsRefresh binding
  if due then refreshBinding process src binding false else return binding

/-- **`callWithRefresh`**: one refresh before the request if it is due, and one after a 401. -/
def callWithRefresh (process : ℕ) (src : Source) (binding : Binding) : Svc Unit := do
  let binding ← refreshIfDue process src binding
  let r : Except Error Unit ← ExceptT.lift (withAccessToken src binding).run
  match r with
  | .ok () => return ()
  | .error e =>
    if !e.isUnauthorized || !binding.hasRefresh then throw e
    else
      let refreshed ← refreshBinding process src binding true
      withAccessToken src refreshed

/-- A read of the data plane, from the row on. -/
def trySource (process : ℕ) (src : Source) (k : Ref) : Svc Unit := do
  let r : Except Error (Row k) ← act (.getBinding k)
  match r with
  | .error e => if e.isNotBound then throw (.notBoundAt k.game k.source) else throw e
  | .ok binding => callWithRefresh process src binding.1

/-! ## Binding -/

variable (cfg : Config)

/-- **`BeginBind`**: the flow remembers the version the account is bound at. -/
def beginBind (k : Ref) (returnTo : String) : Svc String := do
  match cfg.registry k.game k.source with
  | none => throw .unknownSource
  | some src =>
    if src.status = .retired then throw .sourceRetired
    else if src.clientID = "" ∨ cfg.baseURL = "" then throw .bindUnavailable
    else
      let id ← call (ask .newBindID)
      let verifier : String ← act .newVerifier
      let now : Time ← act .now
      let current : Except Error (Row k) ← act (.getBinding k)
      match current with
      | .error e =>
        if !e.isNotBound then throw e
        else
          call (ask (.putFlow ⟨id, k, verifier, id, returnTo, now + cfg.bindTTL, none⟩))
          return id
      | .ok b =>
        call (ask (.putFlow ⟨id, k, verifier, id, returnTo, now + cfg.bindTTL, some b.1.version⟩))
        return id

/-- The claim of `CompleteBind`, at the version the flow remembers. -/
def claimBound (flow : BindFlow) (binding : Binding) : Svc Bool :=
  match flow.bound with
  | some version => call (ask (.putIfVersion binding version))
  | none => call (ask (.create binding))

/-- The vault write of `CompleteBind`, rolled back where it fails. -/
def storeBound (binding : Binding) (secret : BindingSecret) : Svc Binding := do
  let stored : Except Error Unit ← act (.enroll binding.ref secret)
  match stored with
  | .ok () => return binding
  | .error e =>
    let rolledBack : Except Error Unit ← act (.revokeSecret binding.ref)
    match rolledBack with
    | .error e' => throw (.join e e')
    | .ok () => throw e

/-- The part of `CompleteBind` under the binding's lock: the row is claimed before the vault write. -/
def exchangeAndStore (k : Ref) (flow : BindFlow) (code : String) : Svc Binding := do
  match cfg.registry k.game k.source with
  | none => throw .unknownSource
  | some src =>
    if src.status = .retired then throw .sourceRetired
    else
      let token ← wrapping "federation: bind exchange" (call (ask (.exchange src code flow.verifier)))
      let generation ← call (ask .newBindingGeneration)
      let binding : Binding :=
        ⟨k, token.tokenType, token.expiry, token.refreshToken != "", generation⟩
      let won ← claimBound flow binding
      if !won then throw .bindSuperseded
      else storeBound binding ⟨token.accessToken, token.refreshToken⟩

/-- **`CompleteBind`**: a flow of another user is put back. -/
def completeBind (process : ℕ) (user state code : String) : Svc Binding := do
  let flow ← call (ask (.consumeFlow state))
  if flow.ref.user ≠ user then
    call (ask (.putFlow flow))
    throw .bindUser
  else
    let now : Time ← act .now
    if ¬ now < flow.expiresAt then throw .unknownBind
    else if code = "" then throw (.other "federation: authorization was refused")
    else withLock process flow.ref (exchangeAndStore cfg flow.ref flow code)

/-! ## Removing -/

/-- `upstreamRevocationFailed`. -/
def upstreamRevocationFailed : String := "upstream_revocation_failed"

/-- `revokeUpstream`: best effort. -/
def revokeUpstream (src : Source) (binding : Binding) : Svc (UpstreamRevocation × String) := do
  let r : Except Error BindingSecret ← act (.use binding.ref)
  match r with
  | .error e =>
    if e.isSecretNotFound then return (.nothingToDo, "")
    else return (.unavailable, upstreamRevocationFailed)
  | .ok secret =>
    let (token, hint) := preferredToken secret
    if token = "" then return (.nothingToDo, "")
    else
      let told : Bool ← act (.postRevocation src false token hint)
      if told then return (.done, "") else return (.unavailable, upstreamRevocationFailed)

/-- The local removal: the secret goes first, under the identity of the row that was read. -/
def removeLocally (k : Ref) (binding : Row k) : Svc Unit := do
  wrapping "federation: shred binding secret" (call (ask (.revokeSecret binding.1.ref)))
  wrapping "federation: delete binding" (call (ask (.deleteBinding k)))

/-- The error of a call without user, game or source. -/
def required : Error := .other "federation: user, game and source are required"

/-- What `Unbind` asks of the source, as far as the registry has one. -/
def tellUpstream (k : Ref) (binding : Binding) : Svc (UpstreamRevocation × String) :=
  match cfg.registry k.game k.source with
  | none => return (.nothingToDo, "")
  | some src =>
    if src.tokenClass = .longLived then return (.unsupported, "") else revokeUpstream src binding

/-- **`Unbind`**: the local removal happens whatever the source said. -/
def unbind (process : ℕ) (k : Ref) : Svc (UpstreamRevocation × String) := do
  if k.user = "" ∨ k.game = "" ∨ k.source = "" then throw required
  else withLock process k do
    let r : Except Error (Row k) ← act (.getBinding k)
    match r with
    | .error e =>
      if !e.isNotBound then throw e
      else if (cfg.registry k.game k.source).isNone then throw .unknownSource
      else return (.nothingToDo, "")
    | .ok binding =>
      let result ← tellUpstream cfg k binding.1
      removeLocally k binding
      return result

/-- **`CascadeRevoke`**: nothing is removed unless the source confirmed. -/
def cascadeRevoke (process : ℕ) (k : Ref) : Svc (UpstreamRevocation × String) := do
  if k.user = "" ∨ k.game = "" ∨ k.source = "" then throw required
  else match cfg.registry k.game k.source with
    | none => throw .unknownSource
    | some src =>
      if src.cascadeRevocationEndpoint = "" then throw .cascadeUnsupported
      else withLock process k do
        let binding ← call (ask (.getBinding k))
        let secret ← wrapping "federation: read binding secret" (call (ask (.use binding.1.ref)))
        let (token, hint) := preferredToken secret
        if token = "" then
          throw (.other "federation: the binding holds no token to identify the session")
        else
          let told : Bool ← act (.postRevocation src true token hint)
          if !told then throw (.wrap "federation: cascade revocation" .upstream)
          else
            removeLocally k binding
            return (.done, "")

/-- `shredBinding`. -/
def shredBinding (process : ℕ) (k : Ref) : Svc Unit :=
  withLock process k do
    call (ask (.revokeSecret k))
    call (ask (.deleteBinding k))

/-- `bindingOutcome`. -/
structure BindingOutcome where
  revoked : ℕ
  cascade : ℕ
  unsupported : ℕ
  unavailable : ℕ
  orphaned : ℕ
  failed : ℕ
  deriving DecidableEq, Repr

/-- The end of `revokeBinding`: the binding is cut locally. -/
def revokeByUnbind (process : ℕ) (k : Ref) : Svc BindingOutcome := do
  let r : Except Error (UpstreamRevocation × String) ← ExceptT.lift (unbind cfg process k).run
  match r with
  | .error _ => return ⟨0, 0, 0, 0, 0, 1⟩
  | .ok (.unsupported, _) => return ⟨1, 0, 1, 0, 0, 0⟩
  | .ok (.unavailable, _) => return ⟨1, 0, 0, 1, 0, 0⟩
  | .ok _ => return ⟨1, 0, 0, 0, 0, 0⟩

/-- **`revokeBinding`** of the kill switch: a cascade where the source can, an unbind where that
fails. -/
def revokeBinding (process : ℕ) (k : Ref) : Svc BindingOutcome := do
  match cfg.registry k.game k.source with
  | none =>
    let r : Except Error Unit ← ExceptT.lift (shredBinding process k).run
    match r with
    | .error _ => return ⟨0, 0, 0, 0, 0, 1⟩
    | .ok () => return ⟨1, 0, 0, 0, 1, 0⟩
  | some src =>
    if src.cascadeRevocationEndpoint = "" then revokeByUnbind cfg process k
    else
      let r : Except Error (UpstreamRevocation × String) ←
        ExceptT.lift (cascadeRevoke cfg process k).run
      match r with
      | .ok _ => return ⟨1, 1, 0, 0, 0, 0⟩
      | .error _ => revokeByUnbind cfg process k

/-! ## The service -/

/-- **Calls**, each with the process it is made in. -/
inductive Call
  | beginBind (k : Ref) (returnTo : String)
  | completeBind (process : ℕ) (user state code : String)
  | unbind (process : ℕ) (k : Ref)
  | cascadeRevoke (process : ℕ) (k : Ref)
  | revokeBinding (process : ℕ) (k : Ref)
  | fetch (process : ℕ) (src : Source) (k : Ref)
  | advanceClock (d : ℕ)

/-- What a call returns. -/
inductive Reply
  | challenge (id : String)
  | bound (b : Binding)
  | revocation (upstream : UpstreamRevocation) (upstreamError : String)
  | outcome (o : BindingOutcome)
  | done
  deriving DecidableEq, Repr

/-- The program of a call. -/
def Call.body : Call → Svc Reply
  | .beginBind k returnTo => Reply.challenge <$> Federation.beginBind cfg k returnTo
  | .completeBind process user state code =>
    Reply.bound <$> Federation.completeBind cfg process user state code
  | .unbind process k => (fun r => Reply.revocation r.1 r.2) <$> Federation.unbind cfg process k
  | .cascadeRevoke process k =>
    (fun r => Reply.revocation r.1 r.2) <$> Federation.cascadeRevoke cfg process k
  | .revokeBinding process k => Reply.outcome <$> Federation.revokeBinding cfg process k
  | .fetch process src k => (fun _ => Reply.done) <$> trySource process src k
  | .advanceClock d => (fun _ => Reply.done) <$> act (.advanceClock d)

/-- **The federation service** of all processes. -/
abbrev federation : Service machine where
  Call := Call
  Reply := Except Error Reply
  body c := (c.body cfg).run

end Re0Auth.Federation

import Re0Auth.Lib.Interleave

/-!
# The component runtime

`core.App` keeps a store of capabilities and the fibers that provide and consume them. A reconcile walks
over the fibers until nothing changes; on its way it runs the `Apply` functions of components and the
inverses they registered, and these call back into the runtime. The model makes the goroutine's control
stack explicit: a **`Frame`** is what one function of the runtime has left to do, and one step is one
critical section of the code or one thing user code does.

* **`App`**: store, fibers, scopes and disposers, with the two flags that serialise reconciles;
* **`App.tick`**: what the runtime does next when a frame is on top;
* **`App.call`**: `Use`, `Remove`, `Provide`, `Effect` and running a `Disposer`;
* **`State.next`**: one step; user code on top of the stack may make any call, so `Apply` functions and
  inverses are arbitrary programs over the runtime's calls.

A pointer is a number: fibers, scopes and disposers are counted in the order of their allocation. The
value published under a key is represented by the number of the disposer that withdraws it, so two
publications of one key are told apart. `Shutdown` is added in `Core/Shutdown`; the static checks and the
listings are left out.
-/

namespace Re0Auth.Core

/-- `KeyRef`: the identity of a capability key. -/
structure KeyRef where
  «namespace» : String
  name : String
deriving DecidableEq, Repr

/-- `State`: the lifecycle of a fiber. -/
inductive FiberState
  | inactive
  | loading
  | active
  | unloading
  | failed
deriving DecidableEq, Repr

/-- `Component`: the declared authority. What `Apply` does is user code and chosen by the run; the
record only says whether it is there. -/
structure Component where
  name : String
  provides : List KeyRef
  inject : List KeyRef
  hasApply : Bool
deriving DecidableEq, Repr

/-- How an `Apply` fails. -/
inductive ApplyError
  | returned (message : String)
  | panicked (component message : String)
deriving DecidableEq, Repr

/-- The errors the runtime's calls return. -/
inductive CallError
  | nameRequired
  | nilApply (component : String)
  | notRegistered (component : String)
  | undeclared (ref : KeyRef)
  | duplicate (ref : KeyRef)
deriving DecidableEq, Repr

/-- `binding`: who published, and which publication it is. The root is `none`. -/
structure Binding where
  provider : Option ℕ
  publication : ℕ
deriving DecidableEq, Repr

/-- `Fiber`. The field `against` is not in the source: it records the publications that were bound when
the fiber was last activated. -/
structure Fiber where
  comp : Component
  state : FiberState
  err : Option ApplyError
  target : List (KeyRef × Option ℕ)
  ctx : Option ℕ
  removed : Bool
  against : KeyRef → Option ℕ

/-- `scope`, together with the owner of the `Context` that holds it. The stack has the inverse
registered last at its head. -/
structure Scope where
  owner : Option ℕ
  stack : List ℕ
  disposed : Bool

/-- What a `Disposer` reverts: a publication, or an effect of user code. -/
inductive Inverse
  | withdraw (ref : KeyRef) (provider : Option ℕ)
  | effect
deriving DecidableEq, Repr

/-- `onceDisposer`: an inverse that runs at most once. -/
structure Disposer where
  inverse : Inverse
  done : Bool
deriving DecidableEq, Repr

/-- `App`. -/
structure App where
  store : KeyRef → Option Binding
  /-- The registered fibers in the order of registration. -/
  fibers : List ℕ
  fiber : ℕ → Fiber
  fiberCount : ℕ
  scope : ℕ → Scope
  scopeCount : ℕ
  disposer : ℕ → Disposer
  disposerCount : ℕ
  reconciling : Bool
  dirty : Bool

/-- A fiber that `Use` has just built. -/
def newFiber (comp : Component) : Fiber where
  comp := comp
  state := .inactive
  err := none
  target := []
  ctx := none
  removed := false
  against := fun _ => none

/-- `newScope`, for a context of the owner. -/
def newScope (owner : Option ℕ) : Scope where
  owner := owner
  stack := []
  disposed := false

/-- The scope of the root context. -/
def root : ℕ := 0

/-- `New`: an empty runtime with its root context. -/
def App.init : App where
  store := fun _ => none
  fibers := []
  fiber := fun _ => newFiber ⟨"", [], [], false⟩
  fiberCount := 0
  scope := fun _ => newScope none
  scopeCount := 1
  disposer := fun _ => ⟨.effect, true⟩
  disposerCount := 0
  reconciling := false
  dirty := false

namespace App

variable (a : App)

/-! ## Updates -/

def setFiber (f : ℕ) (g : Fiber) : App := { a with fiber := Function.update a.fiber f g }

def setState (f : ℕ) (st : FiberState) : App := a.setFiber f { a.fiber f with state := st }

def setScope (c : ℕ) (s : Scope) : App := { a with scope := Function.update a.scope c s }

/-- Allocate a disposer for an inverse. -/
def newDisposer (inv : Inverse) : App :=
  { a with
    disposer := Function.update a.disposer a.disposerCount ⟨inv, false⟩
    disposerCount := a.disposerCount + 1 }

/-- Mark a disposer as run. -/
def marked (d : ℕ) : App :=
  { a with disposer := Function.update a.disposer d { a.disposer d with done := true } }

/-! ## Resolution -/

/-- A binding counts while it is the root's or its provider is ACTIVE. -/
def available : Option ℕ → Bool
  | none => true
  | some g => (a.fiber g).state == .active

/-- The entry of the target map for one declared key. -/
def resolve (ref : KeyRef) : Option (KeyRef × Option ℕ) :=
  match a.store ref with
  | none => none
  | some b => if a.available b.provider then some (ref, b.provider) else none

/-- `resolveTargetLocked`: the provider identity for every declared key; `none` when the second result
of the source is false. -/
def resolveTarget (comp : Component) : Option (List (KeyRef × Option ℕ)) := comp.inject.mapM a.resolve

/-- The test `needsLoad` of `step`, for a fiber whose keys resolve to `target`. -/
def needsLoad (f : Fiber) (target : List (KeyRef × Option ℕ)) : Bool :=
  f.state == .inactive || (f.state == .active || f.state == .failed) && target != f.target

/-! ## Frames -/

/-- What a function of the runtime has left to do. -/
inductive Frame
  /-- `requestReconcile` is about to be called. -/
  | request
  /-- `reconcile` at the head of its loop. -/
  | reconcile
  /-- `pass`: the fibers of its snapshot it has yet to step, and whether one changed. -/
  | pass (todo : List ℕ) (changed : Bool)
  /-- The `Apply` of a fiber runs with a context. -/
  | apply (f c : ℕ)
  /-- `step` after `Apply` returned and its effects were added or rolled back. -/
  | loaded (f c : ℕ) (err : Option ApplyError)
  /-- `step` after the backstop dispose of a fiber that was removed while it loaded. -/
  | dropped (f : ℕ)
  /-- `step` after it disposed the context of a fiber that lost a provider. -/
  | unloaded (f : ℕ)
  /-- `forceUnload` is about to be called. -/
  | force (f : ℕ)
  /-- `forceUnload` after its dispose. -/
  | forced (f : ℕ)
  /-- `scope.dispose` is about to be called. -/
  | dispose (c : ℕ)
  /-- `scope.dispose` with the inverses left to run. -/
  | disposing (ds : List ℕ)
  /-- A `Disposer` is about to be called. -/
  | invoke (d : ℕ)
  /-- `scope.add` is about to be called. -/
  | add (c d : ℕ)
  /-- An inverse registered with `Effect` runs. -/
  | user
deriving DecidableEq, Repr

/-- The call that disposes a fiber's context, if it has one. -/
def disposeCtx : Option ℕ → List Frame
  | none => []
  | some c => [.dispose c]

/-- The fiber with a new activation begun: `step` up to the point where it leaves the lock. -/
def loading (f : ℕ) (target : List (KeyRef × Option ℕ)) : App :=
  { a.setFiber f { a.fiber f with
      state := .loading, err := none, target := target, ctx := some a.scopeCount,
      against := fun ref => (a.store ref).map Binding.publication } with
    scope := Function.update a.scope a.scopeCount (newScope (some f))
    scopeCount := a.scopeCount + 1 }

/-- `step`: its first critical section, with the rest of the pass below it. -/
def step (f : ℕ) (todo : List ℕ) (changed : Bool) : App × List Frame :=
  if (a.fiber f).removed then (a, [.pass todo changed])
  else
    match a.resolveTarget (a.fiber f).comp with
    | some target =>
      if needsLoad (a.fiber f) target then
        (a.loading f target,
          disposeCtx (a.fiber f).ctx ++ [.apply f a.scopeCount, .pass todo true])
      else (a, [.pass todo changed])
    | none =>
      if (a.fiber f).state == .active || (a.fiber f).state == .loading then
        (a.setState f .unloading,
          disposeCtx (a.fiber f).ctx ++ [.unloaded f, .pass todo true])
      else (a, [.pass todo changed])

/-- The deletion a withdrawal makes: only a binding of its own provider is removed. -/
def withdraw (ref : KeyRef) (provider : Option ℕ) : App :=
  { a with store := fun r =>
      if r = ref ∧ (a.store r).map Binding.provider = some provider then none else a.store r }

/-- A fiber that has finished unloading is INACTIVE, unless something else moved it on. -/
def settleUnload (f : ℕ) : App :=
  a.setState f (if (a.fiber f).state = .unloading then .inactive else (a.fiber f).state)

/-- What the runtime does when the frame is on top: the state after it and the frames that take its
place. User code decides for `apply` and `user`. -/
def tick : Frame → Option (App × List Frame)
  | .request =>
    if a.reconciling then some ({ a with dirty := true }, [])
    else some ({ a with dirty := true, reconciling := true }, [.reconcile])
  | .reconcile => some ({ a with dirty := false }, [.pass a.fibers false])
  | .pass [] changed =>
    if changed || a.dirty then some (a, [.reconcile]) else some ({ a with reconciling := false }, [])
  | .pass (f :: todo) changed => some (a.step f todo changed)
  | .apply _ _ => none
  | .loaded f c err =>
    if (a.fiber f).removed then some (a, [.dispose c, .dropped f])
    else
      match err with
      | none => some (a.setState f .active, [])
      | some e => some (a.setFiber f { a.fiber f with state := .failed, err := some e }, [])
  | .dropped f => some (a.setFiber f { a.fiber f with ctx := none, target := [], state := .inactive }, [])
  | .unloaded f => some (a.settleUnload f, [])
  | .force f =>
    if (a.fiber f).state = .inactive then some (a, [])
    else some (a.setFiber f { a.fiber f with state := .unloading, target := [] },
      disposeCtx (a.fiber f).ctx ++ [.forced f])
  | .forced f => some (a.settleUnload f, [])
  | .dispose c =>
    if (a.scope c).disposed then some (a, [])
    else some (a.setScope c { a.scope c with stack := [], disposed := true }, [.disposing (a.scope c).stack])
  | .disposing [] => some (a, [])
  | .disposing (d :: ds) => some (a, [.invoke d, .disposing ds])
  | .invoke d =>
    if (a.disposer d).done then some (a, [])
    else
      match (a.disposer d).inverse with
      | .withdraw ref provider => some ((a.marked d).withdraw ref provider, [.request])
      | .effect => some (a.marked d, [.user])
  | .add c d =>
    if (a.scope c).disposed then some (a, [.invoke d])
    else some (a.setScope c { a.scope c with stack := d :: (a.scope c).stack }, [])
  | .user => none

/-! ## Calls -/

/-- The calls user code makes. A context is named by its scope, a `Disposer` by its number. -/
inductive Call
  | use (comp : Component)
  | remove (f : ℕ)
  | provide (c : ℕ) (ref : KeyRef)
  | effect (c : ℕ)
  | withdraw (d : ℕ)
deriving DecidableEq, Repr

/-- `Use` up to its `requestReconcile`. -/
def use (comp : Component) : Except CallError App :=
  if comp.name = "" then .error .nameRequired
  else if !comp.hasApply then .error (.nilApply comp.name)
  else .ok { a.setFiber a.fiberCount (newFiber comp) with
    fibers := a.fibers ++ [a.fiberCount]
    fiberCount := a.fiberCount + 1 }

/-- A fiber marked removed; an ACTIVE one stops providing. -/
def retired (f : Fiber) : Fiber :=
  { f with removed := true, state := if f.state = .active then .unloading else f.state }

/-- `Remove` up to its `requestReconcile`. -/
def remove (f : ℕ) : Except CallError App :=
  if f ∈ a.fibers then .ok { a.setFiber f (retired (a.fiber f)) with fibers := a.fibers.erase f }
  else .error (.notRegistered (a.fiber f).comp.name)

/-- `requireProvided`: the root context is unrestricted. -/
def requireProvided (c : ℕ) (ref : KeyRef) : Bool :=
  match (a.scope c).owner with
  | none => true
  | some f => (a.fiber f).comp.provides.contains ref

/-- `Provide` up to the `requestReconcile` of `bind`. -/
def provide (c : ℕ) (ref : KeyRef) : Except CallError App :=
  if !a.requireProvided c ref then .error (.undeclared ref)
  else
    match a.store ref with
    | some _ => .error (.duplicate ref)
    | none => .ok { a.newDisposer (.withdraw ref (a.scope c).owner) with
        store := Function.update a.store ref (some ⟨(a.scope c).owner, a.disposerCount⟩) }

/-- A call up to the point where it enters the runtime's own functions: the state after it and the
frames of what it has left to do. A refused call does nothing; a call on a context or disposer that was
never handed out is not possible. -/
def call : Call → Option (App × List Frame)
  | .use comp =>
    match a.use comp with
    | .ok a' => some (a', [.request])
    | .error _ => some (a, [])
  | .remove f =>
    match a.remove f with
    | .ok a' => some (a', [.request, .force f])
    | .error _ => some (a, [])
  | .provide c ref =>
    if c < a.scopeCount then
      match a.provide c ref with
      | .ok a' => some (a', [.request, .add c a.disposerCount])
      | .error _ => some (a, [])
    else none
  | .effect c =>
    if c < a.scopeCount then some (a.newDisposer .effect, [.add c a.disposerCount]) else none
  | .withdraw d => if d < a.disposerCount then some (a, [.invoke d]) else none

/-- What `Apply` returns: success with or without a disposer of its own, or an error. -/
inductive Outcome
  | ok (disposer : Bool)
  | err (e : ApplyError)
deriving DecidableEq, Repr

/-- `step` after `Apply` returned. -/
def applied (f c : ℕ) : Outcome → App × List Frame
  | .ok false => (a, [.loaded f c none])
  | .ok true => (a.newDisposer .effect, [.add c a.disposerCount, .loaded f c none])
  | .err e => (a, [.dispose c, .loaded f c (some e)])

end App

/-! ## Runs -/

/-- The runtime and the control stack of the goroutine that is in it. -/
structure State where
  app : App
  stack : List App.Frame

/-- One step: of the runtime, of user code that calls, or of user code that returns. -/
inductive Event
  | tick
  | call (c : App.Call)
  | applied (o : App.Outcome)
  | ret
deriving DecidableEq, Repr

namespace State

/-- The initial state, outside of any call. -/
def init : State := ⟨App.init, []⟩

/-- User code has the turn: outside of the runtime, in an `Apply`, or in an inverse. -/
def userTurn : List App.Frame → Bool
  | [] => true
  | .apply _ _ :: _ => true
  | .user :: _ => true
  | _ => false

/-- **One step of the runtime.** -/
def next (s : State) : Event → Option State
  | .tick =>
    match s.stack with
    | [] => none
    | fr :: k => (s.app.tick fr).map fun r => ⟨r.1, r.2 ++ k⟩
  | .call c =>
    if userTurn s.stack then (s.app.call c).map fun r => ⟨r.1, r.2 ++ s.stack⟩ else none
  | .applied o =>
    match s.stack with
    | .apply f c :: k => some ⟨(s.app.applied f c o).1, (s.app.applied f c o).2 ++ k⟩
    | _ => none
  | .ret =>
    match s.stack with
    | .user :: k => some ⟨s.app, k⟩
    | _ => none

/-- Reachable by steps whose events meet a condition in the state they are taken from. -/
def Reaches (ok : State → Event → Prop) : State → State → Prop :=
  Relation.ReflTransGen fun s t => ∃ e, ok s e ∧ s.next e = some t

/-- Run a list of events, each of which has to pass a check in the state it is taken from. -/
def runIf (check : State → Event → Bool) (s : State) (es : List Event) : Option State :=
  es.foldlM (fun s e => if check s e then s.next e else none) s

theorem reaches_of_runIf {check : State → Event → Bool} {ok : State → Event → Prop} {s t : State}
    {es : List Event} (hcheck : ∀ s e, check s e = true → ok s e)
    (h : runIf check s es = some t) : Reaches ok s t := by
  refine Lib.foldlM_induct .refl (fun u v e _ hrun hn => ?_) h
  split_ifs at hn with hc
  exact .tail hrun ⟨e, hcheck u e hc, hn⟩

/-- No reconcile runs and none is about to be requested. -/
def Settled (s : State) : Prop := s.app.reconciling = false ∧ App.Frame.request ∉ s.stack

end State

end Re0Auth.Core

import Re0Auth.Core.App
import Mathlib.Order.Nat

/-!
# The control stack of the component runtime

What a step can do, said once, and the invariants of the control stack that every later argument about
the runtime needs.

* **`Move`**: the effect of one step on the runtime and on the top of the stack, one constructor for
  each way through the code (**`State.next_move`**);
* **`Nested`**: a reconcile is on the stack at most once and runs one transition at a time;
* **`Wired`**: which fibers are registered, and what the frames on the stack say about the fibers they
  are about (**`Wired.step`**).
-/

namespace Re0Auth.Core

open App Function List Option Bool

variable {a a' : App} {k old new : List Frame} {f c d : ℕ} {s t : State} {e : Event}

namespace App

/-- A step leaves the fiber alone: nothing to load and nothing to unload. -/
def Stable (a : App) (f : ℕ) : Prop :=
  match a.resolveTarget (a.fiber f).comp with
  | some target => needsLoad (a.fiber f) target = false
  | none => (a.fiber f).state ≠ .active ∧ (a.fiber f).state ≠ .loading

end App

/-! ## What one step can do -/

/-- **The effect of one step.** The frames `old` on top of the stack are replaced by `new`. -/
inductive Move (a : App) : List Frame → App → List Frame → Prop
  /-- A request while a reconcile runs is recorded. -/
  | busy : a.reconciling = true → Move a [.request] { a with dirty := true } []
  | start : a.reconciling = false →
      Move a [.request] { a with dirty := true, reconciling := true } [.reconcile]
  | begin : Move a [.reconcile] { a with dirty := false } [.pass a.fibers false]
  | again {changed : Bool} : (changed || a.dirty) = true → Move a [.pass [] changed] a [.reconcile]
  | settle : a.dirty = false → Move a [.pass [] false] { a with reconciling := false } []
  | skip {f : ℕ} {todo : List ℕ} {changed : Bool} : (a.fiber f).removed = true ∨ a.Stable f →
      Move a [.pass (f :: todo) changed] a [.pass todo changed]
  | load {f : ℕ} {todo : List ℕ} {changed : Bool} {target : List (KeyRef × Option ℕ)} :
      (a.fiber f).removed = false → a.resolveTarget (a.fiber f).comp = some target →
      Move a [.pass (f :: todo) changed] (a.loading f target)
        (disposeCtx (a.fiber f).ctx ++ [.apply f a.scopeCount, .pass todo true])
  | unload {f : ℕ} {todo : List ℕ} {changed : Bool} :
      (a.fiber f).removed = false → a.resolveTarget (a.fiber f).comp = none →
      Move a [.pass (f :: todo) changed] (a.setState f .unloading)
        (disposeCtx (a.fiber f).ctx ++ [.unloaded f, .pass todo true])
  | drop {f c : ℕ} {err : Option ApplyError} : (a.fiber f).removed = true →
      Move a [.loaded f c err] a [.dispose c, .dropped f]
  | activate {f c : ℕ} : (a.fiber f).removed = false →
      Move a [.loaded f c none] (a.setState f .active) []
  | fail {f c : ℕ} {e : ApplyError} : (a.fiber f).removed = false →
      Move a [.loaded f c (some e)] (a.setFiber f { a.fiber f with state := .failed, err := some e }) []
  | dropped {f : ℕ} : Move a [.dropped f]
      (a.setFiber f { a.fiber f with ctx := none, target := [], state := .inactive }) []
  | unloaded {f : ℕ} : Move a [.unloaded f] (a.settleUnload f) []
  | forceIdle {f : ℕ} : (a.fiber f).state = .inactive → Move a [.force f] a []
  | force {f : ℕ} : (a.fiber f).state ≠ .inactive →
      Move a [.force f] (a.setFiber f { a.fiber f with state := .unloading, target := [] })
        (disposeCtx (a.fiber f).ctx ++ [.forced f])
  | forced {f : ℕ} : Move a [.forced f] (a.settleUnload f) []
  | disposeAgain {c : ℕ} : (a.scope c).disposed = true → Move a [.dispose c] a []
  | dispose {c : ℕ} : (a.scope c).disposed = false →
      Move a [.dispose c] (a.setScope c { a.scope c with stack := [], disposed := true })
        [.disposing (a.scope c).stack]
  | disposed : Move a [.disposing []] a []
  | pop {d : ℕ} {ds : List ℕ} : Move a [.disposing (d :: ds)] a [.invoke d, .disposing ds]
  | invokeAgain {d : ℕ} : (a.disposer d).done = true → Move a [.invoke d] a []
  | withdraw {d : ℕ} {ref : KeyRef} {p : Option ℕ} : a.disposer d = ⟨.withdraw ref p, false⟩ →
      Move a [.invoke d] ((a.marked d).withdraw ref p) [.request]
  | revert {d : ℕ} : a.disposer d = ⟨.effect, false⟩ → Move a [.invoke d] (a.marked d) [.user]
  | addLate {c d : ℕ} : (a.scope c).disposed = true → Move a [.add c d] a [.invoke d]
  | add {c d : ℕ} : (a.scope c).disposed = false →
      Move a [.add c d] (a.setScope c { a.scope c with stack := d :: (a.scope c).stack }) []
  | use {comp : Component} : Move a []
      { a.setFiber a.fiberCount (newFiber comp) with
        fibers := a.fibers ++ [a.fiberCount], fiberCount := a.fiberCount + 1 } [.request]
  | remove {f : ℕ} : f ∈ a.fibers → Move a []
      { a.setFiber f (retired (a.fiber f)) with fibers := a.fibers.erase f } [.request, .force f]
  | provide {c : ℕ} {ref : KeyRef} : c < a.scopeCount → a.store ref = none → Move a []
      { a.newDisposer (.withdraw ref (a.scope c).owner) with
        store := Function.update a.store ref (some ⟨(a.scope c).owner, a.disposerCount⟩) }
      [.request, .add c a.disposerCount]
  | effect {c : ℕ} : c < a.scopeCount → Move a [] (a.newDisposer .effect) [.add c a.disposerCount]
  | refused : Move a [] a []
  | run {d : ℕ} : Move a [] a [.invoke d]
  | ok {f c : ℕ} : Move a [.apply f c] a [.loaded f c none]
  | okDisposer {f c : ℕ} :
      Move a [.apply f c] (a.newDisposer .effect) [.add c a.disposerCount, .loaded f c none]
  | err {f c : ℕ} {e : ApplyError} : Move a [.apply f c] a [.dispose c, .loaded f c (some e)]
  | ret : Move a [.user] a []

theorem step_move (f : ℕ) (todo : List ℕ) (changed : Bool) :
    Move a [.pass (f :: todo) changed] (a.step f todo changed).1 (a.step f todo changed).2 := by
  unfold App.step
  by_cases hrem : (a.fiber f).removed = true
  · rw [if_pos hrem]
    exact .skip (.inl hrem)
  rw [if_neg hrem, not_eq_true] at *
  cases ht : a.resolveTarget (a.fiber f).comp with
  | some target =>
    by_cases hload : needsLoad (a.fiber f) target = true
    · simp only [if_pos hload]
      exact .load hrem ht
    · simp only [if_neg hload]
      exact .skip (.inr (by simpa [Stable, ht] using hload))
  | none =>
    by_cases hst : ((a.fiber f).state == .active || (a.fiber f).state == .loading) = true
    · simp only [if_pos hst]
      exact .unload hrem ht
    · simp only [if_neg hst]
      exact .skip (.inr (by simpa [Stable, ht] using hst))

theorem tick_move {fr : Frame} (h : a.tick fr = some (a', new)) : Move a [fr] a' new := by
  cases fr with
  | request =>
    simp only [App.tick] at h
    split at h
    · cases h
      exact .busy ‹_›
    · rename_i hno
      cases h
      exact .start (eq_false_of_ne_true hno)
  | reconcile =>
    cases h
    exact .begin
  | pass todo changed =>
    cases todo with
    | nil =>
      simp only [App.tick] at h
      split at h
      · cases h
        exact .again ‹_›
      · rename_i hno
        cases h
        rw [not_eq_true, or_eq_false_iff] at hno
        rw [hno.1]
        exact .settle hno.2
    | cons f todo =>
      have hm := step_move (a := a) f todo changed
      rwa [some.inj h] at hm
  | apply f c => cases h
  | loaded f c err =>
    simp only [App.tick] at h
    split at h
    · cases h
      exact .drop ‹_›
    · rename_i hrem
      rw [not_eq_true] at hrem
      cases err with
      | none =>
        cases h
        exact .activate hrem
      | some e =>
        cases h
        exact .fail hrem
  | dropped f =>
    cases h
    exact .dropped
  | unloaded f =>
    cases h
    exact .unloaded
  | force f =>
    simp only [App.tick] at h
    split at h
    · cases h
      exact .forceIdle ‹_›
    · cases h
      exact .force ‹_›
  | forced f =>
    cases h
    exact .forced
  | dispose c =>
    simp only [App.tick] at h
    split at h
    · cases h
      exact .disposeAgain ‹_›
    · rename_i hno
      cases h
      exact .dispose (eq_false_of_ne_true hno)
  | disposing ds =>
    cases ds with
    | nil =>
      cases h
      exact .disposed
    | cons d ds =>
      cases h
      exact .pop
  | invoke d =>
    simp only [App.tick] at h
    split at h
    · cases h
      exact .invokeAgain ‹_›
    · rename_i hdone
      rw [not_eq_true] at hdone
      cases hinv : (a.disposer d).inverse with
      | withdraw ref p =>
        rw [hinv] at h
        cases h
        exact .withdraw (by rw [← hinv, ← hdone])
      | effect =>
        rw [hinv] at h
        cases h
        exact .revert (by rw [← hinv, ← hdone])
  | add c d =>
    simp only [App.tick] at h
    split at h
    · cases h
      exact .addLate ‹_›
    · rename_i hno
      cases h
      exact .add (eq_false_of_ne_true hno)
  | user => cases h

/-- What a call of user code does. -/
inductive Called (a : App) : Call → App → List Frame → Prop
  | refused {x : Call} : Called a x a []
  | use {comp : Component} : Called a (.use comp)
      { a.setFiber a.fiberCount (newFiber comp) with
        fibers := a.fibers ++ [a.fiberCount], fiberCount := a.fiberCount + 1 } [.request]
  | remove {f : ℕ} (hf : f ∈ a.fibers) : Called a (.remove f)
      { a.setFiber f (retired (a.fiber f)) with fibers := a.fibers.erase f } [.request, .force f]
  | provide {c : ℕ} {ref : KeyRef} (hc : c < a.scopeCount) (hs : a.store ref = none) :
      Called a (.provide c ref)
        { a.newDisposer (.withdraw ref (a.scope c).owner) with
          store := Function.update a.store ref (some ⟨(a.scope c).owner, a.disposerCount⟩) }
        [.request, .add c a.disposerCount]
  | effect {c : ℕ} (hc : c < a.scopeCount) :
      Called a (.effect c) (a.newDisposer .effect) [.add c a.disposerCount]
  | run {d : ℕ} : Called a (.withdraw d) a [.invoke d]

theorem Called.move {x : Call} (h : Called a x a' new) : Move a [] a' new := by
  cases h with
  | refused => exact .refused
  | use => exact .use
  | remove hf => exact .remove hf
  | provide hc hs => exact .provide hc hs
  | effect hc => exact .effect hc
  | run => exact .run

theorem called_of_call {x : Call} (h : a.call x = some (a', new)) : Called a x a' new := by
  cases x with
  | use comp =>
    simp only [App.call, App.use] at h
    split at h
    · rename_i hu
      split_ifs at hu
      cases hu
      cases h
      exact .use
    · cases h
      exact .refused
  | remove f =>
    simp only [App.call, App.remove] at h
    split at h
    · rename_i hr
      split_ifs at hr with hf
      cases hr
      cases h
      exact .remove hf
    · cases h
      exact .refused
  | provide c ref =>
    simp only [App.call, App.provide] at h
    split at h
    · rename_i hc
      split at h
      · rename_i hp
        split_ifs at hp
        split at hp
        · cases hp
        · rename_i hs
          cases hp
          cases h
          exact .provide hc hs
      · cases h
        exact .refused
    · cases h
  | effect c =>
    simp only [App.call] at h
    split_ifs at h with hc
    cases h
    exact .effect hc
  | withdraw d =>
    simp only [App.call] at h
    split_ifs at h
    cases h
    exact .run

/-- **Every step is a move** at the top of the stack: user code calls where it has the turn, and any
other step takes the frame that is there. -/
theorem State.next_cases (h : s.next e = some t) :
    (∃ x new, e = .call x ∧ userTurn s.stack = true ∧ t.stack = new ++ s.stack ∧ Called s.app x t.app new) ∨
      ∃ fr k new, (e = .tick ∨ userTurn s.stack = true) ∧ s.stack = fr :: k ∧ t.stack = new ++ k ∧
        Move s.app [fr] t.app new := by
  obtain ⟨a, stack⟩ := s
  cases e with
  | tick =>
    cases stack with
    | nil => cases h
    | cons fr k =>
      obtain ⟨⟨a', new⟩, hr, rfl⟩ := map_eq_some_iff.1 h
      exact .inr ⟨fr, k, new, .inl rfl, rfl, rfl, tick_move hr⟩
  | call c =>
    simp only [State.next] at h
    split_ifs at h with huser
    obtain ⟨⟨a', new⟩, hr, rfl⟩ := map_eq_some_iff.1 h
    exact .inl ⟨c, new, rfl, huser, rfl, called_of_call hr⟩
  | applied o =>
    simp only [State.next] at h
    split at h
    · rename_i f c k
      cases h
      refine .inr ⟨.apply f c, k, (a.applied f c o).2, .inr rfl, rfl, rfl, ?_⟩
      cases o with
      | ok b =>
        cases b with
        | false => exact .ok
        | true => exact .okDisposer
      | err e => exact .err
    · cases h
  | ret =>
    simp only [State.next] at h
    split at h
    · rename_i k
      cases h
      exact .inr ⟨.user, k, [], .inr rfl, rfl, rfl, .ret⟩
    · cases h

theorem State.next_move (h : s.next e = some t) :
    ∃ old new k, s.stack = old ++ k ∧ t.stack = new ++ k ∧ Move s.app old t.app new := by
  obtain ⟨x, new, -, -, ht, hc⟩ | ⟨fr, k, new, -, hs, ht, hm⟩ := next_cases h
  · exact ⟨[], new, s.stack, rfl, ht, hc.move⟩
  · exact ⟨[fr], new, k, hs, ht, hm⟩

theorem fiber_setFiber {g : Fiber} {x : ℕ} :
    (a.setFiber f g).fiber x = if x = f then g else a.fiber x := update_apply ..

/-- **Turn** of a fiber: what a step makes of the fiber it changes. -/
inductive Turn (a : App) (f : ℕ) : List Frame → List Frame → Fiber → Prop
  | load {todo : List ℕ} {changed : Bool} {target : List (KeyRef × Option ℕ)}
      (hrem : (a.fiber f).removed = false) (ht : a.resolveTarget (a.fiber f).comp = some target) :
      Turn a f [.pass (f :: todo) changed]
        (disposeCtx (a.fiber f).ctx ++ [.apply f a.scopeCount, .pass todo true])
        { a.fiber f with
          state := .loading, err := none, target := target, ctx := some a.scopeCount,
          against := fun ref => (a.store ref).map Binding.publication }
  | unload {todo : List ℕ} {changed : Bool} (hrem : (a.fiber f).removed = false) :
      Turn a f [.pass (f :: todo) changed] (disposeCtx (a.fiber f).ctx ++ [.unloaded f, .pass todo true])
        { a.fiber f with state := .unloading }
  | activate {c : ℕ} (hrem : (a.fiber f).removed = false) :
      Turn a f [.loaded f c none] [] { a.fiber f with state := .active }
  | fail {c : ℕ} {e : ApplyError} (hrem : (a.fiber f).removed = false) :
      Turn a f [.loaded f c (some e)] [] { a.fiber f with state := .failed, err := some e }
  | dropped : Turn a f [.dropped f] [] { a.fiber f with ctx := none, target := [], state := .inactive }
  | settle {fr : Frame} (hfr : fr = .unloaded f ∨ fr = .forced f) : Turn a f [fr] []
      { a.fiber f with state := if (a.fiber f).state = .unloading then .inactive else (a.fiber f).state }
  | force : Turn a f [.force f] (disposeCtx (a.fiber f).ctx ++ [.forced f])
      { a.fiber f with state := .unloading, target := [] }
  | use {comp : Component} (hf : f = a.fiberCount) : Turn a f [] [.request] (newFiber comp)
  | remove (hf : f ∈ a.fibers) : Turn a f [] [.request, .force f] (retired (a.fiber f))

theorem turn_setFiber {x : ℕ} {g : Fiber} (h : Turn a x old new g) (f : ℕ) :
    (a.setFiber x g).fiber f = a.fiber f ∨ Turn a f old new ((a.setFiber x g).fiber f) := by
  rw [fiber_setFiber]
  split_ifs with hf
  · subst hf
    exact .inr h
  · exact .inl rfl

/-- A step changes one fiber at most. -/
theorem Move.turn (hm : Move a old a' new) (f : ℕ) :
    a'.fiber f = a.fiber f ∨ Turn a f old new (a'.fiber f) := by
  cases hm with
  | load hrem ht => exact turn_setFiber (.load hrem ht) f
  | unload hrem => exact turn_setFiber (.unload hrem) f
  | activate hrem => exact turn_setFiber (.activate hrem) f
  | fail hrem => exact turn_setFiber (.fail hrem) f
  | dropped => exact turn_setFiber .dropped f
  | unloaded => exact turn_setFiber (.settle (.inl rfl)) f
  | forced => exact turn_setFiber (.settle (.inr rfl)) f
  | force => exact turn_setFiber .force f
  | use => exact turn_setFiber (.use rfl) f
  | remove hf => exact turn_setFiber (.remove hf) f
  | _ => exact .inl rfl

/-! ## The shape of the stack -/

/-- The part of the runtime a frame belongs to: the loop of a reconcile, the transition of one fiber
within it, or anything a call does outside of a reconcile as well. -/
inductive Layer
  | loop
  | transition
  | any
deriving DecidableEq

def layer : Frame → Layer
  | .reconcile | .pass _ _ => .loop
  | .apply _ _ | .loaded _ _ _ | .dropped _ | .unloaded _ => .transition
  | _ => .any

/-- A stack on which a reconcile runs or not: its loop is there once, and a transition stands right
above a pass that has recorded a change. -/
def Nested : Bool → List Frame → Prop
  | r, [] => r = false
  | r, fr :: k =>
    match layer fr with
    | .loop => r = true ∧ Nested false k
    | .transition => r = true ∧ (∃ todo l, k = .pass todo true :: l) ∧ Nested true k
    | .any => Nested r k

attribute [local simp] setState setFiber setScope loading marked newDisposer settleUnload App.withdraw

theorem nested_disposeCtx {r : Bool} {o : Option ℕ} : Nested r (disposeCtx o ++ k) ↔ Nested r k := by
  cases o <;> simp [disposeCtx, Nested, layer]

theorem Move.nested (hm : Move a old a' new) (h : Nested a.reconciling (old ++ k)) :
    Nested a'.reconciling (new ++ k) := by
  cases hm with
  | start hr => simpa [Nested, layer, hr] using h
  | settle => exact h.2
  | activate | fail | dropped | unloaded =>
    -- A finished transition uncovers the pass below it.
    obtain ⟨hr, -, hk⟩ := h
    simpa [hr] using hk
  | _ => simpa [Nested, layer, nested_disposeCtx] using h

/-- Outside of a reconcile there is neither a loop nor a transition. -/
theorem Nested.any_of_false (h : Nested false k) : ∀ fr ∈ k, layer fr = .any := by
  induction k with
  | nil => simp
  | cons fr k ih =>
    cases hl : layer fr with
    | loop => simp [Nested, hl] at h
    | transition => simp [Nested, hl] at h
    | any =>
      simp only [Nested, hl] at h
      simpa [hl] using ih h

/-- Below a loop or a transition there is no other transition. -/
theorem Nested.not_transition {r : Bool} {top fr : Frame} (h : Nested r (top :: k))
    (htop : layer top ≠ .any) (hfr : fr ∈ k) : layer fr ≠ .transition := by
  cases hl : layer top with
  | any => exact absurd hl htop
  | loop =>
    simp only [Nested, hl] at h
    rw [h.2.any_of_false fr hfr]
    nofun
  | transition =>
    simp only [Nested, hl] at h
    obtain ⟨-, ⟨todo, l, rfl⟩, -, hl'⟩ := h
    rcases mem_cons.1 hfr with rfl | hfr
    · nofun
    · rw [hl'.any_of_false fr hfr]
      nofun

/-! ## Fibers and frames -/

theorem Move.old_cases (hm : Move a old a' new) : old = [] ∨ ∃ top, old = [top] := by
  cases hm <;> simp

/-- What is never undone: allocations, removals and the owners of scopes. -/
structure Grows (a a' : App) : Prop where
  fibers : a.fiberCount ≤ a'.fiberCount
  removed : ∀ f, f < a.fiberCount → (a.fiber f).removed = true → (a'.fiber f).removed = true
  scopes : a.scopeCount ≤ a'.scopeCount
  owner : ∀ c, c < a.scopeCount → (a'.scope c).owner = (a.scope c).owner

theorem Move.grows (hm : Move a old a' new) : Grows a a' := by
  cases hm <;> constructor <;> simp [update_apply] <;> grind [retired]

/-- What a frame says about the fiber it is about. -/
def Fits (a : App) : Frame → Prop
  | .force f | .forced f => f < a.fiberCount ∧ (a.fiber f).removed = true
  | .apply f c | .loaded f c _ => c < a.scopeCount ∧ f < a.fiberCount ∧ (a.fiber f).ctx = some c ∧
      (a.scope c).owner = some f ∧ ((a.fiber f).removed = true ∨ (a.fiber f).state = .loading)
  | .dropped f | .unloaded f => f < a.fiberCount
  | .pass todo _ => ∀ f ∈ todo, f < a.fiberCount
  | .dispose c | .add c _ => c < a.scopeCount
  | _ => True

/-- **The wiring of the runtime**: its stack is well nested, the registered fibers are those that were
not removed, and every frame fits. -/
structure Wired (a : App) (k : List Frame) : Prop where
  nested : Nested a.reconciling k
  nodup : a.fibers.Nodup
  registered : ∀ f, f ∈ a.fibers ↔ f < a.fiberCount ∧ (a.fiber f).removed = false
  active : ∀ f, (a.fiber f).state = .active → f < a.fiberCount ∧ (a.fiber f).removed = false
  owner : ∀ c f, (a.scope c).owner = some f → c < a.scopeCount ∧ f < a.fiberCount
  ctx : ∀ f c, (a.fiber f).ctx = some c → c < a.scopeCount
  fits : ∀ fr ∈ k, Fits a fr

/-- Outside of the loop and of transitions a step moves only removed fibers, and keeps every context. -/
theorem Move.outside (hm : Move a old a' new) (hold : ∀ fr ∈ old, layer fr = .any)
    (hfits : ∀ fr ∈ old, Fits a fr) (hf : f < a.fiberCount) :
    (a'.fiber f).ctx = (a.fiber f).ctx ∧
      ((a'.fiber f).removed = true ∨ (a'.fiber f).state = (a.fiber f).state) := by
  obtain heq | hturn := hm.turn f
  · rw [heq]
    exact ⟨rfl, .inr rfl⟩
  · generalize a'.fiber f = g at hturn
    cases hturn with
    | force => exact ⟨rfl, .inl (hfits _ mem_cons_self).2⟩
    | settle hfr =>
      obtain rfl | rfl := hfr
      · exact absurd (hold _ mem_cons_self) nofun
      · exact ⟨rfl, .inl (hfits _ mem_cons_self).2⟩
    | use hnew => exact absurd hnew hf.ne
    | remove => exact ⟨rfl, .inl rfl⟩
    | _ => exact absurd (hold _ mem_cons_self) nofun

theorem Fits.kept {fr : Frame} (h : Fits a fr) (hg : Grows a a')
    (hctx : layer fr = .transition → ∀ f < a.fiberCount, (a'.fiber f).ctx = (a.fiber f).ctx ∧
      ((a'.fiber f).removed = true ∨ (a'.fiber f).state = (a.fiber f).state)) : Fits a' fr := by
  cases fr with
  | force f | forced f => exact ⟨h.1.trans_le hg.fibers, hg.removed f h.1 h.2⟩
  | apply f c | loaded f c =>
    obtain ⟨hc, hf, hctx', howner, hst⟩ := h
    obtain ⟨hkeep, hmoved⟩ := hctx rfl f hf
    refine ⟨hc.trans_le hg.scopes, hf.trans_le hg.fibers, hkeep.trans hctx', (hg.owner c hc).trans howner, ?_⟩
    rcases hst with hrem | hload
    · exact .inl (hg.removed f hf hrem)
    · exact hmoved.imp_right (·.trans hload)
  | dropped f | unloaded f => exact Nat.lt_of_lt_of_le h hg.fibers
  | pass todo changed => exact fun f hf => (h f hf).trans_le hg.fibers
  | dispose c | add c d => exact Nat.lt_of_lt_of_le h hg.scopes
  | _ => trivial

theorem fits_disposeCtx {o : Option ℕ} (h : ∀ c, o = some c → c < a.scopeCount) :
    ∀ fr ∈ disposeCtx o, Fits a fr := by
  cases o with
  | none => nofun
  | some c => simpa [disposeCtx, Fits] using h c rfl

/-- The frames a step pushes fit. -/
theorem Wired.pushed (h : Wired a (old ++ k)) (hm : Move a old a' new) : ∀ fr ∈ new, Fits a' fr := by
  have hold : ∀ fr ∈ old, Fits a fr := fun fr hfr => h.fits fr (mem_append_left _ hfr)
  cases hm with
  | @load x todo =>
    obtain ⟨hx, htodo⟩ := forall_mem_cons.1 (hold _ mem_cons_self)
    refine forall_mem_append.2 ⟨fits_disposeCtx fun c hc => (h.ctx x c hc).trans (Nat.lt_succ_self _), ?_⟩
    simpa [Fits, newScope, hx] using htodo
  | @unload x todo =>
    obtain ⟨hx, htodo⟩ := forall_mem_cons.1 (hold _ mem_cons_self)
    refine forall_mem_append.2 ⟨fits_disposeCtx (h.ctx x), ?_⟩
    simpa [Fits, hx] using htodo
  | @force x =>
    refine forall_mem_append.2 ⟨fits_disposeCtx (h.ctx x), ?_⟩
    simpa [Fits] using hold _ mem_cons_self
  | begin => simpa [Fits] using fun f hf => ((h.registered f).1 hf).1
  | skip => simpa [Fits] using (forall_mem_cons.1 (hold _ mem_cons_self)).2
  | remove hf => simpa [Fits, retired] using ((h.registered _).1 hf).1
  | drop =>
    have hrun := hold _ mem_cons_self
    simpa [Fits] using And.intro hrun.1 hrun.2.1
  | ok => simpa [Fits] using hold _ mem_cons_self
  | okDisposer | err =>
    have hrun := hold _ mem_cons_self
    simpa [Fits] using And.intro hrun.1 hrun
  | provide hc | effect hc => simpa [Fits] using hc
  | _ => simp [Fits]

theorem Wired.init : Wired App.init [] := by
  constructor <;> simp [App.init, Nested, newFiber, newScope]

/-- **A step keeps the wiring.** -/
theorem Wired.step (h : Wired a (old ++ k)) (hm : Move a old a' new) : Wired a' (new ++ k) where
  nested := hm.nested h.nested
  nodup := by
    have hnodup := h.nodup
    cases hm with
    | use =>
      have hfresh : a.fiberCount ∉ a.fibers := fun hf => lt_irrefl _ ((h.registered _).1 hf).1
      exact nodup_append.2 ⟨hnodup, by simp, by grind⟩
    | remove => exact hnodup.erase _
    | _ => exact hnodup
  registered := by
    have hreg := h.registered
    cases hm with
    | use =>
      intro f
      by_cases hf : f = a.fiberCount
      · simp [hf, newFiber]
      · simp only [setFiber, mem_append, hreg f, mem_singleton, hf, update_of_ne hf]
        grind
    | @remove x _ =>
      intro g
      by_cases hg : g = x
      · subst hg
        simpa [retired] using h.nodup.not_mem_erase
      · simp [mem_erase_of_ne hg, hreg g, update_of_ne hg]
    | @load x | @unload x | @activate x | @fail x | @dropped x | @unloaded x | @force x | @forced x =>
      intro g
      by_cases hg : g = x
      · subst hg
        simpa using hreg _
      · simpa [hg] using hreg g
    | _ => exact hreg
  active := by
    intro g hst
    have hold : (a.fiber g).state = .active → g < a'.fiberCount ∧ (a.fiber g).removed = false :=
      fun hst => (h.active g hst).imp_left (Nat.lt_of_lt_of_le · hm.grows.fibers)
    obtain heq | hturn := hm.turn g
    · rw [heq] at hst ⊢
      exact hold hst
    · generalize a'.fiber g = f' at hturn hst ⊢
      cases hturn with
      | activate hrem => exact ⟨(h.fits _ mem_cons_self).2.1.trans_le hm.grows.fibers, hrem⟩
      | settle =>
        dsimp only at hst ⊢
        split_ifs at hst
        exact hold hst
      | remove =>
        simp only [retired] at hst
        split_ifs at hst with hact
        exact absurd hst hact
      | _ => cases hst
  owner := by
    have hown := h.owner
    cases hm with
    | load =>
      intro c g
      simp only [setFiber, loading, update_apply]
      have hf := h.fits _ mem_cons_self _ mem_cons_self
      split_ifs with hc
      · rintro ⟨⟩
        exact ⟨by omega, hf⟩
      · intro ho
        exact ⟨(hown c g ho).1.trans (Nat.lt_succ_self _), (hown c g ho).2⟩
    | use => exact fun c g ho => ⟨(hown c g ho).1, (hown c g ho).2.trans (Nat.lt_succ_self _)⟩
    | dispose | add =>
      intro c g
      simp only [setScope, update_apply]
      split_ifs with hc
      · subst hc
        exact hown _ g
      · exact hown c g
    | _ => exact hown
  ctx := by
    intro g c hc
    have hold : (a.fiber g).ctx = some c → c < a'.scopeCount := fun hc =>
      (h.ctx g c hc).trans_le hm.grows.scopes
    obtain heq | hturn := hm.turn g
    · rw [heq] at hc
      exact hold hc
    · generalize a'.fiber g = f' at hturn hc
      cases hturn with
      | load =>
        cases hc
        exact (h.pushed hm (.apply g _) (by simp)).1
      | use | dropped => cases hc
      | _ => exact hold hc
  fits := by
    intro fr hfr
    rcases mem_append.1 hfr with hfr | hfr
    · exact h.pushed hm fr hfr
    · refine (h.fits fr (mem_append_right _ hfr)).kept hm.grows fun hlayer f hf => ?_
      -- A transition is below the top, so the step is outside of the loop.
      refine hm.outside (fun top htop => ?_) (fun top htop => h.fits top (mem_append_left _ htop)) hf
      rcases hm.old_cases with rfl | ⟨top', rfl⟩
      · cases htop
      · rw [mem_singleton.1 htop]
        by_contra hany
        exact h.nested.not_transition hany hfr hlayer

end Re0Auth.Core

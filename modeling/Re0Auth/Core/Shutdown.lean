import Mathlib.Algebra.GroupWithZero.Nat
import Re0Auth.Core.Teardown
import Re0Auth.Lib.DepthFirst

/-!
# Shutting the runtime down

`Shutdown` closes the runtime, so that no reconcile starts any more, and calls `forceUnload` on every
fiber in the order of `unloadOrder`, the reverse of a depth-first order over the providers of the keys
that are bound; then it disposes the root scope.

* **`App.unloadOrder`**: the order, read from the store;
* **`Runtime`**: the runtime with its `closed` flag and with `Shutdown` among its calls; inverses may call
  into it at any time;
* **`Calm`**: what a step does while the runtime is closed; **`Shutting`**: what it keeps;
* **`shutdown_order`**: what `Shutdown` unloads, in which order, and that it returns.
-/

namespace Re0Auth.Core

open App Lib Function List Option Runtime State

namespace App

/-- The components that bind the keys a fiber injects: what `visit` goes through. -/
def providers (a : App) (f : ℕ) : List ℕ :=
  (a.fiber f).comp.inject.filterMap fun ref => (a.store ref).bind Binding.provider

/-- `unloadOrder`: a dependent precedes its providers. -/
def unloadOrder (a : App) : List ℕ := (postorder a.providers (a.fiberCount + 1) a.fibers).reverse

end App

/-! ## The runtime with its calls -/

/-- What is on the stack of the goroutine: a function of the runtime, or `Shutdown`. -/
inductive Work
  | frame (fr : Frame)
  /-- The loop of `Shutdown`, with the fibers it has yet to unload. -/
  | unloadAll (order : List ℕ)
  /-- `Shutdown` after it disposed the root scope. -/
  | closing
deriving DecidableEq, Repr

/-- `App` with its `closed` flag, and the stack of the goroutine that is in it. -/
structure Runtime where
  app : App
  closed : Bool
  stack : List Work

/-- One step: an event of the runtime, or a call of `Shutdown`. -/
inductive Action
  | run (e : Event)
  | shutdown
deriving DecidableEq, Repr

namespace Runtime

def init : Runtime := ⟨App.init, false, []⟩

/-- User code has the turn. -/
def userTurn : List Work → Bool
  | [] => true
  | .frame fr :: _ => State.userTurn [fr]
  | _ => false

/-- The frame on top of the stack, and what is below it. -/
def split : List Work → List Frame × List Work
  | .frame fr :: k => ([fr], k)
  | k => ([], k)

/-- **One step.** `requestReconcile` starts nothing once the runtime is closed; a second `Shutdown` returns
at once. -/
def next (r : Runtime) : Action → Option Runtime
  | .shutdown =>
    if userTurn r.stack then
      if r.closed then some r
      else some { r with closed := true, stack := .unloadAll r.app.unloadOrder :: r.stack }
    else none
  | .run e =>
    match r.stack, e with
    | .unloadAll (f :: order) :: k, .tick =>
      some { r with stack := .frame (.force f) :: .unloadAll order :: k }
    | .unloadAll [] :: k, .tick => some { r with stack := .frame (.dispose root) :: .closing :: k }
    | .closing :: k, .tick => some { r with stack := k }
    | .unloadAll _ :: _, _ | .closing :: _, _ => none
    | stack, e =>
      if r.closed ∧ (split stack).1 = [.request] then
        if e = .tick then some { r with app := { r.app with dirty := true }, stack := (split stack).2 }
        else none
      else (State.next ⟨r.app, (split stack).1⟩ e).map fun s =>
        ⟨s.app, r.closed, s.stack.map .frame ++ (split stack).2⟩

def Reaches : Runtime → Runtime → Prop := Relation.ReflTransGen fun r r' => ∃ x, r.next x = some r'

/-- What `Shutdown` does itself. -/
inductive Mark
  | unload (f : ℕ)
  | root
deriving DecidableEq, Repr

/-- The mark of a step: `Shutdown` calls `forceUnload` on a fiber that is not INACTIVE, or disposes the
root scope. -/
def mark (r : Runtime) : Action → List Mark
  | .run .tick =>
    match r.stack with
    | .unloadAll (f :: _) :: _ => if (r.app.fiber f).state = .inactive then [] else [.unload f]
    | .unloadAll [] :: _ => [.root]
    | _ => []
  | _ => []

/-- A run, with what `Shutdown` did in it. -/
inductive Runs : Runtime → List Mark → Runtime → Prop
  | refl {r : Runtime} : Runs r [] r
  | tail {r r' r'' : Runtime} {log : List Mark} {x : Action} : Runs r log r' → r'.next x = some r'' →
      Runs r (log ++ r'.mark x) r''

/-- Run a list of actions. -/
def run (r : Runtime) (xs : List Action) : Option Runtime := xs.foldlM next r

theorem reaches_of_run {r r' : Runtime} {xs : List Action} (h : r.run xs = some r') : Reaches r r' :=
  Lib.foldlM_induct .refl (fun _ _ x _ hrun hn => .tail hrun ⟨x, hn⟩) h

theorem Runs.trans {r r' r'' : Runtime} {log log' : List Mark} (h : Runs r log r')
    (h' : Runs r' log' r'') : Runs r (log ++ log') r'' := by
  induction h' with
  | refl => simpa using h
  | tail _ hn ih =>
    rw [← append_assoc]
    exact .tail ih hn

end Runtime

variable {a a' a₀ : App} {k old new fs : List Frame} {f c d x : ℕ} {s t : State} {e : Event}
  {r r' : Runtime} {done : List ℕ} {w : Work} {base : List Work} {us rest : List ℕ}
  {log : List Runtime.Mark} {y : Action}

/-! ## The open runtime -/

variable {fr : Frame}

/-- A step does not look below the top of the stack. -/
theorem State.next_below (h : next ⟨a, [fr]⟩ e = some t) :
    next ⟨a, fr :: k⟩ e = some ⟨t.app, t.stack ++ k⟩ := by
  cases e with
  | tick =>
    obtain ⟨⟨a', new⟩, hr, rfl⟩ := map_eq_some_iff.1 h
    simp [next, hr]
  | call y =>
    simp only [next] at h ⊢
    have huser : userTurn (fr :: k) = userTurn [fr] := by
      cases fr <;> rfl
    rw [huser]
    split_ifs at h ⊢
    obtain ⟨⟨a', new⟩, hr, rfl⟩ := map_eq_some_iff.1 h
    simp [hr]
  | applied o =>
    cases fr <;> simp only [next, reduceCtorEq, some.injEq] at h ⊢
    subst h
    simp
  | ret =>
    cases fr <;> simp only [next, reduceCtorEq, some.injEq] at h ⊢
    subst h
    simp

section

variable (h : r.next (.run e) = some r')
include h

/-- A step of user code that no function of the runtime has called. -/
theorem Runtime.next_nil (hstack : r.stack = []) : ∃ t, State.next ⟨r.app, []⟩ e = some t ∧
    r' = ⟨t.app, r.closed, t.stack.map .frame⟩ := by
  obtain ⟨a, closed, stack⟩ := r
  obtain rfl : stack = [] := hstack
  simp only [next, split, reduceCtorEq, and_false, if_false, append_nil] at h
  obtain ⟨t, ht, rfl⟩ := map_eq_some_iff.1 h
  exact ⟨t, ht, rfl⟩

/-- A step of the frame on top: a request that a closed runtime only notes, or one of the open runtime. -/
theorem Runtime.next_frame {k : List Work} (hstack : r.stack = .frame fr :: k) :
    (fr = .request ∧ r.closed = true ∧ r' = { r with app := { r.app with dirty := true }, stack := k }) ∨
    ∃ t, (r.closed = true → fr ≠ .request) ∧ State.next ⟨r.app, [fr]⟩ e = some t ∧
      r' = ⟨t.app, r.closed, t.stack.map .frame ++ k⟩ := by
  obtain ⟨a, closed, stack⟩ := r
  obtain rfl : stack = _ := hstack
  simp only [next, split, cons.injEq, and_true] at h
  split_ifs at h with hquiet htick
  · cases h
    exact .inl ⟨hquiet.2, hquiet.1, rfl⟩
  · obtain ⟨t, ht, rfl⟩ := map_eq_some_iff.1 h
    exact .inr ⟨t, fun hclosed hreq => hquiet ⟨hclosed, hreq⟩, ht, rfl⟩

/-- Only `Shutdown` closes the runtime. -/
theorem Runtime.next_closed : r'.closed = r.closed := by
  obtain ⟨a, closed, stack⟩ := r
  rcases stack with _ | ⟨fr | (_ | ⟨f, order⟩) | _, k⟩
  · obtain ⟨t, -, rfl⟩ := next_nil h rfl
    rfl
  · obtain ⟨-, -, rfl⟩ | ⟨t, -, -, rfl⟩ := next_frame h rfl <;> rfl
  all_goals
    cases e <;> cases h
    rfl

end

theorem Runtime.shutdown_cases (h : r.next .shutdown = some r') :
    r.closed = true ∧ r' = r ∨ r.closed = false ∧
      r' = { r with closed := true, stack := .unloadAll r.app.unloadOrder :: r.stack } := by
  simp only [next] at h
  split_ifs at h with huser hclosed
  · cases h
    exact .inl ⟨hclosed, rfl⟩
  · cases h
    exact .inr ⟨eq_false_of_ne_true hclosed, rfl⟩

/-- A runtime that was not closed has made a run of the runtime without `Shutdown`. -/
theorem Runtime.Reaches.opened (h : Runtime.Reaches .init r) (hopen : r.closed = false) :
    ∃ s, State.Reaches (fun _ _ => True) .init s ∧ s.app = r.app ∧ r.stack = s.stack.map .frame := by
  induction h with
  | refl => exact ⟨.init, .refl, rfl, rfl⟩
  | @tail r r' _ hstep ih =>
    obtain ⟨y, hn⟩ := hstep
    cases y with
    | shutdown =>
      rcases shutdown_cases hn with ⟨hclosed, rfl⟩ | ⟨-, rfl⟩
      · rw [hopen] at hclosed
        cases hclosed
      · cases hopen
    | run e =>
      have hopen' : r.closed = false := (next_closed hn).symm.trans hopen
      obtain ⟨⟨app, stack⟩, hs, happ, hstack⟩ := ih hopen'
      obtain rfl : app = r.app := happ
      -- the runtime was open before, so the stack has no frame of `Shutdown`
      cases stack with
      | nil =>
        obtain ⟨t, ht, rfl⟩ := next_nil hn hstack
        exact ⟨t, hs.tail ⟨e, trivial, ht⟩, rfl, rfl⟩
      | cons fr k =>
        obtain ⟨-, hclosed, -⟩ | ⟨t, -, ht, rfl⟩ := next_frame hn hstack
        · rw [hopen'] at hclosed
          cases hclosed
        · exact ⟨⟨t.app, t.stack ++ k⟩, hs.tail ⟨e, trivial, next_below ht⟩, rfl, by simp⟩

/-! ## The order -/

/-- Providers are fibers. -/
def Bounded (a : App) : Prop :=
  ∀ ref b g, a.store ref = some b → b.provider = some g → g < a.fiberCount

theorem Bounded.step (h : Bounded a) (hw : Wired a (old ++ k)) (hm : Move a old a' new) : Bounded a' := by
  intro ref b g hb hg
  cases hm with
  | @provide c r' _ hs =>
    by_cases hr : ref = r'
    · subst hr
      simp only [update_self, some.injEq] at hb
      subst hb
      exact (hw.owner c g hg).2
    · simp only [update_of_ne hr] at hb
      exact h ref b g hb hg
  | withdraw =>
    refine h ref b g ?_ hg
    obtain ⟨p, d'⟩ := b
    exact (store_withdraw.1 hb).1
  | use => exact (h ref b g hb hg).trans (Nat.lt_succ_self _)
  | _ => exact h ref b g hb hg

theorem Bounded.run {ok : State → Event → Prop} (h : State.Reaches ok .init s) : Bounded s.app := by
  induction h with
  | refl => nofun
  | tail hrun hstep ih =>
    obtain ⟨e, -, hn⟩ := hstep
    obtain ⟨old, new, k, hs, -, hm⟩ := next_move hn
    exact ih.step (hs ▸ (Sound.run hrun).wired) hm

/-- The fiber has a key from the component, as the keys are bound now. -/
def ProvidedBy (a : App) (f g : ℕ) : Prop :=
  ∃ ref ∈ (a.fiber f).comp.inject, ∃ b, a.store ref = some b ∧ b.provider = some g

theorem mem_providers {g : ℕ} : g ∈ a.providers f ↔ ProvidedBy a f g := by
  simp only [providers, mem_filterMap, bind_eq_some_iff, ProvidedBy]

theorem edge_providers : Edge a.providers = ProvidedBy a := by
  funext f g
  exact propext mem_providers

/-- **The order of `unloadOrder`**, when the bindings are acyclic: every registered fiber is there, once, and
no component comes before one that has a key from it. -/
theorem unloadOrder_spec (hb : Bounded a) (hfibers : ∀ f ∈ a.fibers, f < a.fiberCount)
    (hacyclic : ∀ f < a.fiberCount, ¬ Relation.TransGen (ProvidedBy a) f f) :
    a.unloadOrder.Nodup ∧ (∀ f ∈ a.fibers, f ∈ a.unloadOrder) ∧
      (∀ f ∈ a.unloadOrder, f < a.fiberCount) ∧
      a.unloadOrder.Pairwise fun g f => ¬ Relation.TransGen (ProvidedBy a) f g := by
  have hacyclic' : ∀ f, ¬ Relation.TransGen (Edge a.providers) f f := by
    rw [edge_providers]
    intro f hf
    -- a component that another has a key from is a fiber
    obtain ⟨g, -, ref, -, b, href, hg⟩ := Relation.TransGen.tail'_iff.1 hf
    exact hacyclic f (hb ref b f href hg) hf
  have hclosed : ∀ v ∈ Finset.range a.fiberCount, ∀ u ∈ a.providers v, u ∈ Finset.range a.fiberCount := by
    intro v _ u hu
    obtain ⟨ref, -, b, hb', hg⟩ := mem_providers.1 hu
    exact Finset.mem_range.2 (hb ref b u hb' hg)
  have hroots : ∀ v ∈ a.fibers, v ∈ Finset.range a.fiberCount :=
    fun v hv => Finset.mem_range.2 (hfibers v hv)
  obtain ⟨hnodup, hsorted, hall, hreached⟩ :=
    postorder_spec (n := a.fiberCount + 1) hacyclic' hclosed hroots (by simp)
  refine ⟨nodup_reverse.2 hnodup, fun f hf => mem_reverse.2 (hall f hf), fun f hf => ?_, ?_⟩
  · obtain ⟨v, hv, hvf⟩ := hreached f (mem_reverse.1 hf)
    clear hf
    have hin : f ∈ Finset.range a.fiberCount := by
      induction hvf with
      | refl => exact hroots v hv
      | tail _ huw ih => exact hclosed _ ih _ huw
    exact Finset.mem_range.1 hin
  · rw [← edge_providers]
    exact pairwise_reverse.2 (hsorted.pairwise hnodup)

/-! ## Steps of a closed runtime -/

/-- **What a step does while the runtime is closed**: fibers are unloaded by `forceUnload`, registered and
removed; nothing is loaded. -/
inductive Calm (a : App) : List Frame → App → List Frame → Prop
  | idle {x : ℕ} : (a.fiber x).state = .inactive → Calm a [.force x] a []
  | force {x : ℕ} : (a.fiber x).state ≠ .inactive →
      Calm a [.force x] (a.setFiber x { a.fiber x with state := .unloading, target := [] })
        (disposeCtx (a.fiber x).ctx ++ [.forced x])
  | forced {x : ℕ} : Calm a [.forced x] (a.settleUnload x) []
  | remove {x : ℕ} : x ∈ a.fibers → Calm a []
      { a.setFiber x (retired (a.fiber x)) with fibers := a.fibers.erase x } [.request, .force x]
  | use {comp : Component} : Calm a []
      { a.setFiber a.fiberCount (newFiber comp) with
        fibers := a.fibers ++ [a.fiberCount], fiberCount := a.fiberCount + 1 } [.request]
  | other {old new : List Frame} {a' : App} : a'.fiber = a.fiber → a'.fiberCount = a.fiberCount →
      a'.fibers = a.fibers → a'.reconciling = a.reconciling → (∀ fr ∈ old ++ new, layer fr = .any) →
      (∀ x, .force x ∉ old ++ new ∧ .forced x ∉ old ++ new) → (∀ c, .dispose c ∉ new) →
      (∀ c, (a.scope c).disposed = true ∨ .dispose c ∈ old → (a'.scope c).disposed = true) →
      Calm a old a' new

/-- Outside of reconciles every step is calm, but for the request that starts one. -/
theorem Move.calm (hm : Move a old a' new) (hold : ∀ fr ∈ old, layer fr = .any)
    (hreq : old ≠ [.request]) : Calm a old a' new := by
  cases hm with
  | busy | start => exact absurd rfl hreq
  | begin | again | settle | skip | load | unload | drop | activate | fail | dropped | unloaded | ok
  | okDisposer | err => exact absurd (hold _ mem_cons_self) nofun
  | forceIdle h => exact .idle h
  | force h => exact .force h
  | forced => exact .forced
  | remove h => exact .remove h
  | use => exact .use
  | @dispose x =>
    refine .other rfl rfl rfl rfl (by simp [layer]) (by simp) (by simp) fun c hc => ?_
    by_cases hx : c = x
    · simp [setScope, hx]
    · have hdis : (a.scope c).disposed = true := hc.resolve_right (by simpa using hx)
      simpa [setScope, hx] using hdis
  | @add x y hlive =>
    refine .other rfl rfl rfl rfl (by simp [layer]) (by simp) (by simp) fun c hc => ?_
    have hdis : (a.scope c).disposed = true := hc.resolve_right (by simp)
    by_cases hx : c = x
    · subst hx
      rw [hlive] at hdis
      cases hdis
    · simpa [setScope, hx] using hdis
  | @disposeAgain x hx =>
    refine .other rfl rfl rfl rfl (by simp [layer]) (by simp) (by simp) fun c hc => ?_
    rcases hc with hc | hc
    · exact hc
    · cases mem_singleton.1 hc
      exact hx
  | _ => exact .other rfl rfl rfl rfl (by simp [layer]) (by simp) (by simp) fun c hc => hc.resolve_right (by simp)

/-- **What `Shutdown` keeps** while its loop runs: `done` are the fibers it has called `forceUnload` on, and
`fs` is the stack above the loop. -/
structure Shutting (a₀ : App) (done : List ℕ) (a : App) (fs : List Frame) : Prop where
  idle : a.reconciling = false
  any : ∀ fr ∈ fs, layer fr = .any
  count : a₀.fiberCount ≤ a.fiberCount
  registered : ∀ f ∈ a.fibers, f < a.fiberCount
  /-- Only fibers that were reached or removed are unloaded. -/
  reached : ∀ x, .force x ∈ fs ∨ .forced x ∈ fs →
    x < a.fiberCount ∧ (x ∈ done ∨ (a.fiber x).removed = true)
  unloading : ∀ x, .forced x ∈ fs → (a.fiber x).state = .unloading ∨ (a.fiber x).state = .inactive
  finished : ∀ f ∈ done, (a.fiber f).state = .inactive ∨ .force f ∈ fs ∨ .forced f ∈ fs
  waiting : ∀ f < a₀.fiberCount, f ∉ done → (a₀.fiber f).state ≠ .inactive →
    (a.fiber f).state ≠ .inactive ∨ (a.fiber f).removed = true
  resting : ∀ f < a₀.fiberCount, (a₀.fiber f).state = .inactive → (a.fiber f).state = .inactive

/-- What `Shutting` says of one fiber. -/
structure ShuttingAt (a₀ : App) (done : List ℕ) (a : App) (fs : List Frame) (x : ℕ) : Prop where
  reached : .force x ∈ fs ∨ .forced x ∈ fs →
    x < a.fiberCount ∧ (x ∈ done ∨ (a.fiber x).removed = true)
  unloading : .forced x ∈ fs → (a.fiber x).state = .unloading ∨ (a.fiber x).state = .inactive
  finished : x ∈ done → (a.fiber x).state = .inactive ∨ .force x ∈ fs ∨ .forced x ∈ fs
  waiting : x < a₀.fiberCount → x ∉ done → (a₀.fiber x).state ≠ .inactive →
    (a.fiber x).state ≠ .inactive ∨ (a.fiber x).removed = true
  resting : x < a₀.fiberCount → (a₀.fiber x).state = .inactive → (a.fiber x).state = .inactive

theorem Shutting.at (h : Shutting a₀ done a fs) (x : ℕ) : ShuttingAt a₀ done a fs x :=
  ⟨h.reached x, h.unloading x, h.finished x, h.waiting x, h.resting x⟩

theorem Shutting.of_at (hidle : a.reconciling = false) (hany : ∀ fr ∈ fs, layer fr = .any)
    (hcount : a₀.fiberCount ≤ a.fiberCount) (hregistered : ∀ f ∈ a.fibers, f < a.fiberCount)
    (h : ∀ x, ShuttingAt a₀ done a fs x) : Shutting a₀ done a fs :=
  ⟨hidle, hany, hcount, hregistered, fun x => (h x).reached, fun x => (h x).unloading,
    fun x => (h x).finished, fun x => (h x).waiting, fun x => (h x).resting⟩

/-- A step that leaves a fiber and its unloads alone. -/
theorem ShuttingAt.same (h : ShuttingAt a₀ done a fs x) (hcount : a.fiberCount ≤ a'.fiberCount)
    (hfiber : a'.fiber x = a.fiber x) (hforce : .force x ∈ fs' ↔ .force x ∈ fs)
    (hforced : .forced x ∈ fs' ↔ .forced x ∈ fs) : ShuttingAt a₀ done a' fs' x := by
  refine ⟨fun hx => ?_, ?_, ?_, ?_, ?_⟩
  · rw [hforce, hforced] at hx
    rw [hfiber]
    exact (h.reached hx).imp_left (Nat.lt_of_lt_of_le · hcount)
  · rw [hforced, hfiber]
    exact h.unloading
  · rw [hforce, hforced, hfiber]
    exact h.finished
  · rw [hfiber]
    exact h.waiting
  · rw [hfiber]
    exact h.resting

/-- A step that changes no fiber and neither begins nor ends an unload. -/
theorem Shutting.keep (h : Shutting a₀ done a (old ++ k)) (hfiber : a'.fiber = a.fiber)
    (hcount : a'.fiberCount = a.fiberCount) (hfibers : a'.fibers = a.fibers)
    (hrec : a'.reconciling = a.reconciling) (hany : ∀ fr ∈ new, layer fr = .any)
    (hforce : ∀ x, .force x ∉ old ++ new ∧ .forced x ∉ old ++ new) : Shutting a₀ done a' (new ++ k) := by
  refine .of_at (hrec.trans h.idle) ?_ (hcount ▸ h.count) ?_ fun x => ?_
  · exact forall_mem_append.2 ⟨hany, fun fr hfr => h.any fr (mem_append_right _ hfr)⟩
  · rw [hfibers, hcount]
    exact h.registered
  · obtain ⟨h₁, h₂⟩ := hforce x
    simp only [mem_append, not_or] at h₁ h₂
    exact (h.at x).same hcount.ge (congrFun hfiber x) (by simp [h₁]) (by simp [h₂])

/-- `forceUnload` finds the fiber INACTIVE. -/
theorem Shutting.idle_step (h : Shutting a₀ done a (.force x :: k))
    (hx : (a.fiber x).state = .inactive) : Shutting a₀ done a k := by
  refine .of_at h.idle (forall_mem_cons.1 h.any).2 h.count h.registered fun y => ?_
  by_cases hy : y = x
  · subst hy
    have hat := h.at y
    exact ⟨fun hin => hat.reached (hin.imp (mem_cons_of_mem _) (mem_cons_of_mem _)),
      fun _ => .inr hx, fun _ => .inl hx, hat.waiting, hat.resting⟩
  · exact (h.at y).same le_rfl rfl (by simp [hy]) (by simp)

theorem not_mem_disposeCtx {o : Option ℕ} (hfr : ∀ c, fr ≠ .dispose c) : fr ∉ disposeCtx o := by
  intro hin
  obtain ⟨c, hc⟩ := eq_of_mem_disposeCtx hin
  exact hfr c hc

/-- `forceUnload` begins to unload the fiber. -/
theorem Shutting.force_step (h : Shutting a₀ done a (.force x :: k)) (hx : (a.fiber x).state ≠ .inactive) :
    Shutting a₀ done (a.setFiber x { a.fiber x with state := .unloading, target := [] })
      ((disposeCtx (a.fiber x).ctx ++ [.forced x]) ++ k) := by
  have hforce : ∀ y, Frame.force y ∉ disposeCtx (a.fiber x).ctx := fun y => not_mem_disposeCtx nofun
  have hforced : ∀ y, Frame.forced y ∉ disposeCtx (a.fiber x).ctx := fun y => not_mem_disposeCtx nofun
  refine .of_at h.idle ?_ h.count h.registered fun y => ?_
  · refine forall_mem_append.2 ⟨forall_mem_append.2 ⟨fun fr hfr => ?_, ?_⟩, (forall_mem_cons.1 h.any).2⟩
    · obtain ⟨c, rfl⟩ := eq_of_mem_disposeCtx hfr
      rfl
    · exact forall_mem_singleton.2 rfl
  · by_cases hy : y = x
    · subst hy
      have hat := h.at y
      -- the fiber that is unloaded now was about to be
      refine ⟨fun _ => ?_, fun _ => .inl ?_, fun _ => .inr (.inr (by simp)), fun _ _ _ => .inl ?_,
        fun hlt hst => absurd (hat.resting hlt hst) hx⟩
      · simpa [setFiber] using hat.reached (.inl mem_cons_self)
      all_goals simp [setFiber]
    · exact (h.at y).same le_rfl (update_of_ne hy ..) (by simp [hforce y, hy]) (by simp [hforced y, hy])

/-- `forceUnload` ends. -/
theorem Shutting.forced_step (h : Shutting a₀ done a (.forced x :: k)) :
    Shutting a₀ done (a.settleUnload x) k := by
  refine .of_at h.idle (forall_mem_cons.1 h.any).2 h.count h.registered fun y => ?_
  by_cases hy : y = x
  · subst hy
    have hat := h.at y
    have hreached := hat.reached (.inr mem_cons_self)
    have hstate : ((a.settleUnload y).fiber y).state = .inactive := by
      rcases hat.unloading mem_cons_self with hst | hst <;> simp [settleUnload, setState, setFiber, hst]
    have hremoved : ((a.settleUnload y).fiber y).removed = (a.fiber y).removed := by
      simp [settleUnload, setState, setFiber]
    refine ⟨fun _ => ?_, fun _ => .inr hstate, fun _ => .inl hstate, fun _ hd _ => .inr ?_, fun _ _ => hstate⟩
    · rw [hremoved]
      exact hreached
    · rw [hremoved]
      exact hreached.2.resolve_left hd
  · exact (h.at y).same le_rfl (update_of_ne hy ..) (by simp) (by simp [hy])

/-- An inverse removes a fiber. -/
theorem Shutting.remove_step (h : Shutting a₀ done a k) (hx : x ∈ a.fibers) :
    Shutting a₀ done { a.setFiber x (retired (a.fiber x)) with fibers := a.fibers.erase x }
      (.request :: .force x :: k) := by
  refine .of_at h.idle ?_ h.count (fun f hf => h.registered f (mem_of_mem_erase hf)) fun y => ?_
  · exact forall_mem_cons.2 ⟨rfl, forall_mem_cons.2 ⟨rfl, h.any⟩⟩
  · by_cases hy : y = x
    · subst hy
      have hat := h.at y
      refine ⟨fun _ => ⟨h.registered y hx, .inr ?_⟩, fun hin => ?_, fun _ => .inr (.inl (by simp)),
        fun _ _ _ => .inr ?_, fun hlt hst => ?_⟩
      · simp [setFiber, retired]
      · rcases hat.unloading (by simpa using hin) with hst | hst <;> simp [setFiber, retired, hst]
      · simp [setFiber, retired]
      · simp [setFiber, retired, hat.resting hlt hst]
    · exact (h.at y).same le_rfl (update_of_ne hy ..) (by simp [hy]) (by simp)

/-- An inverse registers a component. -/
theorem Shutting.use_step (h : Shutting a₀ done a k) (comp : Component) :
    Shutting a₀ done { a.setFiber a.fiberCount (newFiber comp) with
      fibers := a.fibers ++ [a.fiberCount], fiberCount := a.fiberCount + 1 } (.request :: k) := by
  refine .of_at h.idle (forall_mem_cons.2 ⟨rfl, h.any⟩) (h.count.trans (Nat.le_succ _)) ?_ fun y => ?_
  · refine forall_mem_append.2 ⟨fun f hf => (h.registered f hf).trans (Nat.lt_succ_self _), ?_⟩
    exact forall_mem_singleton.2 (Nat.lt_succ_self _)
  · by_cases hy : y = a.fiberCount
    · subst hy
      have hstate : (update a.fiber a.fiberCount (newFiber comp) a.fiberCount).state = .inactive := by
        rw [update_self, newFiber]
      have hlater : ¬ a.fiberCount < a₀.fiberCount := Nat.not_lt.2 h.count
      refine ⟨fun hin => ?_, fun _ => .inr hstate, fun _ => .inl hstate, fun hlt => absurd hlt hlater,
        fun _ _ => hstate⟩
      exact absurd (h.reached _ (by simpa using hin)).1 (Nat.lt_irrefl _)
    · exact (h.at y).same (Nat.le_succ _) (update_of_ne hy ..) (by simp) (by simp)

/-- **Step lemma.** -/
theorem Shutting.step (h : Shutting a₀ done a (old ++ k)) (hc : Calm a old a' new) :
    Shutting a₀ done a' (new ++ k) := by
  cases hc with
  | idle hx => exact h.idle_step hx
  | force hx => exact h.force_step hx
  | forced => exact h.forced_step
  | remove hx => exact h.remove_step hx
  | use => exact h.use_step _
  | other hfiber hcount hfibers hrec hany hforce _ _ =>
    exact h.keep hfiber hcount hfibers hrec (fun fr hfr => hany fr (mem_append_right _ hfr)) hforce

/-! ## Runs of `Shutdown` -/

theorem frame_of_mem_map {w : Work} (hw : w ∈ fs.map Work.frame) : ∃ fr, w = .frame fr := by
  obtain ⟨fr, -, rfl⟩ := mem_map.1 hw
  exact ⟨fr, rfl⟩

/-- A step above a frame of `Shutdown` is calm. -/
theorem Runtime.next_calm (hclosed : r.closed = true) (hstack : r.stack = fs.map .frame ++ w :: base)
    (hfs : fs ≠ []) (hany : ∀ fr ∈ fs, layer fr = .any) (h : r.next (.run e) = some r') :
    r'.closed = true ∧ r.mark (.run e) = [] ∧ ∃ old new k, fs = old ++ k ∧ Calm r.app old r'.app new ∧
      r'.stack = (new ++ k).map .frame ++ w :: base := by
  obtain ⟨fr, fs, rfl⟩ := exists_cons_of_ne_nil hfs
  have hmark : r.mark (.run e) = [] := by
    cases e <;> simp [mark, hstack]
  obtain ⟨rfl, -, rfl⟩ | ⟨t, hreq, ht, rfl⟩ := next_frame h hstack
  · refine ⟨hclosed, hmark, [.request], [], fs, rfl, ?_, rfl⟩
    exact .other rfl rfl rfl rfl (by simp [layer]) (by simp) (by simp) fun c hc => hc.resolve_right (by simp)
  · -- the frame on top makes a move of its own
    obtain ⟨old', new, k', hold', hnew, hm⟩ := next_move ht
    refine ⟨hclosed, hmark, old', new, k' ++ fs, ?_, ?_, ?_⟩
    · rw [← append_assoc, ← show [fr] = old' ++ k' from hold', singleton_append]
    · refine hm.calm (fun fr' hfr' => hany fr' ?_) ?_
      · have hin : fr' ∈ [fr] := by
          rw [show [fr] = old' ++ k' from hold']
          exact mem_append_left _ hfr'
        rw [mem_singleton.1 hin]
        exact mem_cons_self
      · rintro rfl
        obtain ⟨rfl, -⟩ := cons.inj (show [fr] = .request :: k' from hold')
        exact hreq hclosed rfl
    · rw [hnew]
      simp

theorem Calm.removed (h : Calm a old a' new) (hf : f < a.fiberCount)
    (hrem : (a.fiber f).removed = true) : (a'.fiber f).removed = true := by
  cases h with
  | idle => exact hrem
  | @force x | @forced x =>
    simp only [settleUnload, setState, fiber_setFiber]
    by_cases hfx : f = x
    · subst hfx
      simpa using hrem
    · simpa [hfx] using hrem
  | @remove x =>
    simp only [fiber_setFiber]
    by_cases hfx : f = x
    · simp [hfx, retired]
    · simpa [hfx] using hrem
  | use => simpa [fiber_setFiber, hf.ne] using hrem
  | other hfiber => rwa [hfiber]

theorem Calm.disposed (h : Calm a old a' new) (hc : (a.scope c).disposed = true ∨ .dispose c ∈ old) :
    (a'.scope c).disposed = true := by
  cases h with
  | other _ _ _ _ _ _ _ hdis => exact hdis c hc
  | _ => exact hc.resolve_right (by simp)

/-- The fibers `Shutdown` has unloaded, among those it has reached. -/
structure Unloaded (a₀ : App) (done us : List ℕ) (a : App) : Prop where
  sub : us.Sublist done
  all : ∀ f ∈ done, (a₀.fiber f).state ≠ .inactive → f ∈ us ∨ (a.fiber f).removed = true
  only : ∀ f ∈ us, (a₀.fiber f).state ≠ .inactive

theorem Unloaded.step (h : Unloaded a₀ done us a) (hs : Shutting a₀ done a fs)
    (hknown : ∀ f ∈ done, f < a₀.fiberCount) (hc : Calm a old a' new) : Unloaded a₀ done us a' :=
  ⟨h.sub, fun f hf hst => (h.all f hf hst).imp_right (hc.removed ((hknown f hf).trans_le hs.count)), h.only⟩

/-- **How far `Shutdown` is**: in its loop, at the root scope, or back. -/
inductive Progress (a₀ : App) (base : List Work) : List Runtime.Mark → Runtime → Prop
  | loop {done rest us : List ℕ} {fs : List Frame} {r : Runtime} : r.closed = true →
      r.stack = fs.map .frame ++ .unloadAll rest :: base → a₀.unloadOrder = done ++ rest →
      Shutting a₀ done r.app fs → Unloaded a₀ done us r.app → Progress a₀ base (us.map .unload) r
  | atRoot {us : List ℕ} {fs : List Frame} {r : Runtime} : r.closed = true →
      r.stack = fs.map .frame ++ .closing :: base → Shutting a₀ a₀.unloadOrder r.app fs →
      Unloaded a₀ a₀.unloadOrder us r.app →
      ((r.app.scope root).disposed = true ∨ .dispose root ∈ fs) →
      Progress a₀ base (us.map .unload ++ [.root]) r
  | returned {log : List Runtime.Mark} {r : Runtime} : r.closed = true →
      (∀ w ∈ r.stack, ∃ fr, w = .frame fr) → Progress a₀ base log r

/-- The loop calls `forceUnload` on the next fiber. -/
theorem Shutting.reach (h : Shutting a₀ done a []) (hf : f < a₀.fiberCount) :
    Shutting a₀ (done ++ [f]) a [.force f] := by
  refine ⟨h.idle, by simp [layer], h.count, h.registered, fun x hx => ?_, by simp, fun g hg => ?_,
    fun g hg hd hst => h.waiting g hg (fun hin => hd (mem_append_left _ hin)) hst, h.resting⟩
  · obtain rfl : x = f := by simpa using hx
    exact ⟨hf.trans_le h.count, .inl (by simp)⟩
  · rcases mem_append.1 hg with hg | hg
    · exact .inl ((h.finished g hg).resolve_right (by simp))
    · rw [mem_singleton.1 hg]
      exact .inr (.inl (by simp))

theorem Unloaded.reach (h : Unloaded a₀ done us a) (hs : Shutting a₀ done a [])
    (hf : f < a₀.fiberCount) (hnew : f ∉ done) :
    Unloaded a₀ (done ++ [f]) (us ++ if (a.fiber f).state = .inactive then [] else [f]) a := by
  by_cases hst : (a.fiber f).state = .inactive
  · rw [if_pos hst, append_nil]
    refine ⟨h.sub.trans (sublist_append_left ..), fun g hg hg₀ => ?_, h.only⟩
    rcases mem_append.1 hg with hg | hg
    · exact h.all g hg hg₀
    · rw [mem_singleton.1 hg] at hg₀ ⊢
      exact .inr ((hs.waiting f hf hnew hg₀).resolve_left (not_not.2 hst))
  · rw [if_neg hst]
    refine ⟨h.sub.append (List.Sublist.refl _), fun g hg hg₀ => ?_, fun g hg => ?_⟩
    · rcases mem_append.1 hg with hg | hg
      · exact (h.all g hg hg₀).imp_left (mem_append_left _)
      · exact .inl (mem_append_right _ hg)
    · rcases mem_append.1 hg with hg | hg
      · exact h.only g hg
      · rw [mem_singleton.1 hg]
        exact fun h₀ => hst (hs.resting f hf h₀)

variable {k : List Work}

/-- The top of a stack that has a frame of `Shutdown` with nothing above it. -/
theorem nil_of_top {w w' : Work} (h : fs.map .frame ++ w :: base = w' :: k)
    (hw' : ∀ fr, w' ≠ .frame fr) : fs = [] ∧ w = w' ∧ base = k := by
  cases fs with
  | nil => exact ⟨rfl, cons.inj h⟩
  | cons fr fs => exact absurd (cons.inj h).1.symm (hw' fr)

/-- **Step lemma.** -/
theorem Progress.next (h : Progress a₀ base log r) (hbase : ∀ w ∈ base, ∃ fr, w = .frame fr)
    (hnodup : a₀.unloadOrder.Nodup) (hknown : ∀ f ∈ a₀.unloadOrder, f < a₀.fiberCount)
    (hn : r.next y = some r') : Progress a₀ base (log ++ r.mark y) r' := by
  have hclosed : r.closed = true := by cases h <;> assumption
  cases y with
  | shutdown =>
    rcases Runtime.shutdown_cases hn with ⟨-, rfl⟩ | ⟨hopen, -⟩
    · simpa [Runtime.mark] using h
    · rw [hclosed] at hopen
      cases hopen
  | run e =>
    cases h with
    | @loop done rest us fs _ _ hstack horder hs hu =>
      have hdone : ∀ f ∈ done, f < a₀.fiberCount := fun f hf =>
        hknown f (by rw [horder]; exact mem_append_left _ hf)
      by_cases hfs : fs = []
      · subst hfs
        obtain ⟨a, closed, stack⟩ := r
        obtain rfl : stack = .unloadAll rest :: base := hstack
        rcases rest with _ | ⟨f, order⟩ <;> cases e <;> cases hn
        · rw [append_nil] at horder
          refine .atRoot hclosed (show _ = [Frame.dispose root].map Work.frame ++ _ from rfl) ?_ (horder ▸ hu)
            (.inr mem_cons_self)
          rw [horder]
          have hs' : Shutting a₀ done a ([] ++ []) := hs
          have hpushed : Shutting a₀ done a ([.dispose root] ++ []) :=
            hs'.keep rfl rfl rfl rfl (by simp [layer]) (by simp)
          exact hpushed
        · have hnew : f ∉ done := by
            rw [horder] at hnodup
            exact fun hin => (nodup_append.1 hnodup).2.2 f hin f mem_cons_self rfl
          have hf : f < a₀.fiberCount :=
            hknown f (by rw [horder]; exact mem_append_right _ mem_cons_self)
          have hlog : us.map Runtime.Mark.unload ++ Runtime.mark ⟨a, closed, .unloadAll (f :: order) :: base⟩ (.run .tick) =
              (us ++ if (a.fiber f).state = .inactive then [] else [f]).map .unload := by
            rw [map_append]
            simp only [Runtime.mark]
            split_ifs <;> rfl
          rw [hlog]
          exact .loop hclosed
            (show _ = [Frame.force f].map Work.frame ++ .unloadAll order :: base from rfl)
            (by rw [horder]; simp) (hs.reach hf) (hu.reach hs hf hnew)
      · obtain ⟨hclosed', hmark, old, new, k, rfl, hcalm, hstack'⟩ :=
          Runtime.next_calm hclosed hstack hfs hs.any hn
        rw [hmark, append_nil]
        exact .loop hclosed' hstack' horder (hs.step hcalm) (hu.step hs hdone hcalm)
    | @atRoot us fs _ _ hstack hs hu hroot =>
      by_cases hfs : fs = []
      · subst hfs
        obtain ⟨a, closed, stack⟩ := r
        obtain rfl : stack = .closing :: base := hstack
        cases e <;> cases hn
        exact .returned hclosed hbase
      · obtain ⟨hclosed', hmark, old, new, k, rfl, hcalm, hstack'⟩ :=
          Runtime.next_calm hclosed hstack hfs hs.any hn
        rw [hmark, append_nil]
        refine .atRoot hclosed' hstack' (hs.step hcalm) (hu.step hs hknown hcalm) ?_
        rcases hroot with hdis | hin
        · exact .inl (hcalm.disposed (.inl hdis))
        · rcases mem_append.1 hin with hin | hin
          · exact .inl (hcalm.disposed (.inr hin))
          · exact .inr (mem_append_right _ hin)
    | returned _ hframes =>
      cases hstack : r.stack with
      | nil =>
        obtain ⟨t, -, rfl⟩ := Runtime.next_nil hn hstack
        exact .returned hclosed fun w => frame_of_mem_map
      | cons w k =>
        rw [hstack] at hframes
        obtain ⟨⟨fr, rfl⟩, hk⟩ := forall_mem_cons.1 hframes
        obtain ⟨-, -, rfl⟩ | ⟨t, -, -, rfl⟩ := Runtime.next_frame hn hstack
        · exact .returned hclosed hk
        · exact .returned hclosed (forall_mem_append.2 ⟨fun w => frame_of_mem_map, hk⟩)

/-! ## `Shutdown` returns -/

/-- The frames of a teardown whose inverses return. -/
def Unwinds : Frame → Prop
  | .request | .user | .forced _ | .invoke _ | .disposing _ | .dispose _ | .force _ => True
  | _ => False

/-- How many steps are left for a frame of a teardown, at most. -/
def cost (a : App) : Frame → ℕ
  | .request | .user | .forced _ => 1
  | .invoke _ => 2
  | .disposing ds => 1 + 3 * ds.length
  | .dispose c => 2 + 3 * (a.scope c).stack.length
  | .force x => 4 + ((a.fiber x).ctx.map fun c => 2 + 3 * (a.scope c).stack.length).getD 0
  | _ => 0

/-- Inverses were run and none were registered. -/
structure Shrinks (a a' : App) : Prop where
  scope : ∀ c, (a'.scope c).stack.length ≤ (a.scope c).stack.length
  ctx : ∀ x, (a'.fiber x).ctx = (a.fiber x).ctx

theorem Shrinks.cost_le (h : Shrinks a a') (fr : Frame) : cost a' fr ≤ cost a fr := by
  cases fr with
  | dispose c =>
    have := h.scope c
    simp only [cost]
    omega
  | force x =>
    simp only [cost, h.ctx x]
    cases (a.fiber x).ctx with
    | none => simp
    | some c =>
      have := h.scope c
      simp only [map_some, getD_some]
      omega
  | _ => exact le_rfl

theorem Shrinks.sum_le (h : Shrinks a a') (k : List Frame) :
    (k.map (cost a')).sum ≤ (k.map (cost a)).sum := by
  induction k with
  | nil => exact le_rfl
  | cons fr k ih =>
    have := h.cost_le fr
    simp only [map_cons, sum_cons]
    omega

/-- A frame of a teardown makes a step, and what is left of it costs less. -/
theorem tick_unwinds (h : Unwinds fr) (huser : fr ≠ .user) (hreq : fr ≠ .request) :
    ∃ a' new, a.tick fr = some (a', new) ∧ (∀ fr' ∈ new, Unwinds fr') ∧ Shrinks a a' ∧
      (new.map (cost a')).sum < cost a fr := by
  have hsame : Shrinks a a := ⟨fun _ => le_rfl, fun _ => rfl⟩
  cases fr with
  | user => exact absurd rfl huser
  | request => exact absurd rfl hreq
  | forced x =>
    refine ⟨_, _, rfl, nofun, ⟨fun _ => le_rfl, fun y => ?_⟩, by simp [cost]⟩
    simp only [settleUnload, setState, fiber_setFiber]
    by_cases hyx : y = x
    all_goals simp [hyx]
  | invoke d =>
    simp only [tick]
    split
    · exact ⟨_, _, rfl, nofun, hsame, by simp [cost]⟩
    · split
      all_goals exact ⟨_, _, rfl, by simp [Unwinds], ⟨fun _ => le_rfl, fun _ => rfl⟩, by simp [cost]⟩
  | disposing ds =>
    cases ds with
    | nil => exact ⟨_, _, rfl, nofun, hsame, by simp [cost]⟩
    | cons d ds =>
      refine ⟨_, _, rfl, by simp [Unwinds], hsame, ?_⟩
      simp only [map_cons, map_nil, sum_cons, sum_nil, cost, length_cons]
      omega
  | dispose c =>
    simp only [tick]
    split
    · exact ⟨_, _, rfl, nofun, hsame, by simp only [map_nil, sum_nil, cost]; omega⟩
    · refine ⟨_, _, rfl, by simp [Unwinds], ⟨fun c' => ?_, fun _ => rfl⟩, ?_⟩
      · by_cases hc : c' = c
        all_goals simp [setScope, hc]
      · simp only [map_cons, map_nil, sum_cons, sum_nil, cost]
        omega
  | force x =>
    simp only [tick]
    split
    · exact ⟨_, _, rfl, nofun, hsame, by simp only [map_nil, sum_nil, cost]; omega⟩
    · refine ⟨_, _, rfl, fun fr' hfr' => ?_, ⟨fun _ => le_rfl, fun y => ?_⟩, ?_⟩
      · rcases mem_append.1 hfr' with hfr' | hfr'
        · obtain ⟨c, rfl⟩ := eq_of_mem_disposeCtx hfr'
          trivial
        · rw [mem_singleton.1 hfr']
          trivial
      · simp only [fiber_setFiber]
        by_cases hyx : y = x
        all_goals simp [hyx]
      · cases hctx : (a.fiber x).ctx with
        | none => simp [disposeCtx, cost, hctx]
        | some c =>
          simp only [disposeCtx, cons_append, nil_append, map_cons, map_nil,
            sum_cons, sum_nil, cost, hctx, map_some, getD_some, setFiber]
          omega
  | _ => exact h.elim

theorem Runtime.next_tick (hstack : r.stack = .frame fr :: k)
    (hreq : fr ≠ .request) (h : r.app.tick fr = some (a', new)) :
    r.next (.run .tick) = some ⟨a', r.closed, new.map .frame ++ k⟩ := by
  obtain ⟨a, closed, stack⟩ := r
  obtain rfl : stack = .frame fr :: k := hstack
  have hnot : ¬ (closed = true ∧ [fr] = [.request]) := fun hq => hreq (cons.inj hq.2).1
  simp only [next, split, if_neg hnot, State.next]
  simp [h]

/-- When the inverses return, a teardown comes to its end. -/
theorem Runtime.unwind (hclosed : r.closed = true) (hstack : r.stack = fs.map .frame ++ w :: base)
    (hfs : ∀ fr ∈ fs, Unwinds fr) : ∃ log r', Runs r log r' ∧ r'.closed = true ∧ r'.stack = w :: base := by
  induction hn : (fs.map (cost r.app)).sum using Nat.strong_induction_on generalizing fs r with
  | _ n ih =>
    cases fs with
    | nil => exact ⟨[], r, .refl, hclosed, hstack⟩
    | cons fr fs =>
      obtain ⟨a, closed, stack⟩ := r
      obtain rfl : stack = _ := hstack
      obtain rfl : closed = true := hclosed
      obtain ⟨hfr, hrest⟩ := forall_mem_cons.1 hfs
      -- one step, and what is left costs less
      have hone : ∃ (y : Action) (a' : App) (new : List Frame),
          next ⟨a, true, (fr :: fs).map .frame ++ w :: base⟩ y =
            some ⟨a', true, new.map .frame ++ (fs.map .frame ++ w :: base)⟩ ∧
          (∀ fr' ∈ new, Unwinds fr') ∧ Shrinks a a' ∧ (new.map (cost a')).sum < cost a fr := by
        by_cases huser : fr = .user
        · subst huser
          exact ⟨.run .ret, a, [], rfl, nofun, ⟨fun _ => le_rfl, fun _ => rfl⟩, by simp [cost]⟩
        · by_cases hreq : fr = .request
          · subst hreq
            exact ⟨.run .tick, { a with dirty := true }, [], rfl, nofun,
              ⟨fun _ => le_rfl, fun _ => rfl⟩, by simp [cost]⟩
          · obtain ⟨a', new, ht, hnew, hshrinks, hlt⟩ := tick_unwinds (a := a) hfr huser hreq
            exact ⟨.run .tick, a', new, next_tick rfl hreq ht, hnew, hshrinks, hlt⟩
      obtain ⟨y, a', new, hnext, hnew, hshrinks, hlt⟩ := hone
      have hsum := hshrinks.sum_le fs
      obtain ⟨log, r', hruns, hclosed', hstack'⟩ := ih _ (by
          rw [← hn, map_cons, sum_cons]
          exact Nat.add_lt_add_of_lt_of_le hlt hsum)
        (r := ⟨a', true, new.map .frame ++ (fs.map .frame ++ w :: base)⟩) rfl
        (show _ = (new ++ fs).map .frame ++ w :: base by simp) (forall_mem_append.2 ⟨hnew, hrest⟩) (by simp)
      exact ⟨_, r', .trans (.tail .refl hnext) hruns, hclosed', hstack'⟩

/-- A frame that `Shutdown` calls comes to its end. -/
theorem Runtime.unwind_call (hnext : r.next (.run .tick) = some ⟨a, true, .frame fr :: w :: base⟩)
    (hfr : Unwinds fr) : ∃ log r', Runs r log r' ∧ r'.closed = true ∧ r'.stack = w :: base := by
  obtain ⟨log, r', hruns, hclosed', hstack'⟩ := unwind (r := ⟨a, true, .frame fr :: w :: base⟩) rfl
    (show _ = [fr].map .frame ++ w :: base from rfl) (forall_mem_singleton.2 hfr)
  exact ⟨_, r', .trans (.tail .refl hnext) hruns, hclosed', hstack'⟩

/-- When the inverses return, the loop comes to its end. -/
theorem Runtime.unwind_loop (hclosed : r.closed = true) (hstack : r.stack = .unloadAll rest :: base) :
    ∃ log r', Runs r log r' ∧ r'.stack = .closing :: base := by
  induction rest generalizing r with
  | nil =>
    obtain ⟨a, closed, stack⟩ := r
    obtain rfl : stack = _ := hstack
    obtain rfl : closed = true := hclosed
    obtain ⟨log, r', hruns, -, hstack'⟩ := unwind_call (r := ⟨a, true, .unloadAll [] :: base⟩) rfl trivial
    exact ⟨log, r', hruns, hstack'⟩
  | cons f rest ih =>
    obtain ⟨a, closed, stack⟩ := r
    obtain rfl : stack = _ := hstack
    obtain rfl : closed = true := hclosed
    obtain ⟨log, r', hruns, hclosed', hstack'⟩ := unwind_call
      (r := ⟨a, true, .unloadAll (f :: rest) :: base⟩) rfl trivial
    obtain ⟨log', r'', hruns', hstack''⟩ := ih hclosed' hstack'
    exact ⟨_, r'', .trans hruns hruns', hstack''⟩

/-! ## The theorem -/

/-- What `Shutdown` has done when it is about to return: it has unloaded the components `us`, each once and
each before every component it has a key from, directly or through others, and then disposed the root
scope. A component that was not INACTIVE and is not among them was removed by an inverse meanwhile. -/
structure ShutDown (a₀ : App) (log : List Runtime.Mark) (us : List ℕ) (a : App) : Prop where
  log : log = us.map .unload ++ [.root]
  nodup : us.Nodup
  all : ∀ f ∈ a₀.fibers, (a₀.fiber f).state ≠ .inactive → f ∈ us ∨ (a.fiber f).removed = true
  only : ∀ f ∈ us, (a₀.fiber f).state ≠ .inactive ∧ (a.fiber f).state = .inactive
  dependents : us.Pairwise fun g f => ¬ Relation.TransGen (ProvidedBy a₀) f g
  root : (a.scope Core.root).disposed = true

theorem Progress.runs {r₁ : Runtime} (h : Progress a₀ base [] r₁)
    (hbase : ∀ w ∈ base, ∃ fr, w = .frame fr) (hnodup : a₀.unloadOrder.Nodup)
    (hknown : ∀ f ∈ a₀.unloadOrder, f < a₀.fiberCount) (hruns : Runtime.Runs r₁ log r) :
    Progress a₀ base log r := by
  induction hruns with
  | refl => exact h
  | tail _ hn ih => exact ih.next hbase hnodup hknown hn

theorem Progress.shutDown (h : Progress a₀ base log r) (hstack : r.stack = .closing :: k)
    (hnodup : a₀.unloadOrder.Nodup) (hall : ∀ f ∈ a₀.fibers, f ∈ a₀.unloadOrder)
    (hpair : a₀.unloadOrder.Pairwise fun g f => ¬ Relation.TransGen (ProvidedBy a₀) f g) :
    k = base ∧ ∃ us, ShutDown a₀ log us r.app := by
  cases h with
  | loop _ hs _ _ _ =>
    obtain ⟨-, hw, -⟩ := nil_of_top (hs.symm.trans hstack) nofun
    cases hw
  | @atRoot us fs _ _ hs hshut hu hroot =>
    obtain ⟨rfl, -, rfl⟩ := nil_of_top (hs.symm.trans hstack) nofun
    refine ⟨rfl, us, rfl, hu.sub.nodup hnodup, fun f hf hst => hu.all f (hall f hf) hst,
      fun f hf => ⟨hu.only f hf, ?_⟩, hpair.sublist hu.sub, hroot.resolve_right not_mem_nil⟩
    exact (hshut.finished f (hu.sub.subset hf)).resolve_right (by simp)
  | returned _ hframes =>
    obtain ⟨fr, hfr⟩ := hframes .closing (by rw [hstack]; exact mem_cons_self)
    cases hfr

/-- A runtime that was closed stays closed. -/
theorem Runtime.Runs.closed (h : Runtime.Runs r log r') (hclosed : r.closed = true) : r'.closed = true := by
  induction h with
  | refl => exact hclosed
  | @tail _ _ _ y _ hn ih =>
    cases y with
    | shutdown =>
      rcases shutdown_cases hn with ⟨-, rfl⟩ | ⟨-, rfl⟩
      · exact ih
      · rfl
    | run e => exact (next_closed hn).trans ih

/-- **The order of `Shutdown`**, called while no reconcile runs and while the bindings are acyclic: in
every run, when it is about to return to its caller, it has unloaded and disposed as `ShutDown` says; there
is such a run, in which every inverse returns; and a second `Shutdown` does nothing at any time. -/
theorem shutdown_order {r₁ : Runtime} (h : Runtime.Reaches .init r) (hopen : r.closed = false)
    (hidle : r.app.reconciling = false)
    (hacyclic : ∀ f < r.app.fiberCount, ¬ Relation.TransGen (ProvidedBy r.app) f f)
    (hcall : r.next .shutdown = some r₁) :
    (∀ log r₂ k, Runtime.Runs r₁ log r₂ → r₂.stack = .closing :: k →
      k = r.stack ∧ ∃ us, ShutDown r.app log us r₂.app) ∧
    (∃ log r₂, Runtime.Runs r₁ log r₂ ∧ r₂.stack = .closing :: r.stack) ∧
    ∀ log r₂ r₃, Runtime.Runs r₁ log r₂ → r₂.next .shutdown = some r₃ → r₃ = r₂ := by
  obtain ⟨s, hs, happ, hstack⟩ := h.opened hopen
  have hwired := (Sound.run hs).wired
  have hbounded : Bounded r.app := happ ▸ Bounded.run hs
  have hfibers : ∀ f ∈ r.app.fibers, f < r.app.fiberCount := by
    rw [← happ]
    exact fun f hf => ((hwired.registered f).1 hf).1
  obtain ⟨hnodup, hall, hknown, hpair⟩ := unloadOrder_spec hbounded hfibers hacyclic
  obtain rfl : r₁ = { r with closed := true, stack := .unloadAll r.app.unloadOrder :: r.stack } := by
    rcases Runtime.shutdown_cases hcall with ⟨hclosed, -⟩ | ⟨-, heq⟩
    · rw [hopen] at hclosed
      cases hclosed
    · exact heq
  have hbase : ∀ w ∈ r.stack, ∃ fr, w = .frame fr := by
    rw [hstack]
    exact fun w => frame_of_mem_map
  have hstart : Progress r.app r.stack []
      { r with closed := true, stack := .unloadAll r.app.unloadOrder :: r.stack } := by
    have hshutting : Shutting r.app [] r.app [] :=
      ⟨hidle, nofun, le_rfl, hfibers, by simp, nofun, nofun, fun f _ _ hst => .inl hst, fun f _ hst => hst⟩
    have hunloaded : Unloaded r.app [] [] r.app := ⟨.slnil, nofun, nofun⟩
    exact .loop (r := { r with closed := true, stack := .unloadAll r.app.unloadOrder :: r.stack })
      rfl rfl rfl hshutting hunloaded
  refine ⟨fun log r₂ k hruns htop => ?_, Runtime.unwind_loop rfl rfl, fun log r₂ r₃ hruns hagain => ?_⟩
  · exact (hstart.runs hbase hnodup hknown hruns).shutDown htop hnodup hall hpair
  · rcases Runtime.shutdown_cases hagain with ⟨-, heq⟩ | ⟨hopen', -⟩
    · exact heq
    · rw [hruns.closed rfl] at hopen'
      cases hopen'

/-- Components whose keys are from components registered before them are in no cycle. -/
theorem acyclic_of_providers (h : ∀ f < a.fiberCount, ∀ g ∈ a.providers f, g < f) :
    ∀ f < a.fiberCount, ¬ Relation.TransGen (ProvidedBy a) f f := by
  intro f hf hcycle
  have hlt : ∀ g, Relation.TransGen (ProvidedBy a) f g → g < f := by
    intro g hg
    induction hg with
    | single hstep => exact h f hf _ (mem_providers.2 hstep)
    | tail _ hstep ih => exact (h _ (ih.trans hf) _ (mem_providers.2 hstep)).trans ih
  exact (hlt f hcycle).false

/-- A provider and a consumer of its key are ACTIVE when `Shutdown` is called; there is a run in which it is
about to return, and it has unloaded both in order. -/
theorem shutdown_order_pair : ∃ r r₁ r₂ : Runtime, ∃ log us, Runtime.Reaches .init r ∧
    (r.app.fiber 0).state = .active ∧ (r.app.fiber 1).state = .active ∧ ProvidedBy r.app 1 0 ∧
    r.next .shutdown = some r₁ ∧ Runtime.Runs r₁ log r₂ ∧ r₂.stack = [.closing] ∧
    ShutDown r.app log us r₂.app := by
  have hreach := Runtime.reaches_of_run (show Runtime.run .init (pair.map .run) = some _ from rfl)
  obtain ⟨horder, ⟨log, r₂, hruns, htop⟩, -⟩ :=
    shutdown_order hreach rfl rfl (acyclic_of_providers (by decide)) rfl
  obtain ⟨-, us, hdown⟩ := horder log r₂ _ hruns htop
  exact ⟨_, _, r₂, log, us, hreach, rfl, rfl, ⟨sampleKey, by decide, _, rfl, rfl⟩, rfl, hruns, htop, hdown⟩

end Re0Auth.Core

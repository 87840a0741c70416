import Re0Auth.Core.Control

/-!
# Composition soundness

A reconcile ends when a pass over the fibers changed nothing and nobody asked for another. Then every
fiber is where its keys put it; and since a binding lives as long as the disposer that withdraws it,
which lies on the stack of an activation, only the root and ACTIVE components bind anything.

* **`Steady`**: every registered fiber is stable unless a reconcile is on its way (**`Steady.step`**);
* **`Held`**: a publication that was not withdrawn is on the stack of an activation of its provider, or
  in the hands of a call; **`Kept`**: an activation that was not disposed is its fiber's current one, or
  about to be;
* **`Accounted`**: the store, the disposers and the scopes agree (**`Accounted.step`**);
* **`composition_sound`**: the three statements about a runtime at rest.
-/

namespace Re0Auth.Core

open App Function List Option

variable {a a' : App} {k old new : List Frame} {f c d : ℕ} {s t : State} {e : Event} {ref : KeyRef}
  {p o : Option ℕ} {fr : Frame} {b : Binding}

/-! ## Stable fibers -/

/-- Every registered fiber is stable, unless a reconcile is requested or runs; the pass that runs has
the other fibers before it, or will be followed by another. -/
def Steady (a : App) (k : List Frame) : Prop :=
  (∀ f ∈ a.fibers, a.Stable f) ∨ .request ∈ k ∨ .reconcile ∈ k ∨
    ∃ todo changed, .pass todo changed ∈ k ∧
      (changed = true ∨ a.dirty = true ∨ ∀ f ∈ a.fibers, f ∈ todo ∨ a.Stable f)

/-- Stability of a fiber depends on its own record, the store, and who is ACTIVE. -/
theorem stable_congr (hstore : a'.store = a.store) (hf : a'.fiber f = a.fiber f)
    (hact : ∀ g, (a'.fiber g).state = .active ↔ (a.fiber g).state = .active) : a'.Stable f ↔ a.Stable f := by
  have havail : a'.available = a.available := by
    funext p
    cases p with
    | none => rfl
    | some g =>
      simpa [available] using hact g
  have hres : a'.resolve = a.resolve := by
    funext ref
    simp only [resolve, hstore, havail]
  simp only [Stable, resolveTarget, hf, hres]

/-- A step that leaves the store and the registered fibers alone. -/
theorem Steady.carry (h : Steady a (old ++ k)) (hfibers : a'.fibers = a.fibers)
    (hstable : ∀ f ∈ a.fibers, a.Stable f → a'.Stable f) (hdirty : a'.dirty = a.dirty)
    (hold : ∀ fr ∈ old, fr ≠ .request ∧ layer fr ≠ .loop) : Steady a' (new ++ k) := by
  have hin : ∀ fr, fr = .request ∨ layer fr = .loop → fr ∈ old ++ k → fr ∈ new ++ k := by
    intro fr hfr hmem
    rcases mem_append.1 hmem with hmem | hmem
    · exact absurd hfr (not_or.2 (hold fr hmem))
    · exact mem_append_right _ hmem
  rcases h with h | h | h | ⟨todo, changed, hp, h⟩
  · exact .inl fun f hf => hstable f (hfibers ▸ hf) (h f (hfibers ▸ hf))
  · exact .inr (.inl (hin _ (.inl rfl) h))
  · exact .inr (.inr (.inl (hin _ (.inr rfl) h)))
  · refine .inr (.inr (.inr ⟨todo, changed, hin _ (.inr rfl) hp, ?_⟩))
    rcases h with h | h | h
    · exact .inl h
    · exact .inr (.inl (hdirty.trans h))
    · exact .inr (.inr fun f hf => (h f (hfibers ▸ hf)).imp_right (hstable f (hfibers ▸ hf)))

/-- A running reconcile has its loop on the stack. -/
theorem Nested.loop (h : Nested true k) : .reconcile ∈ k ∨ ∃ todo changed, .pass todo changed ∈ k := by
  induction k with
  | nil => cases h
  | cons fr k ih =>
    cases fr with
    | reconcile => exact .inl mem_cons_self
    | pass todo changed => exact .inr ⟨todo, changed, mem_cons_self⟩
    | apply | loaded | dropped | unloaded =>
      obtain ⟨-, ⟨todo, l, rfl⟩, -⟩ := h
      exact .inr ⟨todo, true, by simp⟩
    | _ =>
      exact (ih h).imp (mem_cons_of_mem _) fun ⟨todo, changed, hp⟩ =>
        ⟨todo, changed, mem_cons_of_mem _ hp⟩

/-- **A step keeps the runtime steady.** -/
theorem Steady.step (h : Steady a (old ++ k)) (hw : Wired a (old ++ k)) (hm : Move a old a' new) :
    Steady a' (new ++ k) := by
  cases hm with
  | busy hr =>
    -- The request becomes the flag that makes the running loop go around again.
    have hn : Nested true k := hr ▸ hw.nested
    exact .inr (.inr (hn.loop.imp_right fun ⟨todo, changed, hp⟩ => ⟨todo, changed, hp, .inr (.inl rfl)⟩))
  | start | again => exact .inr (.inr (.inl (by simp)))
  | begin => exact .inr (.inr (.inr ⟨a.fibers, false, by simp, .inr (.inr fun f hf => .inl hf)⟩))
  | settle hd =>
    rcases h with h | h | h | ⟨todo, changed, hp, h⟩
    · exact .inl h
    · exact .inr (.inl (by simpa using h))
    · exact .inr (.inr (.inl (by simpa using h)))
    · rcases mem_cons.1 hp with heq | hp
      · cases heq
        have hall := (h.resolve_left nofun).resolve_left (by simp [hd])
        refine .inl fun f hf => (stable_congr (a := a) rfl rfl fun _ => Iff.rfl).2 ?_
        exact (hall f hf).resolve_left not_mem_nil
      · exact absurd (hw.nested.2.any_of_false _ hp) nofun
  | @skip x todo changed hx =>
    have hreg : ∀ f ∈ a.fibers, f = x → a.Stable f := by
      rintro f hf rfl
      exact hx.resolve_left (by simp [((hw.registered f).1 hf).2])
    rcases h with h | h | h | ⟨todo', changed', hp, h⟩
    · exact .inl h
    · exact .inr (.inl (by simpa using h))
    · exact .inr (.inr (.inl (by simpa using h)))
    · rcases mem_cons.1 hp with heq | hp
      · cases heq
        refine .inr (.inr (.inr ⟨todo, changed, by simp, h.imp_right (.imp_right fun h f hf => ?_)⟩))
        rcases h f hf with hmem | hst
        · exact (mem_cons.1 hmem).elim (fun he => .inr (hreg f hf he)) .inl
        · exact .inr hst
      · exact absurd (hw.nested.2.any_of_false _ hp) nofun
  | @load _ todo | @unload _ todo => exact .inr (.inr (.inr ⟨todo, true, by simp, .inl rfl⟩))
  | drop | activate | fail | dropped | unloaded =>
    -- A transition stands above a pass that has recorded its change.
    obtain ⟨-, ⟨todo, l, rfl⟩, -⟩ := hw.nested
    exact .inr (.inr (.inr ⟨todo, true, by simp, .inl rfl⟩))
  | withdraw | use | remove | provide => exact .inr (.inl (by simp))
  | @force x _ | @forced x =>
    have hrem := (hw.fits _ mem_cons_self).2
    refine h.carry rfl (fun f hf hst => ?_) rfl (by simp [layer])
    refine (stable_congr ?_ ?_ fun g => ?_).2 hst
    · rfl
    · have hne : f ≠ x := by
        rintro rfl
        simp [((hw.registered f).1 hf).2] at hrem
      simp [setState, settleUnload, fiber_setFiber, hne]
    · have hact : (a.fiber x).state ≠ .active := fun hst => by simp [(hw.active x hst).2] at hrem
      by_cases hg : g = x
      · simp only [setState, settleUnload, fiber_setFiber]
        grind
      · simp [setState, settleUnload, fiber_setFiber, hg]
  | _ => exact h.carry rfl (fun f _ => (stable_congr (a := a) rfl rfl fun _ => Iff.rfl).2) rfl (by simp [layer])

/-! ## Publications and activations -/

/-- The frame has the disposer in hand, for a provider. -/
def Carries (a : App) (p : Option ℕ) (d : ℕ) : Frame → Prop
  | .add c d' => d' = d ∧ (a.scope c).owner = p
  | .disposing ds => d ∈ ds
  | .invoke d' => d' = d
  | _ => False

/-- A disposer on the stack of an activation of the provider, or in the hands of a call. -/
def Held (a : App) (k : List Frame) (p : Option ℕ) (d : ℕ) : Prop :=
  (∃ c, (a.scope c).owner = p ∧ (a.scope c).disposed = false ∧ d ∈ (a.scope c).stack) ∨
    ∃ fr ∈ k, Carries a p d fr

/-- The frame will dispose the activation, or make it the current one of its fiber. -/
def Settles (a : App) (f c : ℕ) : Frame → Prop
  | .dispose c' => c' = c
  | .apply f' c' => f' = f ∧ c' = c
  | .loaded f' c' none => f' = f ∧ c' = c
  | .force f' => f' = f ∧ (a.fiber f).ctx = some c ∧ (a.fiber f).state = .unloading
  | _ => False

/-- The activation is the one its ACTIVE fiber runs on, or a call will settle what becomes of it. -/
def Kept (a : App) (k : List Frame) (f c : ℕ) : Prop :=
  ((a.fiber f).ctx = some c ∧ (a.fiber f).state = .active) ∨ ∃ fr ∈ k, Settles a f c fr

/-- The activation is disposed or about to be. -/
def Ending (a : App) (k : List Frame) (c : ℕ) : Prop := (a.scope c).disposed = true ∨ .dispose c ∈ k

/-- The frame has left the activation it is about to its end. -/
def Spent (a : App) (k : List Frame) : Frame → Prop
  | .unloaded f | .forced f | .dropped f => ∀ c, (a.fiber f).ctx = some c → Ending a k c
  | .loaded _ c (some _) => Ending a k c
  | _ => True

/-- **The account of the runtime**: what is bound is exactly what was published and not withdrawn, every
publication is held, and every activation that was not disposed is kept. -/
structure Accounted (a : App) (k : List Frame) : Prop where
  bound : ∀ ref p d, a.store ref = some ⟨p, d⟩ ↔ a.disposer d = ⟨.withdraw ref p, false⟩
  held : ∀ ref p d, a.disposer d = ⟨.withdraw ref p, false⟩ → Held a k p d
  kept : ∀ c f, (a.scope c).owner = some f → (a.scope c).disposed = false → Kept a k f c
  spent : ∀ fr ∈ k, Spent a k fr
  fresh : ∀ d, a.disposerCount ≤ d → (a.disposer d).done = true
  blank : ∀ c, a.scopeCount ≤ c → a.scope c = newScope none

theorem Accounted.init : Accounted App.init [] := by
  constructor <;> simp [App.init, newScope]

theorem store_withdraw {r : KeyRef} {q : Option ℕ} :
    (a.withdraw ref p).store r = some ⟨q, d⟩ ↔ a.store r = some ⟨q, d⟩ ∧ ¬(r = ref ∧ q = p) := by
  simp only [App.withdraw]
  split_ifs with hcond
  · grind
  · grind

theorem Accounted.disposer_fresh (h : Accounted a k) {inv : Inverse} :
    a.disposer a.disposerCount ≠ ⟨inv, false⟩ := by
  intro heq
  have hdone := h.fresh _ le_rfl
  rw [heq] at hdone
  cases hdone

variable (h : Accounted a (old ++ k)) (hw : Wired a (old ++ k)) (hm : Move a old a' new)

include h hm in
/-- What is bound and the withdrawals still to run keep in step: a withdrawal that runs finds its own
publication, since a key is published only while it is unbound. -/
theorem Accounted.bound_step (ref : KeyRef) (p : Option ℕ) (d : ℕ) :
    a'.store ref = some ⟨p, d⟩ ↔ a'.disposer d = ⟨.withdraw ref p, false⟩ := by
  have hb := h.bound
  have hfresh : ∀ ref p, a.store ref ≠ some ⟨p, a.disposerCount⟩ := fun ref p hs =>
    h.disposer_fresh ((hb _ _ _).1 hs)
  cases hm with
  | @withdraw x r q hx =>
    have hown := (hb _ _ _).2 hx
    by_cases hd : d = x
    · simp only [marked, App.withdraw]
      grind
    · simp only [marked, App.withdraw, update_of_ne hd]
      grind
  | @revert x hx =>
    by_cases hd : d = x
    · simp only [marked, hb]
      grind
    · simpa only [marked, update_of_ne hd] using hb ref p d
  | @provide c r hc hs =>
    by_cases hd : d = a.disposerCount
    · simp only [newDisposer, update_apply]
      grind
    · simp only [newDisposer, update_of_ne hd, update_apply]
      grind
  | effect | okDisposer =>
    by_cases hd : d = a.disposerCount
    · simp only [newDisposer]
      grind
    · simpa only [newDisposer, update_of_ne hd] using hb ref p d
  | _ => exact hb ref p d

include hm in
/-- A withdrawal still to run after a step was still to run before it, or belongs to the publication
just made. -/
theorem Move.live_before (hd : a'.disposer d = ⟨.withdraw ref p, false⟩) :
    (a.disposer d = ⟨.withdraw ref p, false⟩ ∧ .invoke d ∉ old) ∨
      ∃ c, .add c d ∈ new ∧ (a'.scope c).owner = p := by
  cases hm with
  | @withdraw x r q hx | @revert x hx =>
    have hne : d ≠ x := by
      rintro rfl
      simp [marked, App.withdraw] at hd
    simp only [marked, App.withdraw, update_of_ne hne] at hd
    exact .inl ⟨hd, by simpa using hne⟩
  | @provide c =>
    by_cases hnew : d = a.disposerCount
    · subst hnew
      simp only [newDisposer, update_self] at hd
      cases hd
      exact .inr ⟨c, by simp, rfl⟩
    · simp only [newDisposer, update_of_ne hnew] at hd
      exact .inl ⟨hd, by simp⟩
  | effect | okDisposer =>
    by_cases hnew : d = a.disposerCount
    · subst hnew
      simp only [newDisposer, update_self] at hd
      cases hd
    · simp only [newDisposer, update_of_ne hnew] at hd
      exact .inl ⟨hd, by simp⟩
  | invokeAgain hx =>
    refine .inl ⟨hd, ?_⟩
    intro hin
    cases mem_singleton.1 hin
    rw [hd] at hx
    cases hx
  | _ => exact .inl ⟨hd, by simp⟩

theorem Carries.kept (h : Carries a p d fr) (hfits : Fits a fr) (hg : Grows a a') : Carries a' p d fr := by
  cases fr with
  | add c d' => exact ⟨h.1, (hg.owner c hfits).trans h.2⟩
  | _ => exact h

include h hw hm in
/-- A withdrawal still to run stays held: a dispose hands its stack on, and a late `add` runs it. -/
theorem Accounted.held_step (ref : KeyRef) (p : Option ℕ) (d : ℕ)
    (hd : a'.disposer d = ⟨.withdraw ref p, false⟩) : Held a' (new ++ k) p d := by
  rcases hm.live_before hd with ⟨hd, hnot⟩ | ⟨c, hadd, ho⟩
  · rcases h.held _ _ _ hd with ⟨c, ho, hdisp, hin⟩ | ⟨fr, hfr, hc⟩
    · cases hm with
      | @dispose x =>
        by_cases hx : c = x
        · subst hx
          exact .inr ⟨_, mem_cons_self, hin⟩
        · exact .inl ⟨c, by simpa [setScope, hx] using ⟨ho, hdisp, hin⟩⟩
      | @add x y =>
        refine .inl ⟨c, ?_⟩
        by_cases hx : c = x
        · subst hx
          simpa [setScope, ho, hdisp] using Or.inr hin
        · simpa [setScope, hx] using ⟨ho, hdisp, hin⟩
      | load =>
        have hx : c ≠ a.scopeCount := by
          rintro rfl
          simp [h.blank _ le_rfl, newScope] at hin
        exact .inl ⟨c, by simpa [loading, hx] using ⟨ho, hdisp, hin⟩⟩
      | _ => exact .inl ⟨c, ho, hdisp, hin⟩
    · rcases mem_append.1 hfr with hfr | hfr
      · cases hm with
        | addLate =>
          cases mem_singleton.1 hfr
          exact .inr ⟨_, mem_cons_self, hc.1⟩
        | @add x y hx =>
          cases mem_singleton.1 hfr
          exact .inl ⟨x, by simpa [setScope, hx, hc.1] using hc.2⟩
        | @pop x xs =>
          cases mem_singleton.1 hfr
          rcases mem_cons.1 hc with rfl | hc
          · exact .inr ⟨_, mem_cons_self, rfl⟩
          · exact .inr ⟨.disposing xs, by simp, hc⟩
        | disposed =>
          cases mem_singleton.1 hfr
          cases hc
        | invokeAgain | withdraw | revert =>
          cases mem_singleton.1 hfr
          exact absurd (by simpa [Carries] using hc.symm) hnot
        | use | remove | provide | effect | refused | run => cases hfr
        | _ =>
          cases mem_singleton.1 hfr
          exact hc.elim
      · exact .inr ⟨fr, mem_append_right _ hfr, hc.kept (hw.fits fr (mem_append_right _ hfr)) hm.grows⟩
  · exact .inr ⟨_, mem_append_left _ hadd, rfl, ho⟩

/-! ## Activations -/

include h hm in
/-- Disposal is final. -/
theorem Accounted.disposed_step (hc : (a.scope c).disposed = true) : (a'.scope c).disposed = true := by
  cases hm with
  | @dispose x | @add x =>
    by_cases hx : c = x
    · subst hx
      simp [setScope, hc]
    · simpa [setScope, hx] using hc
  | load =>
    have hx : c ≠ a.scopeCount := by
      rintro rfl
      simp [h.blank _ le_rfl, newScope] at hc
    simpa [loading, hx] using hc
  | _ => exact hc

include h hm in
theorem Accounted.ending_step (hc : Ending a (old ++ k) c) : Ending a' (new ++ k) c := by
  rcases hc with hc | hc
  · exact .inl (h.disposed_step hm hc)
  rcases mem_append.1 hc with hc | hc
  · cases hm with
    | disposeAgain hx =>
      cases mem_singleton.1 hc
      exact .inl hx
    | dispose =>
      cases mem_singleton.1 hc
      exact .inl (by simp [setScope])
    | _ => simp at hc
  · exact .inr (mem_append_right _ hc)

include hm in
/-- A context that a fiber has after a step is the one it had, or a pass has just loaded it. -/
theorem Move.ctx_before (hf : f < a.fiberCount) (hc : (a'.fiber f).ctx = some c) :
    (a.fiber f).ctx = some c ∨
      (a.fiber f).removed = false ∧ ∃ todo changed, old = [.pass (f :: todo) changed] := by
  obtain heq | hturn := hm.turn f
  · exact .inl (heq ▸ hc)
  · generalize a'.fiber f = g at hturn hc
    cases hturn with
    | @load todo changed _ hrem => exact .inr ⟨hrem, todo, changed, rfl⟩
    | dropped => cases hc
    | use hnew => exact absurd hnew hf.ne
    | _ => exact .inl hc

theorem mem_disposeCtx {l : List Frame} (h : o = some c) : .dispose c ∈ disposeCtx o ++ l := by
  simp [h, disposeCtx]

theorem eq_of_mem_disposeCtx (h : fr ∈ disposeCtx o) : ∃ c, fr = .dispose c := by
  cases o with
  | none => cases h
  | some c => exact ⟨c, mem_singleton.1 h⟩

include hw hm in
/-- The frames a step pushes leave their activations to their end. -/
theorem Accounted.spent_pushed : ∀ fr ∈ new, Spent a' (new ++ k) fr := by
  cases hm with
  | @unload x | @force x =>
    intro fr hfr
    rcases mem_append.1 hfr with hfr | hfr
    · obtain ⟨c, rfl⟩ := eq_of_mem_disposeCtx hfr
      trivial
    · have hctx : ∀ c, (a.fiber x).ctx = some c → Frame.dispose c ∈ disposeCtx (a.fiber x).ctx :=
        fun c hc => by simp [hc, disposeCtx]
      simp only [mem_cons, not_mem_nil, or_false] at hfr
      rcases hfr with rfl | rfl
      all_goals first
        | trivial
        | exact fun c hc => .inr (mem_append_left _ (mem_append_left _
            (hctx c (by simpa [setState, fiber_setFiber] using hc))))
  | load =>
    intro fr hfr
    rcases mem_append.1 hfr with hfr | hfr
    · obtain ⟨c, rfl⟩ := eq_of_mem_disposeCtx hfr
      trivial
    · simp only [mem_cons, not_mem_nil, or_false] at hfr
      rcases hfr with rfl | rfl <;> trivial
  | @drop x c err =>
    have hctx := (hw.fits _ mem_cons_self).2.2.1
    simp only [mem_cons, not_mem_nil, or_false, forall_eq_or_imp, forall_eq]
    refine ⟨trivial, fun c' hc' => .inr ?_⟩
    rw [hctx] at hc'
    cases hc'
    exact mem_cons_self
  | err => simp [Spent, Ending]
  | _ => simp [Spent]

include h hw hm in
theorem Accounted.spent_step : ∀ fr ∈ new ++ k, Spent a' (new ++ k) fr := by
  intro fr hfr
  rcases mem_append.1 hfr with hfr | hfr
  · exact Accounted.spent_pushed hw hm fr hfr
  have hfits := hw.fits fr (mem_append_right _ hfr)
  have hspent := h.spent fr (mem_append_right _ hfr)
  have hloop : ∀ f, (∃ todo changed, old = [.pass (f :: todo) changed]) → layer fr = .any := by
    rintro f ⟨todo, changed, rfl⟩
    exact hw.nested.2.any_of_false fr hfr
  cases fr with
  | unloaded f | dropped f =>
    intro c hc
    rcases hm.ctx_before hfits hc with hc | ⟨-, hold⟩
    · exact h.ending_step hm (hspent c hc)
    · exact absurd (hloop f hold) nofun
  | forced f =>
    intro c hc
    rcases hm.ctx_before hfits.1 hc with hc | ⟨hrem, -⟩
    · exact h.ending_step hm (hspent c hc)
    · rw [hfits.2] at hrem
      cases hrem
  | loaded f c err =>
    cases err with
    | none => trivial
    | some e => exact h.ending_step hm hspent
  | _ => trivial

include hm in
/-- An activation that is there after a step was there before it, or has just begun. -/
theorem Move.scope_before (ho : (a'.scope c).owner = some f) (hd : (a'.scope c).disposed = false) :
    ((a.scope c).owner = some f ∧ (a.scope c).disposed = false ∧ .dispose c ∉ old) ∨
      .apply f c ∈ new := by
  have hkept := And.intro ho hd
  cases hm with
  | @dispose x =>
    by_cases hx : c = x
    · simp [setScope, hx] at hd
    · exact .inl (by simpa [setScope, hx] using hkept)
  | @disposeAgain x hx =>
    refine .inl ⟨ho, hd, fun hin => ?_⟩
    cases mem_singleton.1 hin
    rw [hd] at hx
    cases hx
  | @add x =>
    by_cases hx : c = x
    · subst hx
      exact .inl (by simpa [setScope] using hkept)
    · exact .inl (by simpa [setScope, hx] using hkept)
  | load =>
    by_cases hx : c = a.scopeCount
    · subst hx
      simp only [loading, update_self, newScope, some.injEq] at ho
      exact .inr (by simp [ho])
    · exact .inl (by simpa [loading, hx] using hkept)
  | _ => exact .inl ⟨ho, hd, by simp⟩

/-- The top frame has left an activation to its end, so a frame below will dispose it. -/
theorem Ending.below {top : Frame} (h : Ending a (top :: k) c) (hd : (a.scope c).disposed = false)
    (htop : top ≠ .dispose c) : .dispose c ∈ k := by
  rcases h with h | h
  · rw [hd] at h
    cases h
  · exact (mem_cons.1 h).resolve_left htop.symm

theorem kept_of_dispose (h : .dispose c ∈ k) : Kept a k f c := .inr ⟨_, h, rfl⟩

section

include h hw hm

/-- The activation an ACTIVE fiber runs on stays kept. -/
theorem Accounted.kept_active (hd : (a.scope c).disposed = false)
    (hctx : (a.fiber f).ctx = some c) (hact : (a.fiber f).state = .active) : Kept a' (new ++ k) f c := by
  obtain heq | hturn := hm.turn f
  · exact .inl (heq ▸ ⟨hctx, hact⟩)
  · generalize hg : a'.fiber f = g at hturn
    cases hturn with
    | load | unload | force => exact kept_of_dispose (mem_append_left _ (mem_disposeCtx hctx))
    | activate => exact .inl (hg ▸ ⟨hctx, rfl⟩)
    | fail =>
      cases hctx.symm.trans (hw.fits _ mem_cons_self).2.2.1
      exact kept_of_dispose ((h.spent _ mem_cons_self).below hd nofun)
    | dropped => exact kept_of_dispose ((h.spent _ mem_cons_self c hctx).below hd nofun)
    | settle => exact .inl (hg ▸ ⟨hctx, by simp [hact]⟩)
    | remove => exact .inr ⟨.force f, by simp, rfl, hg ▸ ⟨hctx, by simp [retired, hact]⟩⟩
    | use hnew => exact absurd hnew (hw.active f hact).1.ne

/-- The activation of a fiber that is about to be unloaded by `Remove` stays kept. -/
theorem Accounted.kept_forced (hd : (a.scope c).disposed = false) (hforce : .force f ∈ k)
    (hctx : (a.fiber f).ctx = some c) (hst : (a.fiber f).state = .unloading) : Kept a' (new ++ k) f c := by
  obtain ⟨hf, hrem⟩ := hw.fits _ (mem_append_right _ hforce)
  have hkeep : (a'.fiber f).ctx = some c ∧ (a'.fiber f).state = .unloading → Kept a' (new ++ k) f c :=
    fun h' => .inr ⟨_, mem_append_right _ hforce, rfl, h'⟩
  obtain heq | hturn := hm.turn f
  · exact hkeep (heq ▸ ⟨hctx, hst⟩)
  · generalize hg : a'.fiber f = g at hturn
    cases hturn with
    | load hno | unload hno | activate hno | fail hno => simp [hrem] at hno
    | dropped => exact kept_of_dispose ((h.spent _ mem_cons_self c hctx).below hd nofun)
    | settle hfr =>
      obtain rfl | rfl := hfr <;> exact kept_of_dispose ((h.spent _ mem_cons_self c hctx).below hd nofun)
    | force => exact kept_of_dispose (mem_append_left _ (mem_disposeCtx hctx))
    | remove hreg => simp [((hw.registered f).1 hreg).2] at hrem
    | use hnew => exact absurd hnew hf.ne

/-- An activation that was not disposed stays kept. -/
theorem Accounted.kept_step (c f : ℕ) (ho : (a'.scope c).owner = some f)
    (hd : (a'.scope c).disposed = false) : Kept a' (new ++ k) f c := by
  rcases hm.scope_before ho hd with ⟨ho, hd, hnot⟩ | hnew
  · rcases h.kept c f ho hd with ⟨hctx, hact⟩ | ⟨fr, hfr, hs⟩
    · exact h.kept_active hw hm hd hctx hact
    rcases mem_append.1 hfr with hfr | hfr
    · cases hm with
      | ok | okDisposer =>
        cases mem_singleton.1 hfr
        exact .inr ⟨.loaded _ _ none, by simp, hs⟩
      | err =>
        cases mem_singleton.1 hfr
        exact kept_of_dispose (by simp [hs.2])
      | @drop _ _ err =>
        cases mem_singleton.1 hfr
        cases err with
        | none => exact kept_of_dispose (by simp [hs.2])
        | some e => exact hs.elim
      | activate =>
        have hctx := (hw.fits _ mem_cons_self).2.2.1
        cases mem_singleton.1 hfr
        obtain ⟨rfl, rfl⟩ := hs
        exact .inl (by simpa [setState, fiber_setFiber] using hctx)
      | forceIdle hidle =>
        cases mem_singleton.1 hfr
        obtain ⟨rfl, -, hst⟩ := hs
        rw [hidle] at hst
        cases hst
      | force =>
        cases mem_singleton.1 hfr
        obtain ⟨rfl, hctx, -⟩ := hs
        exact kept_of_dispose (mem_append_left _ (mem_disposeCtx hctx))
      | dispose | disposeAgain =>
        cases mem_singleton.1 hfr
        exact absurd (by simpa [Settles] using hs.symm) hnot
      | use | remove | provide | effect | refused | run => cases hfr
      | _ =>
        cases mem_singleton.1 hfr
        exact hs.elim
    · cases fr with
      | force f' =>
        obtain ⟨rfl, hctx, hst⟩ := hs
        exact h.kept_forced hw hm hd hfr hctx hst
      | loaded f' c' err =>
        cases err with
        | none => exact .inr ⟨_, mem_append_right _ hfr, hs⟩
        | some e => exact hs.elim
      | _ => exact .inr ⟨_, mem_append_right _ hfr, hs⟩
  · exact .inr ⟨_, mem_append_left _ hnew, rfl, rfl⟩

/-- **A step keeps the account.** -/
theorem Accounted.step : Accounted a' (new ++ k) where
  bound := h.bound_step hm
  held := h.held_step hw hm
  kept := h.kept_step hw hm
  spent := h.spent_step hw hm
  fresh := by
    have hfresh := h.fresh
    cases hm with
    | @withdraw x | @revert x =>
      intro d hd
      by_cases hx : d = x
      · simp [marked, App.withdraw, hx]
      · simpa [marked, App.withdraw, hx] using hfresh d hd
    | provide | effect | okDisposer =>
      intro d hd
      have hx : d ≠ a.disposerCount := Nat.ne_of_gt hd
      simpa [newDisposer, hx] using hfresh d (Nat.le_of_succ_le hd)
    | _ => exact hfresh
  blank := by
    have hblank := h.blank
    cases hm with
    | load =>
      intro c hc
      have hx : c ≠ a.scopeCount := Nat.ne_of_gt hc
      simpa [loading, hx] using hblank c (Nat.le_of_succ_le hc)
    | @dispose x | @add x =>
      intro c hc
      have hx : c ≠ x := (hw.fits _ mem_cons_self |>.trans_le hc).ne'
      simpa [setScope, hx] using hblank c hc
    | _ => exact hblank

end

/-! ## The runtime at rest -/

/-- What holds in every state of a run. -/
structure Sound (s : State) : Prop where
  wired : Wired s.app s.stack
  steady : Steady s.app s.stack
  accounted : Accounted s.app s.stack

theorem Sound.init : Sound .init := ⟨Wired.init, .inl nofun, Accounted.init⟩

theorem Sound.next (h : Sound s) (hn : s.next e = some t) : Sound t := by
  obtain ⟨old, new, k, hs, ht, hm⟩ := State.next_move hn
  obtain ⟨hw, hst, ha⟩ := h
  rw [hs] at hw hst ha
  exact ⟨ht ▸ hw.step hm, ht ▸ hst.step hw hm, ht ▸ ha.step hw hm⟩

theorem Sound.run {ok : State → Event → Prop} (h : State.Reaches ok .init s) : Sound s := by
  induction h with
  | refl => exact Sound.init
  | tail _ hstep ih =>
    obtain ⟨e, -, hn⟩ := hstep
    exact ih.next hn

/-- Outside of every call nothing is left to reconcile. -/
theorem Sound.settled (h : Sound s) (hrest : s.stack = []) : s.Settled := by
  have hn := h.wired.nested
  rw [hrest] at hn
  exact ⟨hn, by simp [hrest]⟩

/-- After a reconcile every registered fiber is stable. -/
theorem Sound.stable (h : Sound s) (hs : s.Settled) (hf : f ∈ s.app.fibers) : s.app.Stable f := by
  obtain ⟨hr, hreq⟩ := hs
  have hany := (hr ▸ h.wired.nested).any_of_false
  rcases h.steady with hst | hreq' | hloop | ⟨todo, changed, hp, -⟩
  · exact hst f hf
  · exact absurd hreq' hreq
  · exact absurd (hany _ hloop) nofun
  · exact absurd (hany _ hp) nofun

/-- The publisher of a binding is the root or an ACTIVE component. -/
def ByActive (a : App) (b : Binding) : Prop :=
  b.provider = none ∨ ∃ g, b.provider = some g ∧ (a.fiber g).state = .active

theorem byActive_iff : ByActive a b ↔ a.available b.provider = true := by
  unfold ByActive
  cases b.provider <;> simp [available]

/-- A key that resolves is bound by the root or an ACTIVE component. -/
theorem resolve_eq_some {x : KeyRef × Option ℕ} (h : a.resolve ref = some x) :
    ∃ b, a.store ref = some b ∧ ByActive a b ∧ x = (ref, b.provider) := by
  unfold App.resolve at h
  cases hs : a.store ref with
  | none =>
    rw [hs] at h
    cases h
  | some b =>
    rw [hs] at h
    by_cases hav : a.available b.provider = true
    · simp only [if_pos hav, some.injEq] at h
      exact ⟨b, rfl, byActive_iff.2 hav, h.symm⟩
    · simp [if_neg hav] at h

/-- When all declared keys resolve, each is bound by the root or an ACTIVE component, and the target map
has its provider. -/
theorem resolveTarget_eq_some {comp : Component} {target : List (KeyRef × Option ℕ)}
    (h : a.resolveTarget comp = some target) :
    target = comp.inject.map (fun ref => (ref, (a.store ref).bind (·.provider))) ∧
      ∀ ref ∈ comp.inject, ∃ b, a.store ref = some b ∧ ByActive a b := by
  unfold App.resolveTarget at h
  generalize comp.inject = keys at h
  induction keys generalizing target with
  | nil =>
    cases h
    exact ⟨rfl, nofun⟩
  | cons key keys ih =>
    simp only [mapM_cons, bind_eq_bind, bind_eq_some_iff, Option.pure_def, some.injEq] at h
    obtain ⟨x, hx, rest, hrest, rfl⟩ := h
    obtain ⟨b, hb, hact, rfl⟩ := resolve_eq_some hx
    obtain ⟨rfl, hall⟩ := ih hrest
    exact ⟨by simp [hb], forall_mem_cons.2 ⟨⟨b, hb, hact⟩, hall⟩⟩

theorem bound_of_resolveTarget {comp : Component} {target : List (KeyRef × Option ℕ)}
    (h : a.resolveTarget comp = some target) (href : ref ∈ comp.inject) :
    ∃ b, a.store ref = some b ∧ ByActive a b ∧ (ref, b.provider) ∈ target := by
  obtain ⟨rfl, hall⟩ := resolveTarget_eq_some h
  obtain ⟨b, hb, hact⟩ := hall ref href
  exact ⟨b, hb, hact, mem_map.2 ⟨ref, href, by simp [hb]⟩⟩

/-- The keys of a stable ACTIVE fiber resolve to the providers of its last activation. -/
theorem App.Stable.resolves (h : a.Stable f) (hact : (a.fiber f).state = .active) :
    a.resolveTarget (a.fiber f).comp = some (a.fiber f).target := by
  unfold App.Stable at h
  cases ht : a.resolveTarget (a.fiber f).comp with
  | none =>
    rw [ht] at h
    exact absurd hact h.1
  | some target =>
    rw [ht] at h
    simpa [needsLoad, hact] using h

theorem Sound.injected (h : Sound s) (hs : s.Settled) (hact : (s.app.fiber f).state = .active)
    (href : ref ∈ (s.app.fiber f).comp.inject) :
    ∃ b, s.app.store ref = some b ∧ ByActive s.app b ∧ (ref, b.provider) ∈ (s.app.fiber f).target := by
  have hreg := (h.wired.registered f).2 (h.wired.active f hact)
  have hstable : s.app.Stable f := h.stable hs hreg
  exact bound_of_resolveTarget (hstable.resolves hact) href

theorem Sound.bound (h : Sound s) (hrest : s.stack = [])
    (hb : s.app.store ref = some b) : ByActive s.app b := by
  have ha := h.accounted
  rw [hrest] at ha
  have hlive := (ha.bound ref b.provider b.publication).1 hb
  rcases ha.held _ _ _ hlive with ⟨c, ho, hd, -⟩ | ⟨fr, hfr, -⟩
  · cases hp : b.provider with
    | none => exact .inl hp
    | some g =>
      rcases ha.kept c g (ho.trans hp) hd with ⟨-, hact⟩ | ⟨fr, hfr, -⟩
      · exact .inr ⟨g, hp, hact⟩
      · cases hfr
  · cases hfr

/-- **Composition soundness.** Whenever a reconcile has finished and none is requested, every ACTIVE
component has all its injected keys bound by the root or by an ACTIVE component. Outside of every call
that is so, every binding belongs to the root or to an ACTIVE component, and components that are
INACTIVE, FAILED or removed bind nothing. -/
theorem composition_sound {ok : State → Event → Prop} (h : State.Reaches ok .init s) :
    (s.Settled → ∀ f, (s.app.fiber f).state = .active → ∀ ref ∈ (s.app.fiber f).comp.inject,
      ∃ b, s.app.store ref = some b ∧ ByActive s.app b) ∧
    (s.stack = [] → s.Settled ∧
      (∀ ref b, s.app.store ref = some b → ByActive s.app b) ∧
      ∀ f, (s.app.fiber f).state = .inactive ∨ (s.app.fiber f).state = .failed ∨
        (s.app.fiber f).removed = true → ∀ ref b, s.app.store ref = some b → b.provider ≠ some f) := by
  have hsound := Sound.run h
  refine ⟨fun hs f hact ref href => ?_, fun hrest => ⟨hsound.settled hrest, ?_, ?_⟩⟩
  · obtain ⟨b, hb, hactive, -⟩ := hsound.injected hs hact href
    exact ⟨b, hb, hactive⟩
  · exact fun ref b hb => hsound.bound hrest hb
  · intro f hf ref b hb hprov
    rcases hsound.bound hrest hb with hnone | ⟨g, hg, hact⟩
    · rw [hnone] at hprov
      cases hprov
    · rw [hprov] at hg
      cases hg
      rcases hf with hst | hst | hrem
      · simp [hact] at hst
      · simp [hact] at hst
      · simp [(hsound.wired.active f hact).2] at hrem

/-! ## A run -/

/-- A key of the sample runs. -/
def sampleKey : KeyRef := ⟨"sample", "key"⟩

/-- A component that provides the key, and one that consumes it. -/
def sampleProvider : Component := ⟨"provider", [sampleKey], [], true⟩

def sampleConsumer : Component := ⟨"consumer", [], [sampleKey], true⟩

/-- The consumer is registered first; it is activated once the provider has published the key from its
`Apply`. -/
def sampleSchedule : List Event :=
  [.call (.use sampleConsumer), .tick, .tick, .tick, .tick,
    .call (.use sampleProvider), .tick, .tick, .tick, .tick,
    .call (.provide 1 sampleKey), .tick, .tick, .applied (.ok false), .tick,
    .tick, .tick, .tick, .applied (.ok false), .tick, .tick, .tick, .tick, .tick, .tick, .tick]

/-- The run ends at rest with the consumer ACTIVE on the key its provider binds. -/
theorem composition_sound_running : ∃ s, State.Reaches (fun _ _ => True) .init s ∧ s.stack = [] ∧
    (s.app.fiber 0).state = .active ∧ (∃ b, s.app.store sampleKey = some b ∧ ByActive s.app b) ∧
    ∀ ref b, s.app.store ref = some b → ByActive s.app b := by
  have hreach : State.Reaches (fun _ _ => True) .init _ :=
    State.reaches_of_runIf (fun _ _ _ => trivial) (show State.runIf (fun _ _ => true) .init sampleSchedule = some _ from rfl)
  have hsound := composition_sound hreach
  obtain ⟨hsettled, hbound, -⟩ := hsound.2 rfl
  exact ⟨_, hreach, rfl, rfl, hsound.1 hsettled 0 rfl sampleKey (by decide), hbound⟩

end Re0Auth.Core

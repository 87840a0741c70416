import Re0Auth.Core.Composition

/-!
# Stale capabilities

The runtime decides whether to reload a fiber by the identity of the component that provides each key,
not by the publication. A provider that withdraws a key and publishes it again, before the next pass over
the fibers, leaves its dependents ACTIVE on the publication that is gone; and a FAILED dependent is not
retried against the new one even when passes came in between.

* **`Republishes`**, **`Abandons`**: the two things a run has to avoid;
* **`Current`**, **`Attempted`**: what then holds of every fiber (**`Current.next`**,
  **`Attempted.next`**);
* **`no_stale_capability`**: no component is left on a publication that has changed;
* **`capability_stale`**: the runs that break it.
-/

namespace Re0Auth.Core

open App Option State

variable {a a' : App} {k old new : List Frame} {f c d : ℕ} {s t : State} {e : Event} {ref : KeyRef}

/-! ## What a run has to avoid -/

/-- The fiber holds on to an activation, or to a failed attempt at one. -/
def Engaged (st : FiberState) : Prop := st = .active ∨ st = .loading ∨ st = .failed

instance (st : FiberState) : Decidable (Engaged st) := inferInstanceAs (Decidable (_ ∨ _))

/-- The step publishes a key from the provider that the last activation of a fiber had it from, while
the fiber is ACTIVE, LOADING or FAILED. -/
def Republishes (s : State) : Event → Prop
  | .call (.provide c ref) => ∃ f < s.app.fiberCount, Engaged (s.app.fiber f).state ∧
      ref ∈ (s.app.fiber f).comp.inject ∧ (ref, (s.app.scope c).owner) ∈ (s.app.fiber f).target
  | _ => False

/-- The disposer the next step runs, if it runs one. -/
def running : List Frame → Option ℕ
  | .invoke d :: _ => some d
  | _ => none

/-- The step withdraws a publication that the last activation of a LOADING or FAILED fiber was
against. -/
def Abandons (s : State) : Event → Prop
  | .tick => ∃ f < s.app.fiberCount,
      ((s.app.fiber f).state = .loading ∨ (s.app.fiber f).state = .failed) ∧
      ∃ ref ∈ (s.app.fiber f).comp.inject, ∃ d ∈ running s.stack,
        (s.app.disposer d).done = false ∧ (s.app.fiber f).against ref = some d
  | _ => False

instance : Decidable (Republishes s e) :=
  match e with
  | .call (.provide _ _) => inferInstanceAs (Decidable (∃ f < _, _))
  | .call (.use _) | .call (.remove _) | .call (.effect _) | .call (.withdraw _) => .isFalse id
  | .tick | .applied _ | .ret => .isFalse id

instance : Decidable (Abandons s e) :=
  match e with
  | .tick => inferInstanceAs (Decidable (∃ f < _, _))
  | .call _ | .applied _ | .ret => .isFalse id

/-! ## What a step does to a key and to a fiber -/

theorem Move.store_tick {fr : Frame} (hm : Move a [fr] a' new) (ref : KeyRef) :
    a'.store ref = a.store ref ∨
      ∃ d p, fr = .invoke d ∧ a.disposer d = ⟨.withdraw ref p, false⟩ ∧ a'.store ref = none := by
  cases hm with
  | @withdraw d r p hd =>
    by_cases hcond : ref = r ∧ (a.store ref).map Binding.provider = some p
    · exact .inr ⟨d, p, rfl, hcond.1 ▸ hd, if_pos hcond⟩
    · exact .inl (if_neg hcond)
  | _ => exact .inl rfl

/-- A key changes by being published or by being withdrawn. -/
theorem State.next_store (h : s.next e = some t) (ref : KeyRef) :
    t.app.store ref = s.app.store ref ∨
    (∃ c, e = .call (.provide c ref) ∧ s.app.store ref = none ∧
      t.app.store ref = some ⟨(s.app.scope c).owner, s.app.disposerCount⟩) ∨
    ∃ d p, e = .tick ∧ d ∈ running s.stack ∧ s.app.disposer d = ⟨.withdraw ref p, false⟩ ∧
      t.app.store ref = none := by
  obtain ⟨x, new, rfl, -, -, hcalled⟩ | ⟨fr, k, new, he, hstack, -, hm⟩ := next_cases h
  · generalize t.app = a' at hcalled ⊢
    cases hcalled with
    | @provide c r _ hs =>
      by_cases hrr : ref = r
      · subst hrr
        exact .inr (.inl ⟨c, rfl, hs, by simp⟩)
      · exact .inl (by simp [hrr])
    | _ => exact .inl rfl
  · obtain hs | ⟨d, p, rfl, hd, hs⟩ := hm.store_tick ref
    · exact .inl hs
    · rw [hstack] at he ⊢
      exact .inr (.inr ⟨d, p, he.resolve_right nofun, rfl, hd, hs⟩)

/-- A fiber is not engaged when it is registered. -/
theorem Move.known (hm : Move a old a' new) (hf : f < a'.fiberCount)
    (hst : Engaged (a'.fiber f).state) : f < a.fiberCount := by
  cases hm with
  | use =>
    by_cases hx : f = a.fiberCount
    · simp [fiber_setFiber, hx, newFiber, Engaged] at hst
    · simp at hf
      omega
  | _ => exact hf

/-- A fiber that is engaged after a step was engaged before it with the same activation, or has just
begun a new one with all its keys resolved. -/
theorem Wired.engaged_before (hw : Wired a (old ++ k)) (hm : Move a old a' new)
    (hf : f < a'.fiberCount) (hst : Engaged (a'.fiber f).state) :
    f < a.fiberCount ∧ (a'.fiber f).comp = (a.fiber f).comp ∧
    ((a'.fiber f).target = (a.fiber f).target ∧ (a'.fiber f).against = (a.fiber f).against ∧
        ((a'.fiber f).state = (a.fiber f).state ∨ (a.fiber f).state = .loading) ∨
      (a'.fiber f).state = .loading ∧ a'.store = a.store ∧
        (a'.fiber f).against = (fun ref => (a.store ref).map Binding.publication) ∧
        ∃ target, a.resolveTarget (a.fiber f).comp = some target) := by
  refine ⟨hm.known hf hst, ?_⟩
  obtain heq | hturn := hm.turn f
  · simp [heq]
  · generalize a'.fiber f = g at hturn hst ⊢
    cases hturn with
    | load hrem ht =>
      have hstore : a'.store = a.store := funext fun ref => (hm.store_tick ref).resolve_right nofun
      exact ⟨rfl, .inr ⟨rfl, hstore, rfl, _, ht⟩⟩
    | activate hrem | fail hrem =>
      have hload := (hw.fits _ List.mem_cons_self).2.2.2.2.resolve_left (by simp [hrem])
      exact ⟨rfl, .inl ⟨rfl, rfl, .inr hload⟩⟩
    | settle =>
      dsimp only at hst ⊢
      split_ifs at hst ⊢
      · simp [Engaged] at hst
      · exact ⟨rfl, .inl ⟨rfl, rfl, .inl rfl⟩⟩
    | remove =>
      dsimp only [retired] at hst ⊢
      split_ifs at hst ⊢
      · simp [Engaged] at hst
      · exact ⟨rfl, .inl ⟨rfl, rfl, .inl rfl⟩⟩
    | _ => simp [Engaged, newFiber] at hst

/-! ## What then holds -/

/-- A key that an engaged fiber had from the provider that binds it now is bound by the publication the
fiber was activated against. -/
def Current (a : App) : Prop :=
  ∀ f < a.fiberCount, Engaged (a.fiber f).state → ∀ ref ∈ (a.fiber f).comp.inject, ∀ p d,
    a.store ref = some ⟨p, d⟩ → (ref, p) ∈ (a.fiber f).target → (a.fiber f).against ref = some d

/-- The publications the last activation of a LOADING or FAILED fiber was against are still bound. -/
def Attempted (a : App) : Prop :=
  ∀ f < a.fiberCount, (a.fiber f).state = .loading ∨ (a.fiber f).state = .failed →
    ∀ ref ∈ (a.fiber f).comp.inject,
      ∃ b, a.store ref = some b ∧ (a.fiber f).against ref = some b.publication

theorem Current.next (h : Current s.app) (hs : Sound s) (hn : s.next e = some t)
    (hok : ¬Republishes s e) : Current t.app := by
  intro f hf hst ref href p d hb hp
  obtain ⟨old, new, k, hk, -, hm⟩ := next_move hn
  have hw := hs.wired
  rw [hk] at hw
  obtain ⟨hf, hcomp, hcase⟩ := hw.engaged_before hm hf hst
  rw [hcomp] at href
  rcases hcase with ⟨htarget, hagainst, hfrom⟩ | ⟨-, hstore, hagainst, -⟩
  · rw [htarget] at hp
    rw [hagainst]
    have hbefore : Engaged (s.app.fiber f).state := by
      rcases hfrom with heq | heq
      · rwa [← heq]
      · exact .inr (.inl heq)
    rcases next_store hn ref with hsame | ⟨c, rfl, -, hnew⟩ | ⟨d', p', -, -, -, hnone⟩
    · exact h f hf hbefore ref href p d (hsame.symm.trans hb) hp
    · -- A publication from the provider the fiber had the key from is what the run avoids.
      rw [hnew] at hb
      cases hb
      exact absurd ⟨f, hf, hbefore, href, hp⟩ hok
    · rw [hnone] at hb
      cases hb
  · rw [hstore] at hb
    simp [hagainst, hb]

theorem Attempted.next (h : Attempted s.app) (hs : Sound s) (hn : s.next e = some t)
    (hok : ¬Abandons s e) : Attempted t.app := by
  intro f hf hst ref href
  obtain ⟨old, new, k, hk, -, hm⟩ := next_move hn
  have hw := hs.wired
  rw [hk] at hw
  obtain ⟨hf, hcomp, hcase⟩ := hw.engaged_before hm hf (.inr hst)
  rw [hcomp] at href
  rcases hcase with ⟨-, hagainst, hfrom⟩ | ⟨-, hstore, hagainst, target, ht⟩
  · have hbefore : (s.app.fiber f).state = .loading ∨ (s.app.fiber f).state = .failed := by
      rcases hfrom with heq | heq
      · rwa [← heq]
      · exact .inl heq
    obtain ⟨b, hb, hag⟩ := h f hf hbefore ref href
    rw [hagainst]
    rcases next_store hn ref with hsame | ⟨c, -, hnone, -⟩ | ⟨d, p, rfl, hrun, hd, -⟩
    · exact ⟨b, hsame.trans hb, hag⟩
    · rw [hnone] at hb
      cases hb
    · -- The withdrawal that runs is that of the publication the fiber was activated against.
      have hown := (hs.accounted.bound ref p d).2 hd
      rw [hb] at hown
      cases hown
      exact absurd ⟨f, hf, hbefore, ref, href, d, hrun, by simp [hd], hag⟩ hok
  · obtain ⟨b, hb, -⟩ := bound_of_resolveTarget ht href
    exact ⟨b, by rw [hstore, hb], by simp [hagainst, hb]⟩

/-- An invariant of runs that meet a condition, with what holds in every run at hand. -/
theorem State.Reaches.keeps {ok : State → Event → Prop} {I : App → Prop}
    (h : State.Reaches ok .init s) (hinit : I App.init)
    (hstep : ∀ s t e, Sound s → I s.app → ok s e → s.next e = some t → I t.app) : I s.app := by
  induction h with
  | refl => exact hinit
  | tail hrun hnext ih =>
    obtain ⟨e, hok, hn⟩ := hnext
    exact hstep _ _ e (Sound.run hrun) ih hok hn

/-- **No stale capability.** In a run in which no key is published from the provider that an ACTIVE,
LOADING or FAILED component had it from, every ACTIVE component is, after each reconcile, on exactly the
publications that are bound, and so is the last attempt of every FAILED component that could be tried
again. In a run in which no publication is withdrawn that the last activation of a LOADING or FAILED
component was against, that holds of every FAILED component. -/
theorem no_stale_capability :
    (State.Reaches (fun s e => ¬Republishes s e) .init s → s.Settled →
      (∀ f, (s.app.fiber f).state = .active → ∀ ref ∈ (s.app.fiber f).comp.inject,
        ∃ b, s.app.store ref = some b ∧ (s.app.fiber f).against ref = some b.publication) ∧
      ∀ f ∈ s.app.fibers, (s.app.fiber f).state = .failed →
        (s.app.resolveTarget (s.app.fiber f).comp).isSome →
        ∀ ref ∈ (s.app.fiber f).comp.inject,
          ∃ b, s.app.store ref = some b ∧ (s.app.fiber f).against ref = some b.publication) ∧
    (State.Reaches (fun s e => ¬Abandons s e) .init s → s.Settled →
      ∀ f < s.app.fiberCount, (s.app.fiber f).state = .failed →
        ∀ ref ∈ (s.app.fiber f).comp.inject,
          ∃ b, s.app.store ref = some b ∧ (s.app.fiber f).against ref = some b.publication) := by
  constructor
  · intro h hsettled
    have hsound := Sound.run h
    have hcur : Current s.app := h.keeps (by rintro _ ⟨⟩) fun s t e hs hI hok hn => hI.next hs hn hok
    refine ⟨fun f hact ref href => ?_, fun f hf hfail hres ref href => ?_⟩
    · obtain ⟨b, hb, -, hin⟩ := hsound.injected hsettled hact href
      exact ⟨b, hb, hcur f (hsound.wired.active f hact).1 (.inl hact) ref href _ _ hb hin⟩
    · obtain ⟨target, ht⟩ := isSome_iff_exists.1 hres
      have hstable : s.app.Stable f := hsound.stable hsettled hf
      -- A FAILED fiber that is left alone resolves to the providers of its last attempt.
      have htarget : target = (s.app.fiber f).target := by
        simpa [App.Stable, ht, needsLoad, hfail] using hstable
      obtain ⟨b, hb, -, hin⟩ := bound_of_resolveTarget ht href
      rw [htarget] at hin
      exact ⟨b, hb, hcur f ((hsound.wired.registered f).1 hf).1 (.inr (.inr hfail)) ref href _ _ hb hin⟩
  · intro h _ f hf hfail
    have hatt : Attempted s.app := h.keeps (by rintro _ ⟨⟩) fun s t e hs hI hok hn => hI.next hs hn hok
    exact hatt f hf (.inr hfail)

/-! ## The runs that break it -/

def ticks (n : ℕ) : List Event := List.replicate n .tick

/-- The root publishes the key and a consumer of it is activated. -/
def consumed : List Event :=
  .call (.provide root sampleKey) :: ticks 4 ++ .call (.use sampleConsumer) :: ticks 3 ++
    .applied (.ok false) :: ticks 5

/-- A component that declares nothing withdraws the root's publication and publishes the key for the
root again, from its `Apply` and so within one pass. -/
def republished : List Event :=
  .call (.use ⟨"refresher", [], [], true⟩) :: ticks 4 ++ .call (.withdraw 0) :: ticks 2 ++
    .call (.provide root sampleKey) :: ticks 2 ++ .applied (.ok false) :: ticks 6

/-- The consumer fails on the root's publication, which is then withdrawn and made again. -/
def failedOnce : List Event :=
  .call (.provide root sampleKey) :: ticks 4 ++ .call (.use sampleConsumer) :: ticks 3 ++
    .applied (.err (.returned "unavailable")) :: ticks 7 ++ .call (.withdraw 0) :: ticks 5 ++
    .call (.provide root sampleKey) :: ticks 5

/-- The key is published again within one pass, and the consumer stays ACTIVE on the publication that is
gone; a consumer that failed on the first publication is left FAILED when there is a second. -/
theorem capability_stale :
    (∃ s, State.Reaches (fun _ _ => True) .init s ∧ s.stack = [] ∧ (s.app.fiber 0).state = .active ∧
      sampleKey ∈ (s.app.fiber 0).comp.inject ∧ (s.app.fiber 0).against sampleKey = some 0 ∧
      s.app.store sampleKey = some ⟨none, 1⟩) ∧
    ∃ s, State.Reaches (fun _ _ => True) .init s ∧ s.stack = [] ∧ (s.app.fiber 0).state = .failed ∧
      sampleKey ∈ (s.app.fiber 0).comp.inject ∧ (s.app.fiber 0).against sampleKey = some 0 ∧
      s.app.store sampleKey = some ⟨none, 1⟩ := by
  exact ⟨⟨_, reaches_of_runIf (fun _ _ _ => trivial)
      (show runIf (fun _ _ => true) .init (consumed ++ republished) = some _ from rfl),
      rfl, rfl, by decide, rfl, rfl⟩,
    _, reaches_of_runIf (fun _ _ _ => trivial)
      (show runIf (fun _ _ => true) .init failedOnce = some _ from rfl),
      rfl, rfl, by decide, rfl, rfl⟩

/-- A second consumer that fails, beside the first. -/
def secondFails : List Event :=
  .call (.use sampleConsumer) :: ticks 4 ++ .applied (.err (.returned "unavailable")) :: ticks 8

/-- One consumer is ACTIVE and one FAILED, both on the publication that is bound. -/
theorem no_stale_capability_settled : ∃ s, State.Reaches (fun s e => ¬Republishes s e) .init s ∧
    State.Reaches (fun s e => ¬Abandons s e) .init s ∧ s.Settled ∧
    (s.app.fiber 0).state = .active ∧ (s.app.fiber 1).state = .failed ∧
    (∃ b, s.app.store sampleKey = some b ∧ (s.app.fiber 0).against sampleKey = some b.publication) ∧
    ∃ b, s.app.store sampleKey = some b ∧ (s.app.fiber 1).against sampleKey = some b.publication := by
  have hs : runIf (fun s e => decide (¬Republishes s e ∧ ¬Abandons s e)) .init
    (consumed ++ secondFails) = some _ := rfl
  have hreach := reaches_of_runIf (fun _ _ h => (of_decide_eq_true h).1) hs
  have hreach' := reaches_of_runIf (fun _ _ h => (of_decide_eq_true h).2) hs
  exact ⟨_, hreach, hreach', ⟨rfl, by decide⟩, rfl, rfl,
    (no_stale_capability.1 hreach ⟨rfl, by decide⟩).1 0 rfl sampleKey (by decide),
    no_stale_capability.2 hreach' ⟨rfl, by decide⟩ 1 (by decide) rfl sampleKey (by decide)⟩

end Re0Auth.Core

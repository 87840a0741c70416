import Re0Auth.Lib.Interleave

/-!
# Programs that run undisturbed

Pre- and postconditions for programs while no other call moves the machine.

* **`Prog.perform`**: a program run from start to end, as one step;
* **`Prog.wp`**: the weakest precondition, over every choice of the environment, and
  **`Prog.wpE`** for programs that may fail, with a postcondition for each way to end.
-/

namespace Lib

variable {M : Machine} {α β ε : Type} {S : Service M} {T : Typestate S} {σ τ : Pool S T} {i : ℕ}
  {Q : S.Reply → M.Sh → Prop}

namespace Prog

/-- **A program run to its end** with nothing between its operations; `ω` holds the choices of the
environment, one for each of them, and the answer is `none` where an operation cannot be made. -/
def perform : Prog M α → (ω : ℕ → M.Choice) → M.Sh → Option (α × M.Sh)
  | .ret a, _, sh => some (a, sh)
  | .act op k, ω, sh =>
    match M.exec op (ω 0) sh with
    | none => none
    | some (r, sh') => (k r).perform (fun n => ω (n + 1)) sh'

/-- **Weakest precondition**: every undisturbed run that comes to an end, ends in `Q`. -/
def wp : Prog M α → (α → M.Sh → Prop) → M.Sh → Prop
  | .ret a, Q, sh => Q a sh
  | .act op k, Q, sh => ∀ ω r sh', M.exec op ω sh = some (r, sh') → (k r).wp Q sh'

variable {Q R : α → M.Sh → Prop} {sh : M.Sh} {a : α} {E E' : ε → M.Sh → Prop}
  {m : ExceptT ε (Prog M) α} {f : α → ExceptT ε (Prog M) β}

theorem wp_call {op : M.Op} {Q : M.Res op → M.Sh → Prop} :
    (call op).wp Q sh ↔ ∀ ω r sh', M.exec op ω sh = some (r, sh') → Q r sh' := .rfl

theorem wp_mono {m : Prog M α} (h : m.wp Q sh) (hQR : ∀ a sh, Q a sh → R a sh) : m.wp R sh := by
  induction m generalizing sh with
  | ret a => exact hQR a sh h
  | act op k ih => exact fun ω r sh' hex => ih r (h ω r sh' hex)

theorem wp_bind {m : Prog M α} {f : α → Prog M β} {Q : β → M.Sh → Prop} :
    (m >>= f).wp Q sh ↔ m.wp (fun a => (f a).wp Q) sh := by
  change (m.bind f).wp Q sh ↔ _
  induction m generalizing sh with
  | ret a => exact Iff.rfl
  | act op k ih =>
    exact forall_congr' fun ω => forall_congr' fun r => forall_congr' fun sh' =>
      imp_congr_right fun _ => ih r

/-- A run to the end ends in the postcondition. -/
theorem wp_perform {m : Prog M α} {ω : ℕ → M.Choice} {sh' : M.Sh} (h : m.wp Q sh)
    (hm : m.perform ω sh = some (a, sh')) : Q a sh' := by
  induction m generalizing ω sh with
  | ret b =>
    cases hm
    exact h
  | act op k ih =>
    rw [perform] at hm
    split at hm
    · cases hm
    · rename_i r sh₁ hex
      exact ih r (h (ω 0) r sh₁ hex) hm

/-- Where not every run ends in the negation, some run ends in the postcondition. -/
theorem perform_of_not_wp {m : Prog M α} (ω₀ : M.Choice) (h : ¬ m.wp (fun a sh => ¬ Q a sh) sh) :
    ∃ ω a sh', m.perform ω sh = some (a, sh') ∧ Q a sh' := by
  induction m generalizing sh with
  | ret a => exact ⟨fun _ => ω₀, a, sh, rfl, not_not.1 h⟩
  | act op k ih =>
    simp only [wp, not_forall] at h
    obtain ⟨ω, r, sh₁, hex, h⟩ := h
    obtain ⟨ω', a, sh', hm, hQ⟩ := ih r h
    refine ⟨fun n => n.casesOn ω ω', a, sh', ?_, hQ⟩
    rw [perform, show M.exec op (Nat.casesOn 0 ω ω') sh = _ from hex]
    exact hm

/-- Where every operation can be made, a program runs to its end. -/
theorem exists_perform (hexec : ∀ op ω sh, ∃ x, M.exec op ω sh = some x) (m : Prog M α) (ω : ℕ → M.Choice)
    (sh : M.Sh) : ∃ a sh', m.perform ω sh = some (a, sh') := by
  induction m generalizing ω sh with
  | ret a => exact ⟨a, sh, rfl⟩
  | act op k ih =>
    obtain ⟨⟨r, sh₁⟩, hex⟩ := hexec op (ω 0) sh
    rw [perform, hex]
    exact ih r _ sh₁

/-- What every operation keeps, a run to the end keeps. -/
theorem wp_of_exec {I : M.Sh → Prop}
    (hI : ∀ op ω sh r sh', M.exec op ω sh = some (r, sh') → I sh → I sh') {m : Prog M α}
    (h : I sh) : m.wp (fun _ => I) sh := by
  induction m generalizing sh with
  | ret a => exact h
  | act op k ih => exact fun ω r sh' hex => ih r (hI op ω sh r sh' hex h)

/-! ## Programs that may fail -/

/-- The postcondition of a program that may fail. -/
def Post (Q : α → M.Sh → Prop) (E : ε → M.Sh → Prop) : Except ε α → M.Sh → Prop
  | .ok a => Q a
  | .error e => E e

/-- **Weakest precondition** of a program that may fail: `Q` where it succeeds, `E` where it
fails. -/
def wpE (m : ExceptT ε (Prog M) α) (Q : α → M.Sh → Prop) (E : ε → M.Sh → Prop) : M.Sh → Prop :=
  wp m.run (Post Q E)

/-- One postcondition for both ways to end. -/
theorem wpE_iff {Q : Except ε α → M.Sh → Prop} :
    wpE m (fun a => Q (.ok a)) (fun e => Q (.error e)) sh ↔ wp m.run Q sh := by
  constructor <;> intro h <;> refine wp_mono h ?_ <;> rintro (e | a) sh h <;> exact h

theorem wpE_bind {Q : β → M.Sh → Prop} : wpE (m >>= f) Q E sh ↔ wpE m (fun a => wpE (f a) Q E) E sh := by
  rw [wpE, ExceptT.run_bind, wp_bind]
  constructor <;> intro h <;> refine wp_mono h ?_ <;> rintro (e | a) sh h <;> exact h

theorem wpE_mono (h : wpE m Q E sh) (hQ : ∀ a sh, Q a sh → R a sh)
    (hE : ∀ e sh, E e sh → E' e sh) : wpE m R E' sh := by
  refine wp_mono h ?_
  rintro (e | a) sh h
  · exact hE e sh h
  · exact hQ a sh h

/-- Sequencing through a condition between the two parts. -/
theorem wpE_seq {Q : β → M.Sh → Prop} (hm : wpE m R E' sh) (hf : ∀ a sh, R a sh → wpE (f a) Q E sh)
    (hE : ∀ e sh, E' e sh → E e sh) : wpE (m >>= f) Q E sh :=
  wpE_bind.2 (wpE_mono hm hf hE)

theorem wpE_lift {m : Prog M α} : wpE (liftM m : ExceptT ε (Prog M) α) Q E sh ↔ m.wp Q sh := by
  change wp (m >>= fun a => pure (Except.ok a)) (Post Q E) sh ↔ _
  rw [wp_bind]
  exact Iff.rfl

/-- A failing part ends the sequence; a part that succeeds hands its value on. -/
theorem wp_bindE {Q : Except ε β → M.Sh → Prop} : wp (m >>= f).run Q sh ↔ wp m.run (fun r sh =>
      match r with
      | .ok a => wp (f a).run Q sh
      | .error e => Q (.error e) sh) sh := by
  rw [ExceptT.run_bind, wp_bind]
  constructor <;> intro h <;> refine wp_mono h ?_ <;> rintro (e | a) sh h <;> exact h

/-- The answer of a program that may fail, changed on success. -/
theorem wp_mapE {f : α → β} {Q : Except ε β → M.Sh → Prop}
    (h : wp m.run (fun r => Q (r.map f)) sh) : wp (f <$> m).run Q sh := by
  change wp (ExceptT.map f m).run Q sh
  refine wp_bind.2 (wp_mono h ?_)
  rintro (e | a) sh h <;> exact h

end Prog

/-! ## Calls that run undisturbed -/

/-- The event is an operation of this call. -/
def Event.Of (i : ℕ) : Event S → Prop
  | .start _ _ => False
  | .step j _ => j = i

namespace Pool

/-- **Ends**: where nothing disturbs the call, it ends in the postcondition. -/
def Ends (σ : Pool S T) (i : ℕ) (Q : S.Reply → M.Sh → Prop) : Prop :=
  ∃ th, σ.threads i = some th ∧ th.prog.wp Q σ.sh

theorem ends_of_start {c : S.Call} (h : σ.next (.start i c) = some τ)
    (hwp : (S.body c).wp Q σ.sh) : τ.Ends i Q := by
  obtain ⟨_, _, he, -, rfl⟩ | ⟨_, _, _, _, _, _, _, _, he, -⟩ := next_cases h
  · cases he
    exact ⟨_, Function.update_self .., hwp⟩
  · cases he

theorem Ends.reply (h : σ.Ends i Q) {a : S.Reply} (hr : σ.reply i = some a) : Q a σ.sh := by
  obtain ⟨⟨c, p, b | ⟨op, k⟩⟩, hi, hwp⟩ := h
  · rw [Pool.reply, hi] at hr
    cases hr
    exact hwp
  · rw [Pool.reply, hi] at hr
    cases hr

theorem Reaches.ends (h : Reaches (fun _ e => e.Of i) σ τ) (hσ : σ.Ends i Q) : τ.Ends i Q := by
  refine Reaches.induct (I := fun σ => σ.Ends i Q) ?_ h hσ
  rintro σ e τ he ⟨th, hi, hwp⟩ hn
  obtain ⟨j, c, rfl, -⟩ | ⟨j, ω, c, p, op, k, r, sh, rfl, hj, hex, rfl⟩ := next_cases hn
  · exact he.elim
  · obtain rfl : j = i := he
    cases hj.symm.trans hi
    refine ⟨_, Function.update_self .., ?_⟩
    exact hwp ω r sh hex

end Pool

end Lib

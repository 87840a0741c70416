import Mathlib.Data.Nat.Notation
import Mathlib.Logic.Function.Basic
import Mathlib.Logic.Relation
import Mathlib.Tactic.SplitIfs

/-!
# Interleaved programs over a shared object

Several calls run at once against one shared object. Each call is a program, a tree of atomic
operations, and the scheduler decides whose next operation is executed.

* **`Machine`**: the shared object, its atomic operations and what each of them does;
* **`Prog`**: programs over the operations of a machine, a monad;
* **`Typestate`**: what is observed of one call from the operations it has made so far (its
  *phase*), and which operation is in order in which phase;
* **`Prog.Follows`**: a program that, from a phase on, only makes operations that are in order;
* **`Pool`**: the calls in progress and the shared object, **`Pool.next`** one event and
  **`Pool.Reaches`** the runs whose events all meet a condition.

`Follows` is local: it looks at one program and at every answer the machine could give.
`Reaches.invariant` is the way back from it to the whole system: an invariant of the shared object
and the phases of all calls need only be checked for the operations a typestate allows, never for
the programs.
-/

namespace Lib

open Function List Option

/-- **Machine**: a shared object with atomic operations. `exec` answers `none` where the operation
has to wait (a lock that is held) or the environment's choice is not a possible one. -/
structure Machine where
  /-- The atomic operations. -/
  Op : Type
  /-- What an operation answers. -/
  Res : Op → Type
  /-- The states of the shared object. -/
  Sh : Type
  /-- The environment's choices, for operations that are not functions of the state. -/
  Choice : Type
  /-- One atomic operation. -/
  exec : (op : Op) → Choice → Sh → Option (Res op × Sh)

/-- **Program** over a machine: an answer, or an operation and what follows each result of it. -/
inductive Prog (M : Machine) (α : Type) : Type
  | ret (a : α)
  | act (op : M.Op) (k : M.Res op → Prog M α)

variable {M : Machine} {α β ε : Type}

namespace Prog

/-- Sequencing of programs. -/
def bind : Prog M α → (α → Prog M β) → Prog M β
  | ret a, f => f a
  | act op k, f => act op fun r => (k r).bind f

instance : Monad (Prog M) where
  pure := ret
  bind := bind

/-- The program that makes one operation. -/
def call (op : M.Op) : Prog M (M.Res op) := act op ret

/-- A program run on another machine, on which `f` makes each of its operations. -/
def embed {N : Machine} (f : (op : M.Op) → Prog N (M.Res op)) : Prog M α → Prog N α
  | ret a => ret a
  | act op k => (f op).bind fun r => (k r).embed f

end Prog

/-! ## Services and typestates -/

/-- **Service**: the calls that may be made and the program each of them runs. -/
structure Service (M : Machine) where
  /-- The calls, with their arguments. -/
  Call : Type
  /-- What a call returns. -/
  Reply : Type
  /-- The program of a call. -/
  body : Call → Prog M Reply

/-- **Typestate**: the phases a call goes through, which operations are in order in a phase, and
the phase after an operation and its result. -/
structure Typestate (S : Service M) where
  /-- What is known of a call from its arguments and the operations it has made. -/
  Phase : Type
  /-- The phase of a call that has made none. -/
  start : S.Call → Phase
  /-- The operations that are in order in a phase. -/
  allowed : Phase → M.Op → Prop
  /-- The phase after an operation with a result. -/
  advance : Phase → (op : M.Op) → M.Res op → Phase

variable {S : Service M}

/-- **Conformance**: from phase `p` the program makes only operations that are in order, whatever
the machine answers, and returns with a value and in a phase that satisfy `Q`. -/
def Prog.Follows (T : Typestate S) : T.Phase → Prog M α → (α → T.Phase → Prop) → Prop
  | p, .ret a, Q => Q a p
  | p, .act op k, Q => T.allowed p op ∧ ∀ r, Follows T (T.advance p op r) (k r) Q

namespace Prog

variable {T : Typestate S} {p : T.Phase} {a : α} {Q R : α → T.Phase → Prop} {op : M.Op}
  {m : Prog M α} {f : α → Prog M β}

theorem Follows.mono (h : Follows T p m Q) (hQR : ∀ a q, Q a q → R a q) : Follows T p m R := by
  induction m generalizing p with
  | ret a => exact hQR a p h
  | act op k ih => exact ⟨h.1, fun r => ih r (h.2 r)⟩

theorem Follows.and (hQ : Follows T p m Q)
    (hR : Follows T p m R) : Follows T p m fun a q => Q a q ∧ R a q := by
  induction m generalizing p with
  | ret a => exact ⟨hQ, hR⟩
  | act op k ih => exact ⟨hQ.1, fun r => ih r (hQ.2 r) (hR.2 r)⟩

/-- A part of the phase that no operation changes is at the end what it was at the start. -/
theorem Follows.unchanged {X : Type} {f : T.Phase → X} (hf : ∀ q op r, f (T.advance q op r) = f q)
    (h : Follows T p m Q) :
    Follows T p m fun _ q => f q = f p := by
  induction m generalizing p with
  | ret a => exact rfl
  | act op k ih =>
    refine ⟨h.1, fun r => (ih r (h.2 r)).mono fun a q hq => ?_⟩
    rw [hq, hf]

/-- A sequence conforms when its first part does and ends where its second part can go on. -/
theorem follows_bind {Q : β → T.Phase → Prop} :
    Follows T p (m >>= f) Q ↔ Follows T p m fun a q => Follows T q (f a) Q := by
  change Follows T p (m.bind f) Q ↔ _
  induction m generalizing p with
  | ret a => exact .rfl
  | act op k ih => exact and_congr_right fun _ => forall_congr' fun r => ih r

theorem Follows.bind
    {Q : β → T.Phase → Prop} (h : Follows T p m R) (hf : ∀ a q, R a q → Follows T q (f a) Q) :
    Follows T p (m >>= f) Q :=
  follows_bind.2 (h.mono hf)

/-- Lifting a program into the programs that may fail. -/
theorem follows_lift {Q : Except ε α → T.Phase → Prop} :
    Follows T p (ExceptT.run (liftM m : ExceptT ε (Prog M) α)) Q ↔
      Follows T p m fun a q => Q (.ok a) q := by
  change Follows T p (m >>= fun a => pure (.ok a)) Q ↔ _
  exact follows_bind

variable {Q : Except ε β → T.Phase → Prop} {m : ExceptT ε (Prog M) α}
  {f : α → ExceptT ε (Prog M) β}

/-- A failing part ends the sequence; a part that succeeds hands its value on. -/
theorem follows_bindE :
    Follows T p (m >>= f).run Q ↔ Follows T p m.run fun r q =>
      match r with
      | .ok a => Follows T q (f a).run Q
      | .error e => Q (.error e) q := by
  rw [ExceptT.run_bind, follows_bind]
  constructor <;> intro h <;> refine h.mono ?_ <;> rintro (e | a) q hq <;> exact hq

variable {R : Except ε α → T.Phase → Prop}

theorem Follows.bindE
    (h : Follows T p m.run R) (hok : ∀ a q, R (.ok a) q → Follows T q (f a).run Q)
    (herr : ∀ e q, R (.error e) q → Q (.error e) q) : Follows T p (m >>= f).run Q := by
  refine follows_bindE.2 (h.mono ?_)
  rintro (e | a) q hq
  · exact herr e q hq
  · exact hok a q hq

/-- A part whose failure is handed on as a value. -/
theorem Follows.attemptE {f : Except ε α → ExceptT ε (Prog M) β} (h : Follows T p m.run R)
    (hf : ∀ r q, R r q → Follows T q (f r).run Q) : Follows T p (ExceptT.lift m.run >>= f).run Q := by
  refine .bindE (R := fun r q => ∃ a, r = .ok a ∧ R a q) ?_ ?_ ?_
  · exact follows_lift.2 (h.mono fun a q h => ⟨a, rfl, h⟩)
  · rintro a q ⟨a, h, hR⟩
    cases h
    exact hf _ q hR
  · rintro e q ⟨a, h, -⟩
    cases h

theorem Follows.mapE {f : α → β} (h : Follows T p m.run R)
    (hQ : ∀ r q, R r q → Q (r.map f) q) : Follows T p (f <$> m).run Q := by
  change Follows T p (ExceptT.map f m).run Q
  refine h.bind ?_
  rintro (e | a) q hR
  all_goals exact hQ _ q hR

/-- A program run on another machine keeps the phase when each of its operations does. -/
theorem Follows.embed {N : Machine} {f : (op : N.Op) → Prog M (N.Res op)}
    (hf : ∀ op, Follows T p (f op) fun _ q => q = p) (m : Prog N α) :
    Follows T p (m.embed f) fun _ q => q = p := by
  induction m with
  | ret a => rfl
  | act op k ih =>
    refine (hf op).bind fun r q hq => ?_
    subst hq
    exact ih r

end Prog

/-- Two typestates side by side. -/
abbrev Typestate.prod (T₁ T₂ : Typestate S) : Typestate S where
  Phase := T₁.Phase × T₂.Phase
  start c := (T₁.start c, T₂.start c)
  allowed p op := T₁.allowed p.1 op ∧ T₂.allowed p.2 op
  advance p op r := (T₁.advance p.1 op r, T₂.advance p.2 op r)

/-- A program that conforms to both conforms to the first. -/
theorem Prog.Follows.fst {T₁ T₂ : Typestate S} {p : T₁.Phase × T₂.Phase} {m : Prog M α}
    {Q : α → T₁.Phase × T₂.Phase → Prop} {Q₁ : α → T₁.Phase → Prop} (h : Follows (T₁.prod T₂) p m Q)
    (hQ : ∀ a q, Q a q → Q₁ a q.1) : Follows T₁ p.1 m Q₁ := by
  induction m generalizing p with
  | ret a => exact hQ a p h
  | act op k ih => exact ⟨h.1.1, fun r => ih r (h.2 r)⟩

/-- It conforms to the second as well. -/
theorem Prog.Follows.snd {T₁ T₂ : Typestate S} {p : T₁.Phase × T₂.Phase} {m : Prog M α}
    {Q : α → T₁.Phase × T₂.Phase → Prop} {Q₂ : α → T₂.Phase → Prop} (h : Follows (T₁.prod T₂) p m Q)
    (hQ : ∀ a q, Q a q → Q₂ a q.2) : Follows T₂ p.2 m Q₂ := by
  induction m generalizing p with
  | ret a => exact hQ a p h
  | act op k ih => exact ⟨h.1.2, fun r => ih r (h.2 r)⟩

/-! ## Pools of calls -/

/-- A call in progress: its phase and what is left of its program. -/
structure Thread (S : Service M) (T : Typestate S) where
  call : S.Call
  phase : T.Phase
  prog : Prog M S.Reply

/-- **Pool**: the shared object and the calls, each under a number of its own. -/
structure Pool (S : Service M) (T : Typestate S) where
  sh : M.Sh
  threads : ℕ → Option (Thread S T)

/-- **Event**: a call starts, or the next operation of a call is executed. -/
inductive Event (S : Service M)
  | start (i : ℕ) (c : S.Call)
  | step (i : ℕ) (ω : M.Choice)

/-- The event starts no call with a number of `m` or above. -/
def Event.below (m : ℕ) : Event S → Bool
  | .start i _ => i < m
  | .step _ _ => true

/-- What every step of a fold that may fail keeps holds of its result. -/
theorem foldlM_induct {α β : Type} {f : β → α → Option β} {P : β → Prop} {l : List α} {b c : β} (hb : P b)
    (hstep : ∀ b b', ∀ x ∈ l, P b → f b x = some b' → P b') (h : l.foldlM f b = some c) : P c := by
  induction l generalizing b with
  | nil =>
    cases h
    exact hb
  | cons x l ih =>
    obtain ⟨b', hx, hrest⟩ := bind_eq_some_iff.1 h
    exact ih (hstep b b' x mem_cons_self hb hx) (fun b b' y hy => hstep b b' y (mem_cons_of_mem _ hy)) hrest

namespace Pool

variable {T : Typestate S} {σ τ : Pool S T} {i j : ℕ} {e : Event S} {sh : M.Sh} {th : Thread S T}
  {P : Type} {ph : ℕ → Option P} {p' : P} {Done : S.Reply → T.Phase → Prop} {op : M.Op}
  {p : T.Phase} {a : S.Reply} {ok : Pool S T → Event S → Prop} {m : ℕ}
  {check : Pool S T → Event S → Bool} {es : List (Event S)}

/-- The pool with one thread replaced. -/
def put (σ : Pool S T) (sh : M.Sh) (i : ℕ) (th : Thread S T) : Pool S T :=
  ⟨sh, Function.update σ.threads i (some th)⟩

/-- **One event**, where it is possible. -/
def next (σ : Pool S T) : Event S → Option (Pool S T)
  | .start i c =>
    match σ.threads i with
    | none => some (σ.put σ.sh i ⟨c, T.start c, S.body c⟩)
    | some _ => none
  | .step i ω =>
    match σ.threads i with
    | some ⟨c, p, .act op k⟩ =>
      (M.exec op ω σ.sh).map fun (r, sh) => σ.put sh i ⟨c, T.advance p op r, k r⟩
    | _ => none

/-- The phase of a call. -/
def phase (σ : Pool S T) (i : ℕ) : Option T.Phase := (σ.threads i).map (·.phase)

/-- The operation a call makes next. -/
def nextOp (σ : Pool S T) (i : ℕ) : Option M.Op :=
  match σ.threads i with
  | some ⟨_, _, .act op _⟩ => some op
  | _ => none

/-- What a call has returned. -/
def reply (σ : Pool S T) (i : ℕ) : Option S.Reply :=
  match σ.threads i with
  | some ⟨_, _, .ret a⟩ => some a
  | _ => none

/-- The call has started and has not returned. -/
def InFlight (σ : Pool S T) (i : ℕ) : Prop := (σ.nextOp i).isSome

/-- **Run**: a sequence of events, each of which meets the condition `ok` in the state in which it
takes place. -/
def Reaches (ok : Pool S T → Event S → Prop) : Pool S T → Pool S T → Prop :=
  Relation.ReflTransGen fun σ τ => ∃ e, ok σ e ∧ σ.next e = some τ

/-- **Conforming**: what is left of each call follows the typestate from the call's phase, and
ends in a phase `Done` describes. -/
def Conforming (Done : S.Reply → T.Phase → Prop) (σ : Pool S T) : Prop :=
  ∀ i th, σ.threads i = some th → th.prog.Follows T th.phase Done

theorem put_threads : (σ.put sh i th).threads j = if j = i then some th else σ.threads j := by
  simp [put, update_apply]

theorem put_phase : (σ.put sh i th).phase = update σ.phase i (some th.phase) := by
  funext j
  rw [phase, put_threads, update_apply]
  split_ifs <;> rfl

/-- A call that starts leaves the others where they are. -/
theorem update_of_none {q : P} (hi : ph i = none) (hj : ph j = some q) :
    update ph i (some p') j = some q := by
  have hji : j ≠ i := by
    rintro rfl
    rw [hi] at hj
    cases hj
  rw [update_of_ne hji, hj]

/-- The call that has moved, or another one. -/
theorem update_cases {q : P} (h : update ph i (some p') j = some q) :
    j = i ∧ q = p' ∨ j ≠ i ∧ ph j = some q := by
  by_cases hj : j = i
  · subst hj
    rw [update_self] at h
    exact .inl ⟨rfl, (some.inj h).symm⟩
  · rw [update_of_ne hj] at h
    exact .inr ⟨hj, h⟩

/-- Quantifying over the calls after one of them has moved. -/
theorem forall_update {A : ℕ → P → Prop} (hself : A i p') (hrest : ∀ j q, j ≠ i → ph j = some q → A j q) :
    ∀ j q, update ph i (some p') j = some q → A j q := by
  intro j q hq
  obtain ⟨rfl, rfl⟩ | ⟨hj, hq⟩ := update_cases hq
  · exact hself
  · exact hrest j q hj hq

/-- What holds of every call holds after one of them has moved, if it holds of the moved one. -/
theorem forall_kept {A : ℕ → P → Prop} (hself : A i p') (hrest : ∀ j q, ph j = some q → A j q) :
    ∀ j q, update ph i (some p') j = some q → A j q :=
  forall_update hself fun j q _ => hrest j q

/-- Quantifying over pairs of calls after one of them has moved. -/
theorem forall_update₂ {A : ℕ → P → ℕ → P → Prop}
    (hself : A i p' i p') (hleft : ∀ l q, l ≠ i → ph l = some q → A i p' l q)
    (hright : ∀ j q, j ≠ i → ph j = some q → A j q i p')
    (hrest : ∀ j q l q', ph j = some q → ph l = some q' → A j q l q') :
    ∀ j q l q', update ph i (some p') j = some q →
      update ph i (some p') l = some q' → A j q l q' := by
  intro j q l q' hj hl
  revert l q'
  revert j q
  refine forall_update ?_ fun j q hji hj => ?_
  · exact forall_update hself hleft
  · exact forall_update (hright j q hji hj) fun l q' _ hl => hrest j q l q' hj hl

/-- **What an event does**: a fresh call is added, or one call makes one operation. -/
theorem next_cases (h : σ.next e = some τ) :
    (∃ i c, e = .start i c ∧ σ.threads i = none ∧ τ = σ.put σ.sh i ⟨c, T.start c, S.body c⟩) ∨
    ∃ i ω c p op k r sh, e = .step i ω ∧ σ.threads i = some ⟨c, p, .act op k⟩ ∧
      M.exec op ω σ.sh = some (r, sh) ∧ τ = σ.put sh i ⟨c, T.advance p op r, k r⟩ := by
  cases e with
  | start i c =>
    cases hi : σ.threads i with
    | none => exact .inl ⟨i, c, rfl, hi, by simpa [next, hi] using h.symm⟩
    | some th => simp [next, hi] at h
  | step i ω =>
    rcases hi : σ.threads i with _ | ⟨c, p, a | ⟨op, k⟩⟩
    · simp [next, hi] at h
    · simp [next, hi] at h
    · simp only [next, hi, map_eq_some_iff, Prod.exists] at h
      obtain ⟨r, sh, hex, rfl⟩ := h
      exact .inr ⟨i, ω, c, p, op, k, r, sh, rfl, hi, hex, rfl⟩

variable (hbody : ∀ c, (S.body c).Follows T (T.start c) Done) (h : Reaches ok σ τ)
  (hσ : σ.Conforming Done)

include hσ in
/-- **The operation of a call**, executed: it was in order, and the call's phase moves on. -/
theorem Conforming.next_op {ω : M.Choice} (hop : σ.nextOp i = some op) (h : σ.next (.step i ω) = some τ) :
    ∃ p r, σ.phase i = some p ∧ T.allowed p op ∧ M.exec op ω σ.sh = some (r, τ.sh) ∧
      τ.phase = update σ.phase i (some (T.advance p op r)) := by
  obtain ⟨j, c, he, -⟩ | ⟨j, ω', c, p, op', k, r, sh, he, hj, hex, rfl⟩ := next_cases h
  · cases he
  · cases he
    obtain rfl : op' = op := by simpa [nextOp, hj] using hop
    exact ⟨p, r, by simp [phase, hj], (hσ i _ hj).1, hex, put_phase⟩

include hσ in
/-- The operation a call makes next is in order. -/
theorem Conforming.allowed (hop : σ.nextOp i = some op) (hp : σ.phase i = some p) : T.allowed p op := by
  rcases hi : σ.threads i with _ | ⟨c, q, a | ⟨op', k⟩⟩
  · simp [nextOp, hi] at hop
  · simp [nextOp, hi] at hop
  · obtain rfl : op' = op := by simpa [nextOp, hi] using hop
    obtain rfl : q = p := by simpa [phase, hi] using hp
    exact (hσ i _ hi).1

/-- A call that has returned does not go on. -/
theorem next_reply (h : σ.next e = some τ) (hi : σ.reply i = some a) : τ.reply i = some a := by
  have hth : ∀ j, (τ.threads j = σ.threads j) ∨ σ.reply j = none := by
    intro j
    obtain ⟨l, c, -, hl, rfl⟩ | ⟨l, ω, c, p, op, k, r, sh, -, hl, -, rfl⟩ := next_cases h
    all_goals
      by_cases hjl : j = l
      · subst hjl
        exact .inr (by simp [reply, hl])
      · exact .inl (by rw [put_threads, if_neg hjl])
  rcases hth i with hi' | hi'
  · simpa only [reply, hi'] using hi
  · rw [hi'] at hi
    cases hi

/-- A call that has started is in progress or has returned. -/
theorem inFlight_or_reply (h : σ.phase i = some p) : σ.InFlight i ∨ ∃ a, σ.reply i = some a := by
  rcases hi : σ.threads i with _ | ⟨c, p', a | ⟨op, k⟩⟩
  · simp [phase, hi] at h
  · exact .inr ⟨a, by simp [reply, hi]⟩
  · exact .inl (by simp [InFlight, nextOp, hi])

include hbody hσ in
theorem Conforming.next (hn : σ.next e = some τ) : τ.Conforming Done := by
  intro i th hi
  obtain ⟨j, c, -, hj, rfl⟩ | ⟨j, ω, c, p, op, k, r, sh, -, hj, -, rfl⟩ := next_cases hn
  all_goals
    rw [put_threads] at hi
    split_ifs at hi with hij
    · cases hi
      first
      | exact hbody c
      | exact (hσ j _ hj).2 r
    · exact hσ i th hi

/-- A call that has returned has a phase. -/
theorem phase_of_reply (ha : σ.reply i = some a) : ∃ p, σ.phase i = some p := by
  rcases hi : σ.threads i with _ | th
  · simp [reply, hi] at ha
  · exact ⟨th.phase, by simp [phase, hi]⟩

include hσ in
/-- A call that has returned is in a phase its end is for. -/
theorem Conforming.done (hp : σ.phase i = some p) (ha : σ.reply i = some a) : Done a p := by
  rcases hi : σ.threads i with _ | ⟨c, q, b | ⟨op, k⟩⟩
  · simp [phase, hi] at hp
  · obtain rfl : q = p := by simpa [phase, hi] using hp
    obtain rfl : b = a := by simpa [reply, hi] using ha
    exact hσ i _ hi
  · simp [reply, hi] at ha

namespace Reaches

variable {ok ok' : Pool S T → Event S → Prop}

theorem refl : Reaches ok σ σ := Relation.ReflTransGen.refl

theorem mono (h : Reaches ok σ τ) (hok : ∀ σ e, ok σ e → ok' σ e) : Reaches ok' σ τ := by
  induction h with
  | refl => exact .refl
  | tail _ hstep ih =>
    obtain ⟨e, he, hn⟩ := hstep
    exact ih.tail ⟨e, hok _ _ he, hn⟩

include h in
theorem reply {a : S.Reply} (hi : σ.reply i = some a) : τ.reply i = some a := by
  induction h with
  | refl => exact hi
  | tail _ hstep ih =>
    obtain ⟨e, -, hn⟩ := hstep
    exact next_reply hn ih

/-- A part of the phase that no operation changes is the one the call started with. -/
theorem unchanged {X : Type} {f : T.Phase → X} (hf : ∀ q op r, f (T.advance q op r) = f q)
    (h : Reaches ok σ τ) (hσ : ∀ i th, σ.threads i = some th → f th.phase = f (T.start th.call)) :
    ∀ i th, τ.threads i = some th → f th.phase = f (T.start th.call) := by
  induction h with
  | refl => exact hσ
  | tail _ hstep ih =>
    obtain ⟨e, -, hn⟩ := hstep
    intro i th hi
    obtain ⟨j, c, -, hj, rfl⟩ | ⟨j, ω, c, p, op, k, r, sh, -, hj, -, rfl⟩ := next_cases hn
    · rw [put_threads] at hi
      split_ifs at hi with hij
      · cases hi
        rfl
      · exact ih i th hi
    · rw [put_threads] at hi
      split_ifs at hi with hij
      · cases hi
        exact (hf p op r).trans (ih j _ hj)
      · exact ih i th hi

/-- **Run rule**: what every event keeps, every run keeps. -/
theorem induct {I : Pool S T → Prop}
    (hnext : ∀ σ e τ, ok σ e → I σ → σ.next e = some τ → I τ) (h : Reaches ok σ τ) (hI : I σ) : I τ := by
  induction h with
  | refl => exact hI
  | tail _ hstep ih =>
    obtain ⟨e, he, hn⟩ := hstep
    exact hnext _ e _ he ih hn

/-- Conformance is kept: a call's remaining program is always a tail of its body. -/
theorem conforming {Done : S.Reply → T.Phase → Prop}
    (hbody : ∀ c, (S.body c).Follows T (T.start c) Done) (h : Reaches ok σ τ)
    (hσ : σ.Conforming Done) : τ.Conforming Done :=
  h.induct (I := Conforming Done) (fun _ _ _ _ hσ hn => hσ.next hbody hn) hσ

end Reaches

include hbody in
/-- **Invariant rule**: an invariant of the shared object and of the phases of all calls holds
along every run of conforming calls, when a starting call keeps it and every operation that is in
order keeps it. -/
theorem Reaches.invariant {I : M.Sh → (ℕ → Option T.Phase) → Prop}
    (hstart : ∀ σ i c, ok σ (.start i c) → I σ.sh σ.phase → σ.phase i = none →
      I σ.sh (update σ.phase i (some (T.start c))))
    (hstep : ∀ σ i ω p op r sh, ok σ (.step i ω) → I σ.sh σ.phase → σ.phase i = some p →
      σ.nextOp i = some op → T.allowed p op → M.exec op ω σ.sh = some (r, sh) → I sh (update σ.phase i (some (T.advance p op r))))
    (h : Reaches ok σ τ) (hσ : σ.Conforming Done) (hI : I σ.sh σ.phase) : I τ.sh τ.phase := by
  have key : τ.Conforming Done ∧ I τ.sh τ.phase := by
    refine h.induct (I := fun σ => σ.Conforming Done ∧ I σ.sh σ.phase) ?_ ⟨hσ, hI⟩
    rintro σ e τ hok ⟨hσ, hI⟩ hn
    refine ⟨hσ.next hbody hn, ?_⟩
    obtain ⟨i, c, rfl, hi, rfl⟩ | ⟨i, ω, c, p, op, k, r, sh, rfl, hi, hex, rfl⟩ := next_cases hn
    · rw [put_phase]
      exact hstart σ i c hok hI (by simp [phase, hi])
    · rw [put_phase]
      exact hstep σ i ω p op r sh hok hI (by simp [phase, hi]) (by simp [nextOp, hi])
        (hσ i _ hi).1 hex
  exact key.2

/-! ## Watched runs -/

/-- **A watched run**: every event meets `ok`, and the proposition says whether an event with the property
`P` took place. -/
inductive Watched (P ok : Pool S T → Event S → Prop) (σ : Pool S T) : Prop → Pool S T → Prop
  | refl : Watched P ok σ False σ
  | tail {seen : Prop} {τ τ' : Pool S T} {e : Event S} (h : Watched P ok σ seen τ) (hok : ok τ e)
    (hn : τ.next e = some τ') : Watched P ok σ (seen ∨ P τ e) τ'

/-- A run without such an event. -/
theorem Reaches.watched {P : Pool S T → Event S → Prop}
    (h : Reaches (fun σ e => ok σ e ∧ ¬ P σ e) σ τ) : Watched P ok σ False τ := by
  induction h with
  | refl => exact .refl
  | tail _ hstep ih =>
    obtain ⟨e, ⟨hok, hP⟩, hn⟩ := hstep
    have hwatched := Watched.tail ih hok hn
    rwa [false_or, eq_false hP] at hwatched

/-! ## Schedules -/

/-- A schedule, executed as long as each event passes `check`. -/
def runIf (check : Pool S T → Event S → Bool) (σ : Pool S T) (es : List (Event S)) :
    Option (Pool S T) :=
  es.foldlM (fun σ e => if check σ e then σ.next e else none) σ

/-- All calls have a number below `m`. -/
def Below (m : ℕ) (σ : Pool S T) : Prop := ∀ i, m ≤ i → σ.threads i = none

theorem Below.next (hσ : σ.Below m) (he : e.below m = true) (hn : σ.next e = some τ) : τ.Below m := by
  intro l hl
  obtain ⟨j, c, rfl, hj, rfl⟩ | ⟨j, ω, c, p, op, k, r, sh, rfl, hj, -, rfl⟩ := next_cases hn
  · have hjm : j < m := by simpa [Event.below] using he
    rw [put_threads, if_neg (by omega), hσ l hl]
  · have hlj : l ≠ j := by
      rintro rfl
      rw [hσ l hl] at hj
      cases hj
    rw [put_threads, if_neg hlj, hσ l hl]

/-- What a check of the first `m` calls finds holds of all calls. -/
theorem Below.forall_phase (hσ : σ.Below m) {P : T.Phase → Bool}
    (h : ((range m).all fun j => (σ.phase j).all P) = true) (hp : σ.phase j = some p) : P p = true := by
  have hj : j < m := by
    by_contra hj
    rw [phase, hσ j (by omega)] at hp
    cases hp
  have hall := all_eq_true.1 h j (mem_range.2 hj)
  rwa [hp] at hall

/-- A pool in which none of the first `m` calls is in progress is at rest. -/
theorem Below.not_inFlight (hσ : σ.Below m)
    (h : ((range m).all fun i => (σ.nextOp i).isNone) = true) (i : ℕ) : ¬ σ.InFlight i := by
  intro hi
  by_cases him : i < m
  · have hnone := all_eq_true.1 h i (mem_range.2 him)
    rw [InFlight, isSome_iff_ne_none] at hi
    exact hi (isNone_iff_eq_none.1 hnone)
  · simp [InFlight, nextOp, hσ i (by omega)] at hi

/-- A schedule that can be executed is a run. -/
theorem reaches_of_runIf (es : List (Event S))
    (hcheck : ∀ σ e, σ.Below m → check σ e = true → e.below m = true ∧ ok σ e)
    (hσ : σ.Below m) (h : σ.runIf check es = some τ) : Reaches ok σ τ ∧ τ.Below m := by
  refine foldlM_induct (P := fun τ => Reaches ok σ τ ∧ τ.Below m) ⟨.refl, hσ⟩ ?_ h
  rintro σ₁ σ₂ e - ⟨hrun, hσ₁⟩ hn
  split_ifs at hn with he
  obtain ⟨hbelow, hok⟩ := hcheck σ₁ e hσ₁ he
  exact ⟨.tail hrun ⟨e, hok, hn⟩, hσ₁.next hbelow hn⟩

/-- A schedule whose events meet the condition in every state is a run wherever it can be executed. -/
theorem reaches_of_forall (es : List (Event S)) (hok : ∀ e ∈ es, ∀ σ, ok σ e)
    (h : σ.runIf (fun _ _ => true) es = some τ) : Reaches ok σ τ :=
  foldlM_induct .refl (fun σ₁ _ e he hrun hn => .tail hrun ⟨e, hok e he σ₁, hn⟩) h

theorem reaches_of_run (es : List (Event S)) (h : σ.runIf (fun _ _ => true) es = some τ) :
    Reaches (fun _ _ => True) σ τ :=
  reaches_of_forall es (fun _ _ _ => trivial) h

/-- A schedule whose events are checked as they are executed is a run. -/
theorem reaches_of_check (es : List (Event S)) (hcheck : ∀ σ e, check σ e = true → ok σ e)
    (h : σ.runIf check es = some τ) : Reaches ok σ τ := by
  refine foldlM_induct .refl (fun σ₁ σ₂ e _ hrun hn => ?_) h
  split_ifs at hn with he
  exact .tail hrun ⟨e, hcheck σ₁ e he, hn⟩

/-- A run with a property, found by executing a schedule. -/
theorem exists_of_runIf {G : Pool S T → Event S → Prop}
    (hcheck : ∀ σ e, σ.Below m → check σ e = true → e.below m = true ∧ G σ e) {P : Pool S T → Bool} (hσ : σ.Below m)
    (h : (σ.runIf check es).any P = true) : ∃ τ, Reaches G σ τ ∧ τ.Below m ∧ P τ = true := by
  cases hrun : σ.runIf check es with
  | none =>
    rw [hrun] at h
    cases h
  | some τ =>
    rw [hrun] at h
    obtain ⟨hreach, hτ⟩ := reaches_of_runIf es hcheck hσ hrun
    exact ⟨τ, hreach, hτ, h⟩

end Pool

end Lib

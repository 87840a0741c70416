import Re0Auth.Federation.Names
import Re0Auth.Federation.Typestate

/-!
# Who holds what

A second view of the calls, beside the order of their writes: which mutex a call holds and whether it is
the one that gives it back, which names it has seen, and what became of the bind flow it has taken out of
the store.

* **`Custody`**: the mutex, the flow in hand and the answer to its claim;
* **`InCustody`**: the operations a call may make with what it holds;
* **`Custody.Answers`**: how a bind is answered by what its claim was answered.
-/

namespace Re0Auth.Federation

open Lib OAuth Vault

/-- The process a call is made in. -/
def Call.process : Call → Option ℕ
  | .completeBind process _ _ _ | .unbind process _ | .cascadeRevoke process _
  | .revokeBinding process _ | .fetch process _ _ => some process
  | .beginBind _ _ | .advanceClock _ => none

/-- The binding a call may remove without having read its row: the kill switch has it from its list. -/
def Call.listed : Call → Option Ref
  | .revokeBinding _ k => some k
  | _ => none

/-- The names `NewRegistry` admits. -/
def Config.Validated (cfg : Config) : Prop :=
  ∀ k : Ref, (cfg.registry k.game k.source).isSome → k.Named

/-- **What a call holds.** -/
structure Custody where
  call : Call
  /-- The process and the key of the mutex it holds. -/
  held : Option (ℕ × String)
  /-- Every binding it has come across has an admitted name. -/
  clean : Bool
  /-- The name it has drawn for a flow. -/
  drawn : Option String
  /-- The version it has read the row at, where there was one. -/
  seen : Option (Option UInt64)
  /-- The flow it has taken out of the store. -/
  flow : Option BindFlow
  /-- What its claim of the row was answered. -/
  claim : Option (Except Error Bool)

/-- A code is exchanged in some process. -/
theorem Call.binds.process {c : Call} (h : c.binds) : c.process ≠ none := by
  cases c with
  | completeBind process => exact Option.some_ne_none process
  | _ => exact h.elim

/-- The custody of a call that has done nothing. -/
def Custody.start (c : Call) : Custody := ⟨c, none, c.listed.all Ref.named, none, none, none, none⟩

/-- **The custody after an operation.** -/
def Custody.advance (p : Custody) : (op : Op) → op.Res → Custody
  | .lock process key, _ => { p with held := some (process, key) }
  | .unlock _ _, _ => { p with held := none }
  | .getBinding _, r =>
    match r with
    | .ok row => { p with clean := p.clean && row.1.ref.named, seen := some (some row.1.version) }
    | .error e => { p with seen := if e.isNotBound then some none else p.seen }
  | .consumeFlow _, r =>
    match r with
    | .ok f => { p with clean := p.clean && f.ref.named, flow := some f }
    | .error _ => p
  | .newBindID, r =>
    match r with
    | .ok id => { p with drawn := some id }
    | .error _ => p
  | .putFlow _, _ => { p with flow := none, drawn := none, seen := none }
  | .putIfVersion _ _, r => { p with claim := some r }
  | .create _, r => { p with claim := some r }
  | _, _ => p

/-- The call holds the lock of the binding, and has its name from a call or a store. -/
def Custody.Guards (p : Custody) (k : Ref) : Prop :=
  (∃ process, p.held = some (process, k.bindingKey)) ∧ (p.clean = true → k.Named)

/-- **Operations a call may make with what it holds.** -/
def InCustody (p : Custody) : Op → Prop
  | .lock process _ => p.held = none ∧ p.call.process = some process ∧ (p.call.binds → p.claim = none)
  | .unlock process key => p.held = some (process, key)
  | .getBinding k => p.call.process = none →
    (∃ returnTo, p.call = .beginBind k returnTo) ∧ p.seen = none
  | .create b => p.Guards b.ref ∧ p.call.binds ∧ p.claim = none ∧
    ∃ f, p.flow = some f ∧ f.ref = b.ref ∧ f.bound = none
  | .newBindID => p.seen = none
  | .putIfVersion b v => p.Guards b.ref ∧ p.call.process ≠ none ∧
    (p.call.binds → p.claim = none ∧ ∃ f, p.flow = some f ∧ f.ref = b.ref ∧ f.bound = some v)
  | .enroll k _ | .revokeSecret k => p.Guards k ∧ (p.call.binds → p.claim = some (.ok true))
  | .deleteBinding k => (∃ process, p.held = some (process, k.bindingKey)) ∧ ¬p.call.binds
  | .consumeFlow _ => p.call.binds ∧ p.flow = none ∧ p.claim = none
  | .putFlow f => (p.clean = true → f.ref.Named) ∧
    match p.call with
    | .beginBind k _ => f.ref = k ∧ p.drawn = some f.id ∧ p.seen = some f.bound
    | .completeBind _ _ _ _ => p.flow = some f ∧ p.claim = none
    | _ => False
  | _ => True

/-- **The typestate** of what calls hold. -/
abbrev custody (cfg : Config) : Typestate (federation cfg) where
  Phase := Custody
  start := Custody.start
  allowed := InCustody
  advance := Custody.advance

variable {p q : Custody} {α : Type} {k : Ref} {op : Op} {process : ℕ}

/-- The call and its mutex are what they were, and it has come across nothing that was not clean. -/
structure Custody.Stays (p q : Custody) : Prop where
  call : q.call = p.call
  held : q.held = p.held
  clean : q.clean = true → p.clean = true

theorem Custody.Stays.refl : p.Stays p := ⟨rfl, rfl, id⟩

theorem Custody.Stays.trans {r : Custody} (h : p.Stays q) (h' : q.Stays r) : p.Stays r :=
  ⟨h'.call.trans h.call, h'.held.trans h.held, fun hr => h.clean (h'.clean hr)⟩

theorem Custody.advance_call (r : op.Res) : (p.advance op r).call = p.call := by
  cases op with
  | getBinding | consumeFlow | newBindID => rcases r with e | x <;> rfl
  | _ => rfl

theorem Custody.stays_advance (hop : op.onLock = false) (r : op.Res) : p.Stays (p.advance op r) := by
  cases op with
  | lock | unlock => cases hop
  | getBinding | consumeFlow =>
    rcases r with e | x
    · exact ⟨rfl, rfl, id⟩
    · exact ⟨rfl, rfl, fun h => (Bool.and_eq_true_iff.1 h).1⟩
  | newBindID => rcases r with e | x <;> exact ⟨rfl, rfl, fun h => h⟩
  | _ => exact ⟨rfl, rfl, id⟩

theorem Custody.Guards.stays (h : p.Guards k) (hq : p.Stays q) : q.Guards k :=
  ⟨h.1.imp fun _ hp => hq.held.trans hp, fun hc => h.2 (hq.clean hc)⟩

/-- A row that was read under its lock is guarded. -/
theorem Custody.guards_row (hheld : p.held = some (process, k.bindingKey))
    (row : Row k) : (p.advance (.getBinding k) (.ok row)).Guards row.1.ref :=
  ⟨⟨process, by rw [row.2]; exact hheld⟩, fun h => (Bool.and_eq_true_iff.1 h).2⟩

/-- The call of a process that does not bind. -/
structure Call.Serves (c : Call) : Prop where
  inside : c.process ≠ none
  free : ¬c.binds

/-- Only the read of a bind that begins is remembered. -/
theorem Call.Serves.reads (h : p.call.Serves) : InCustody p (.getBinding k) :=
  fun hnone => absurd hnone h.inside

/-- How a bind ends: a reply needs the claim, and a claim not given is `ErrBindSuperseded`. -/
def Custody.Answers (p : Custody) (r : Except Error α) : Prop :=
  (∀ a, r = .ok a → p.claim = some (.ok true)) ∧
    (p.claim = some (.ok false) → r = .error .bindSuperseded)

/-- A bind that never claimed the row may be refused with any error. -/
theorem Custody.answers_unclaimed (h : p.claim = none) (e : Error) :
    p.Answers (.error e : Except Error α) := by
  refine ⟨fun a ha => (by cases ha), fun hclaim => ?_⟩
  rw [h] at hclaim
  cases hclaim

/-- A bind that has its flow in hand, under the binding's lock or before it. -/
structure Custody.Bringing (p : Custody) (f : BindFlow) : Prop where
  binds : p.call.binds
  flow : p.flow = some f
  claim : p.claim = none
  named : p.clean = true → f.ref.Named

/-- How the part of a bind under the lock ends. -/
def Custody.Bound (p : Custody) (r : Except Error α) (q : Custody) : Prop := p.Stays q ∧ q.Answers r

end Re0Auth.Federation

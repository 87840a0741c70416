import Mathlib.Algebra.Order.BigOperators.Group.List
import Mathlib.Algebra.Order.Group.Int
import Mathlib.Algebra.Ring.Int.Defs

/-!
# Ledgers

A list of amounts, each entered under a key and due until it is settled. Entries are never removed, so the
place of an entry names it.

* **`Entry`**, **`Ledger.settle`**: an entry, and the list after one of them is settled;
* **`Ledger.due`**, **`Ledger.dueTo`**: what is due in all and under one key, and how both change when an
  entry is added or settled.
-/

namespace Lib

open List

variable {K : Type} [DecidableEq K]

/-- **Entry**: an amount under a key. -/
structure Entry (K : Type) where
  key : K
  amount : ℤ
  settled : Bool
  deriving DecidableEq, Repr

namespace Entry

/-- What is still due. -/
def due (e : Entry K) : ℤ := if e.settled then 0 else e.amount

/-- What is still due under a key. -/
def dueTo (k : K) (e : Entry K) : ℤ := if e.key = k then e.due else 0

def settle (e : Entry K) : Entry K := { e with settled := true }

omit [DecidableEq K] in
@[simp] theorem due_settle (e : Entry K) : e.settle.due = 0 := rfl

@[simp] theorem dueTo_settle (k : K) (e : Entry K) : e.settle.dueTo k = 0 := by
  simp [dueTo]

omit [DecidableEq K] in
theorem due_nonneg {e : Entry K} (h : 0 < e.amount) : 0 ≤ e.due := by
  rw [due]
  split_ifs
  · exact le_rfl
  · exact h.le

theorem dueTo_nonneg {e : Entry K} (h : 0 < e.amount) (k : K) : 0 ≤ e.dueTo k := by
  rw [dueTo]
  split_ifs
  · exact due_nonneg h
  · exact le_rfl

end Entry

namespace Ledger

variable {l : List (Entry K)} {e : Entry K} {i : ℕ} {k : K}

/-- What is due in all. -/
def due (l : List (Entry K)) : ℤ := (l.map Entry.due).sum

/-- What is due under a key. -/
def dueTo (k : K) (l : List (Entry K)) : ℤ := (l.map (Entry.dueTo k)).sum

/-- The ledger after the entry at a place is settled. -/
def settle (l : List (Entry K)) (i : ℕ) : List (Entry K) := l.modify i Entry.settle

omit [DecidableEq K] in
@[simp] theorem due_nil : due ([] : List (Entry K)) = 0 := rfl

@[simp] theorem dueTo_nil : dueTo k [] = 0 := rfl

omit [DecidableEq K] in
theorem due_concat : due (l ++ [e]) = due l + e.due := by
  simp [due]

theorem dueTo_concat : dueTo k (l ++ [e]) = dueTo k l + e.dueTo k := by
  simp [dueTo]

omit [DecidableEq K] in
/-- A sum over a list changes by what one of its members contributes. -/
theorem sum_settle {f : Entry K → ℤ} (hf : ∀ x : Entry K, f x.settle = 0) (he : l[i]? = some e) :
    ((settle l i).map f).sum = (l.map f).sum - f e := by
  induction l generalizing i with
  | nil => simp at he
  | cons x l ih =>
    cases i with
    | zero =>
      obtain rfl : x = e := by simpa using he
      simp [settle, hf]
    | succ i =>
      have hrest := ih (i := i) (by simpa using he)
      simp only [settle, modify_succ_cons, map_cons, sum_cons] at hrest ⊢
      omega

omit [DecidableEq K] in
theorem due_settle (he : l[i]? = some e) : due (settle l i) = due l - e.due :=
  sum_settle Entry.due_settle he

theorem dueTo_settle (he : l[i]? = some e) : dueTo k (settle l i) = dueTo k l - e.dueTo k :=
  sum_settle (Entry.dueTo_settle k) he

/-- No entry is due under a key for more than the key's sum. -/
theorem dueTo_le (hpos : ∀ e ∈ l, 0 < e.amount) (he : e ∈ l) : e.dueTo k ≤ dueTo k l := by
  refine single_le_sum (fun x hx => ?_) _ (mem_map_of_mem he)
  obtain ⟨y, hy, rfl⟩ := mem_map.1 hx
  exact Entry.dueTo_nonneg (hpos y hy) k

theorem dueTo_nonneg (hpos : ∀ e ∈ l, 0 < e.amount) : 0 ≤ dueTo k l := by
  refine sum_nonneg fun x hx => ?_
  obtain ⟨y, hy, rfl⟩ := mem_map.1 hx
  exact Entry.dueTo_nonneg (hpos y hy) k

/-- A key's sum is no more than all that is due. -/
theorem dueTo_le_due (hpos : ∀ e ∈ l, 0 < e.amount) : dueTo k l ≤ due l := by
  refine sum_le_sum fun e he => ?_
  rw [Entry.dueTo]
  split_ifs
  · exact le_rfl
  · exact Entry.due_nonneg (hpos e he)

omit [DecidableEq K] in
theorem due_eq_zero (h : ∀ e ∈ l, e.settled = true) : due l = 0 := by
  refine sum_eq_zero fun x hx => ?_
  obtain ⟨e, he, rfl⟩ := mem_map.1 hx
  rw [Entry.due, if_pos (h e he)]

/-! ## Where an entry stands after a change -/

omit [DecidableEq K] in
theorem getElem?_settle {j : ℕ} : (settle l i)[j]? = if i = j then l[j]?.map Entry.settle else l[j]? := by
  rw [settle, getElem?_modify]
  split_ifs <;> simp_all

omit [DecidableEq K] in
/-- Amounts and keys stay as they were entered. -/
theorem forall_settle {P : K → ℤ → Prop} (h : ∀ e ∈ l, P e.key e.amount) :
    ∀ e ∈ settle l i, P e.key e.amount := by
  intro e he
  obtain ⟨j, hj⟩ := mem_iff_getElem?.1 he
  rw [getElem?_settle] at hj
  split_ifs at hj with hij
  · obtain ⟨x, hx, rfl⟩ := Option.map_eq_some_iff.1 hj
    exact h x (mem_of_getElem? hx)
  · exact h e (mem_of_getElem? hj)

end Ledger

end Lib

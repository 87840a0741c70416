import Mathlib.Data.List.Basic
import Mathlib.Order.Lattice

/-!
# Binary search in sorted lists

* **`search`**: the first position at which a condition holds, found by halving;
* **`position`**: the same in a list, **`take_position`** and **`drop_position`**: in a list that is
  sorted for the condition it is where the list splits;
* **`insertSorted`**, **`eraseSorted`**: a list in strict order with an element put in or taken out at
  the position found.
-/

namespace Lib

open List Option Bool

/-- The loop of the search, between two bounds; `fuel` limits the rounds. -/
def searchFrom (p : ℕ → Bool) : (fuel i j : ℕ) → ℕ
  | 0, i, _ => i
  | fuel + 1, i, j =>
    if i < j then
      if p ((i + j) / 2) then searchFrom p fuel i ((i + j) / 2)
      else searchFrom p fuel ((i + j) / 2 + 1) j
    else i

/-- **Binary search** among the numbers below `n`. -/
def search (n : ℕ) (p : ℕ → Bool) : ℕ := searchFrom p n 0 n

variable {p : ℕ → Bool} {n : ℕ} {α : Type} {R : α → α → Prop} {l : List α} {q : α → Bool}

/-- The rounds left cover the numbers between the bounds, below the lower bound the condition fails and
from the upper bound on it holds. -/
theorem searchFrom_spec (hp : ∀ a b, a ≤ b → b < n → p a = true → p b = true) {fuel i j : ℕ}
    (hfuel : j ≤ i + fuel) (hij : i ≤ j) (hjn : j ≤ n) (hlow : ∀ a < i, p a = false)
    (hhigh : ∀ a, j ≤ a → a < n → p a = true) :
    searchFrom p fuel i j ≤ n ∧ (∀ a < searchFrom p fuel i j, p a = false) ∧
      ∀ a, searchFrom p fuel i j ≤ a → a < n → p a = true := by
  induction fuel generalizing i j with
  | zero =>
    obtain rfl : i = j := by omega
    exact ⟨hjn, hlow, hhigh⟩
  | succ fuel ih =>
    rw [searchFrom]
    split_ifs with hlt hmid
    · refine ih (by omega) (by omega) (by omega) hlow fun a ha han => ?_
      exact hp _ a ha han hmid
    · refine ih (by omega) (by omega) hjn (fun a ha => ?_) hhigh
      by_contra hpa
      rw [not_eq_false] at hpa
      exact hmid (hp a _ (by omega) (by omega) hpa)
    · obtain rfl : i = j := by omega
      exact ⟨hjn, hlow, hhigh⟩

/-- The search finds where a condition that stays true once it is begins to hold. -/
theorem search_spec (hp : ∀ a b, a ≤ b → b < n → p a = true → p b = true) :
    search n p ≤ n ∧ (∀ a < search n p, p a = false) ∧ ∀ a, search n p ≤ a → a < n → p a = true :=
  searchFrom_spec hp (by omega) (by omega) (Nat.le_refl n) (fun a ha => by omega) fun a h h' => by omega

/-! ## Sorted lists -/

/-- The first position in a list at which a condition holds. -/
def position (l : List α) (q : α → Bool) : ℕ := search l.length fun i => l[i]?.any q

section

variable (hl : l.Pairwise R) (hq : ∀ a b, R a b → q a = true → q b = true)
include hl hq

/-- A list that is sorted for the condition is split by the position. -/
theorem position_spec : position l q ≤ l.length ∧ (∀ a ∈ l.take (position l q), q a = false) ∧
      ∀ a ∈ l.drop (position l q), q a = true := by
  have hmono : ∀ a b, a ≤ b → b < l.length → (l[a]?.any q) = true → (l[b]?.any q) = true := by
    intro a b hab hb ha
    obtain rfl | hlt := Nat.eq_or_lt_of_le hab
    · exact ha
    have hal : a < l.length := by omega
    rw [getElem?_eq_getElem hal, any_some] at ha
    rw [getElem?_eq_getElem hb, any_some]
    exact hq _ _ (pairwise_iff_getElem.1 hl a b hal hb hlt) ha
  obtain ⟨hle, hlow, hhigh⟩ := search_spec hmono
  refine ⟨hle, fun a ha => ?_, fun a ha => ?_⟩
  · obtain ⟨i, hi, rfl⟩ := mem_iff_getElem.1 ha
    rw [length_take] at hi
    have hfalse := hlow i (by rw [position] at hi; omega)
    rw [getElem?_eq_getElem (by omega), any_some] at hfalse
    rw [getElem_take]
    exact hfalse
  · obtain ⟨i, hi, rfl⟩ := mem_iff_getElem.1 ha
    rw [length_drop] at hi
    have htrue := hhigh (position l q + i) (by rw [position]; omega) (by omega)
    rw [getElem?_eq_getElem (by omega), any_some] at htrue
    rw [getElem_drop]
    exact htrue

/-- From the position on stand the elements that meet the condition. -/
theorem drop_position : l.drop (position l q) = l.filter q := by
  obtain ⟨-, hlow, hhigh⟩ := position_spec hl hq
  conv_rhs => rw [← take_append_drop (position l q) l, filter_append]
  rw [filter_eq_nil_iff.2 fun a ha => by rw [hlow a ha]; exact false_ne_true,
    filter_eq_self.2 hhigh, nil_append]

/-- Before the position stand the others. -/
theorem take_position : l.take (position l q) = l.filter fun a => !q a := by
  obtain ⟨-, hlow, hhigh⟩ := position_spec hl hq
  conv_rhs => rw [← take_append_drop (position l q) l, filter_append]
  rw [filter_eq_self.2 fun a ha => by rw [hlow a ha]; rfl,
    filter_eq_nil_iff.2 fun a ha => by rw [hhigh a ha]; exact false_ne_true, append_nil]

end

/-- In a list where the condition, once it fails, fails for good, the first run that meets it is all
that meets it. -/
theorem takeWhile_eq_filter (hl : l.Pairwise R) (hq : ∀ a ∈ l, ∀ b ∈ l, R a b → q b = true → q a = true) :
    l.takeWhile q = l.filter q ∧ l.dropWhile q = l.filter fun a => !q a := by
  induction l with
  | nil => exact ⟨rfl, rfl⟩
  | cons a l ih =>
    obtain ⟨hhead, htail⟩ := pairwise_cons.1 hl
    cases ha : q a with
    | true =>
      obtain ⟨htake, hdrop⟩ :=
        ih htail fun b hb c hc => hq b (mem_cons_of_mem a hb) c (mem_cons_of_mem a hc)
      simp [ha, htake, hdrop]
    | false =>
      have hfalse : ∀ b ∈ l, q b = false := by
        intro b hb
        by_contra hqb
        have hqa := hq a mem_cons_self b (mem_cons_of_mem a hb) (hhead b hb) (by simpa using hqb)
        rw [ha] at hqa
        cases hqa
      refine ⟨?_, ?_⟩
      · rw [takeWhile_cons_of_neg (by simp [ha]), filter_cons_of_neg (by simp [ha])]
        exact (filter_eq_nil_iff.2 fun b hb => by simp [hfalse b hb]).symm
      · rw [dropWhile_cons_of_neg (by simp [ha]), filter_cons_of_pos (by simp [ha])]
        rw [filter_eq_self.2 fun b hb => by simp [hfalse b hb]]

/-- A prefix of a sorted list that misses an element ends before it. -/
theorem mem_take_or_last (hl : l.Pairwise R) {x : α} (hx : x ∈ l) (n : ℕ) :
    x ∈ l.take n ∨ (l.take n).length = n ∧ ∀ last ∈ (l.take n).getLast?, R last x := by
  rw [← take_append_drop n l] at hx
  refine (mem_append.1 hx).imp_right fun hdrop => ⟨?_, fun last hlast => ?_⟩
  · have hpos := length_pos_of_mem hdrop
    rw [length_drop] at hpos
    rw [length_take]
    omega
  · rw [← take_append_drop n l] at hl
    exact (pairwise_append.1 hl).2.2 last (mem_of_mem_getLast? hlast) x hdrop

/-! ## Lists in strict order -/

section Ordered

variable [LinearOrder α] {x a : α}

/-- Where an element stands, or belongs. -/
def rank (l : List α) (x : α) : ℕ := position l fun a => !decide (a < x)

/-- Put an element in at its rank. -/
def insertSorted (l : List α) (x : α) : List α := l.take (rank l x) ++ x :: l.drop (rank l x)

/-- Take an element out, if it stands at its rank. -/
def eraseSorted (l : List α) (x : α) : List α :=
  if l[rank l x]? = some x then l.take (rank l x) ++ l.drop (rank l x + 1) else l

theorem mem_insertSorted : a ∈ insertSorted l x ↔ a = x ∨ a ∈ l := by
  have hsplit : a ∈ l ↔ a ∈ l.take (rank l x) ∨ a ∈ l.drop (rank l x) := by
    rw [← mem_append, take_append_drop]
  rw [insertSorted, mem_append, mem_cons, hsplit]
  tauto

theorem not_lt_mono (a b : α) (hab : a < b) (ha : (!decide (a < x)) = true) : (!decide (b < x)) = true := by
  simp only [not_eq_true', decide_eq_false_iff_not, not_lt] at ha ⊢
  exact le_of_lt (lt_of_le_of_lt ha hab)

variable (hl : l.Pairwise (· < ·))

include hl

theorem take_rank : l.take (rank l x) = l.filter fun a => decide (a < x) := by
  simpa [rank] using take_position hl not_lt_mono

theorem drop_rank : l.drop (rank l x) = l.filter fun a => !decide (a < x) := by
  exact drop_position hl not_lt_mono

/-- An element that is not there yet is put in between the smaller and the greater ones. -/
theorem sorted_insertSorted (hx : x ∉ l) : (insertSorted l x).Pairwise (· < ·) := by
  rw [insertSorted, take_rank hl, drop_rank hl]
  have hgt : ∀ b ∈ l.filter fun a => !decide (a < x), x < b := by
    intro b hb
    obtain ⟨hmem, hnot⟩ := mem_filter.1 hb
    have hle : x ≤ b := by simpa using hnot
    exact lt_of_le_of_ne hle fun h => hx (h ▸ hmem)
  refine pairwise_append.2 ⟨hl.filter _, pairwise_cons.2 ⟨hgt, hl.filter _⟩, ?_⟩
  intro a ha b hb
  have hax : a < x := by simpa using (mem_filter.1 ha).2
  rcases mem_cons.1 hb with rfl | hb
  · exact hax
  · exact lt_trans hax (hgt b hb)

/-- An element that is there stands at its rank. -/
theorem getElem?_rank (hx : x ∈ l) : l[rank l x]? = some x := by
  have hmem : x ∈ l.drop (rank l x) := by
    rw [drop_rank hl]
    exact mem_filter.2 ⟨hx, by simp⟩
  have hsorted : (l.drop (rank l x)).Pairwise (· < ·) := hl.sublist (drop_sublist _ _)
  have hle : ∀ b ∈ l.drop (rank l x), x ≤ b := by
    intro b hb
    rw [drop_rank hl] at hb
    simpa using (mem_filter.1 hb).2
  cases hdrop : l.drop (rank l x) with
  | nil => simp [hdrop] at hmem
  | cons b rest =>
    rw [hdrop] at hmem hsorted hle
    have hb : x = b := by
      rcases mem_cons.1 hmem with h | h
      · exact h
      · exact le_antisymm (hle b mem_cons_self) (le_of_lt ((pairwise_cons.1 hsorted).1 x h))
    have hhead : (l.drop (rank l x))[0]? = some b := by simp [hdrop]
    simpa [hb] using hhead

theorem sorted_eraseSorted : (eraseSorted l x).Pairwise (· < ·) := by
  unfold eraseSorted
  split_ifs
  · refine hl.sublist ?_
    conv_rhs => rw [← take_append_drop (rank l x) l]
    exact (List.Sublist.refl _).append (drop_sublist_drop_left l (Nat.le_succ _))
  · exact hl

theorem mem_eraseSorted (hx : x ∈ l) : a ∈ eraseSorted l x ↔ a ∈ l ∧ a ≠ x := by
  have hget := getElem?_rank hl hx
  have hsplit : l = l.take (rank l x) ++ x :: l.drop (rank l x + 1) := by
    obtain ⟨hlt, heq⟩ := List.getElem?_eq_some_iff.1 hget
    conv_lhs => rw [← take_append_drop (rank l x) l, drop_eq_getElem_cons hlt, heq]
  have hsorted : (l.take (rank l x) ++ x :: l.drop (rank l x + 1)).Pairwise (· < ·) := hsplit ▸ hl
  obtain ⟨-, htail, hcross⟩ := pairwise_append.1 hsorted
  have hafter := (pairwise_cons.1 htail).1
  have hmem : a ∈ l ↔ a ∈ l.take (rank l x) ∨ a = x ∨ a ∈ l.drop (rank l x + 1) := by
    conv_lhs => rw [hsplit]
    rw [mem_append, mem_cons]
  rw [eraseSorted, if_pos hget, mem_append, hmem]
  constructor
  · rintro (ha | ha)
    · exact ⟨.inl ha, ne_of_lt (hcross a ha x mem_cons_self)⟩
    · exact ⟨.inr (.inr ha), ne_of_gt (hafter a ha)⟩
  · rintro ⟨ha | ha | ha, hne⟩
    · exact .inl ha
    · exact absurd ha hne
    · exact .inr ha

end Ordered

end Lib

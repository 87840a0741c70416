import Mathlib.Data.List.Basic

/-!
# Reading codes off a text

**`Reads`**: a code at the head of a text determines the value coded and what follows it. A text after
a code of its length has such a code (**`Reads.frame`**), and a row of such codes determines the values
(**`Reads.flatMap_inj`**).
-/

namespace Lib

open List

variable {α β : Type} {P : α → Prop} {code : α → List β}

/-- **Reads**: the code of a value in `P` at the head of a text determines the value and the rest. -/
def Reads (P : α → Prop) (code : α → List β) : Prop :=
  ∀ ⦃a b⦄, P a → P b → ∀ ⦃r s⦄, code a ++ r = code b ++ s → a = b ∧ r = s

/-- A text after a code of its length is read off. -/
theorem Reads.frame {n : ℕ} {len : ℕ → List β} (h : Reads (· < n) len) :
    Reads (fun t : List β => t.length < n) fun t => len t.length ++ t := by
  intro a b ha hb r s heq
  rw [append_assoc, append_assoc] at heq
  obtain ⟨hlen, htail⟩ := h ha hb heq
  exact append_inj htail hlen

/-- Codes one after the other determine the values, however many there are. -/
theorem Reads.flatMap_inj (h : Reads P code) (hne : ∀ a, code a ≠ []) :
    ∀ {l l' : List α}, (∀ a ∈ l, P a) → (∀ a ∈ l', P a) → l.flatMap code = l'.flatMap code → l = l'
  | [], [], _, _, _ => rfl
  | [], b :: l', _, _, heq => by simp [hne] at heq
  | a :: l, [], _, _, heq => by simp [hne] at heq
  | a :: l, b :: l', hl, hl', heq => by
    rw [flatMap_cons, flatMap_cons] at heq
    rw [forall_mem_cons] at hl hl'
    obtain ⟨rfl, htail⟩ := h hl.1 hl'.1 heq
    rw [h.flatMap_inj hne hl.2 hl'.2 htail]

end Lib

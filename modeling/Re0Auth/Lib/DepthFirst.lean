import Mathlib.Data.Finset.Card

/-!
# Depth-first order

A depth-first walk over a graph that is given by its successor lists. A vertex is entered once and left
when all its successors have been visited; the order in which vertices are left is the result. In an
acyclic graph every vertex comes after its successors.

* **`Walk.visit`**, **`postorder`**: the walk, with a bound on its depth;
* **`Walk.Good`**: what a walk keeps; **`Walk.Extends`**: what a visit adds to one;
* **`postorder_spec`**: the order, when the bound exceeds the number of vertices.
-/

namespace Lib

open List

variable {α : Type} {succ : α → List α} {order : List α}

/-- A walk: the vertices it has entered, and those it has left in the order of leaving. -/
structure Walk (α : Type) where
  entered : List α
  order : List α

/-- Visit a vertex, to a depth. -/
def Walk.visit [DecidableEq α] (succ : α → List α) : ℕ → α → Walk α → Walk α
  | 0, _, w => w
  | n + 1, v, w =>
    if v ∈ w.entered then w
    else
      let w' := (succ v).foldl (fun w u => Walk.visit succ n u w) { w with entered := v :: w.entered }
      { w' with order := w'.order ++ [v] }

/-- Visit vertices one after the other. -/
def Walk.visitAll [DecidableEq α] (succ : α → List α) (n : ℕ) (vs : List α) (w : Walk α) : Walk α :=
  vs.foldl (fun w v => Walk.visit succ n v w) w

/-- The vertices that are reached from the roots, in the order of leaving. -/
def postorder [DecidableEq α] (succ : α → List α) (n : ℕ) (roots : List α) : List α :=
  (Walk.visitAll succ n roots ⟨[], []⟩).order

/-- There is an edge. -/
def Edge (succ : α → List α) (v u : α) : Prop := u ∈ succ v

/-- Every vertex of the list comes after its successors. -/
def Topological (succ : α → List α) (order : List α) : Prop :=
  ∀ l v r, order = l ++ v :: r → ∀ u ∈ succ v, u ∈ l

namespace Walk

variable {succ : α → List α} {U : Finset α} {n : ℕ} {v u : α} {w w' w'' : Walk α} {vs : List α}

/-- The vertex was entered and not left. -/
def Open (w : Walk α) (v : α) : Prop := v ∈ w.entered ∧ v ∉ w.order

/-- **A walk within a set of vertices.** -/
structure Good (succ : α → List α) (U : Finset α) (w : Walk α) : Prop where
  fresh : w.entered.Nodup
  within : ∀ v ∈ w.entered, v ∈ U
  nodup : w.order.Nodup
  left : ∀ v ∈ w.order, v ∈ w.entered
  sorted : Topological succ w.order

/-- **What a visit adds**: it leaves whatever it enters, and enters only what it reaches. -/
structure Extends (succ : α → List α) (vs : List α) (w w' : Walk α) : Prop where
  order : w.order <+: w'.order
  entered : w.entered.length ≤ w'.entered.length
  still_open : ∀ v, w'.Open v ↔ w.Open v
  all : ∀ v ∈ vs, v ∈ w'.order
  reached : ∀ u ∈ w'.order, u ∈ w.order ∨ ∃ v ∈ vs, Relation.ReflTransGen (Edge succ) v u

theorem Extends.refl (succ : α → List α) (w : Walk α) : Extends succ [] w w :=
  ⟨prefix_rfl, le_rfl, fun _ => Iff.rfl, nofun, fun _ hu => .inl hu⟩

theorem Extends.trans {vs' : List α} (h : Extends succ vs w w') (h' : Extends succ vs' w' w'') :
    Extends succ (vs ++ vs') w w'' where
  order := h.order.trans h'.order
  entered := h.entered.trans h'.entered
  still_open v := (h'.still_open v).trans (h.still_open v)
  all v hv := (mem_append.1 hv).elim (fun hv => h'.order.subset (h.all v hv)) (h'.all v)
  reached u hu := by
    rcases h'.reached u hu with hu | ⟨v, hv, hvu⟩
    · rcases h.reached u hu with hu | ⟨v, hv, hvu⟩
      · exact .inl hu
      · exact .inr ⟨v, mem_append_left _ hv, hvu⟩
    · exact .inr ⟨v, mem_append_right _ hv, hvu⟩

theorem Good.enter (h : Good succ U w) (hv : v ∈ U) (hnew : v ∉ w.entered) :
    Good succ U { w with entered := v :: w.entered } :=
  ⟨nodup_cons.2 ⟨hnew, h.fresh⟩, forall_mem_cons.2 ⟨hv, h.within⟩, h.nodup,
    fun u hu => mem_cons_of_mem _ (h.left u hu), h.sorted⟩

theorem Topological.concat {order : List α} (h : Topological succ order)
    (hv : ∀ u ∈ succ v, u ∈ order) : Topological succ (order ++ [v]) := by
  intro l x r heq u hu
  rcases eq_nil_or_concat r with rfl | ⟨r, y, rfl⟩
  · obtain ⟨rfl, hxv⟩ := append_inj' heq rfl
    cases hxv
    exact hv u hu
  · rw [concat_eq_append, ← cons_append, ← append_assoc] at heq
    exact h l x r (append_inj' heq rfl).1 u hu

/-- A vertex is left when its successors were. -/
theorem Good.leave (h : Good succ U w) (hopen : w.Open v) (hsucc : ∀ u ∈ succ v, u ∈ w.order) :
    Good succ U { w with order := w.order ++ [v] } := by
  refine ⟨h.fresh, h.within, ?_, fun u hu => ?_, Topological.concat h.sorted hsucc⟩
  · exact nodup_append.2 ⟨h.nodup, nodup_singleton v, fun a ha b hb => by
      rw [mem_singleton.1 hb]
      rintro rfl
      exact hopen.2 ha⟩
  · rcases mem_append.1 hu with hu | hu
    · exact h.left u hu
    · rw [mem_singleton.1 hu]
      exact hopen.1

theorem open_leave {p : α} : Open { w with order := w.order ++ [v] } p ↔ w.Open p ∧ p ≠ v := by
  simp only [Open, mem_append, mem_singleton, not_or, and_assoc, ne_eq]

variable [DecidableEq α]

/-- Visiting vertices one after the other, when each visit does what it should. -/
theorem visitAll_spec
    (hvisit : ∀ v w, Good succ U w → v ∈ U → (∀ p, w.Open p → Relation.TransGen (Edge succ) p v) →
      U.card < n + w.entered.length → Good succ U (visit succ n v w) ∧ Extends succ [v] w (visit succ n v w)) (h : Good succ U w) (hvs : ∀ v ∈ vs, v ∈ U)
    (hopen : ∀ p, w.Open p → ∀ v ∈ vs, Relation.TransGen (Edge succ) p v)
    (hn : U.card < n + w.entered.length) :
    Good succ U (visitAll succ n vs w) ∧ Extends succ vs w (visitAll succ n vs w) := by
  induction vs generalizing w with
  | nil => exact ⟨h, .refl succ w⟩
  | cons v vs ih =>
    obtain ⟨hgood, hext⟩ := hvisit v w h (hvs v mem_cons_self) (fun p hp => hopen p hp v mem_cons_self) hn
    obtain ⟨hgood', hext'⟩ := ih hgood (fun u hu => hvs u (mem_cons_of_mem _ hu))
      (fun p hp u hu => hopen p ((hext.still_open p).1 hp) u (mem_cons_of_mem _ hu))
      (by have := hext.entered; omega)
    exact ⟨hgood', hext.trans hext'⟩

/-- **A visit** of a vertex that the open vertices lead to: in an acyclic graph the vertex is left. -/
theorem visit_spec (hacyclic : ∀ v, ¬ Relation.TransGen (Edge succ) v v)
    (hclosed : ∀ v ∈ U, ∀ u ∈ succ v, u ∈ U) (n : ℕ) (v : α) (w : Walk α) (h : Good succ U w) (hv : v ∈ U)
    (hopen : ∀ p, w.Open p → Relation.TransGen (Edge succ) p v) (hn : U.card < n + w.entered.length) :
    Good succ U (visit succ n v w) ∧ Extends succ [v] w (visit succ n v w) := by
  induction n generalizing v w with
  | zero =>
    -- more vertices were entered than there are
    have hcard : w.entered.toFinset.card ≤ U.card :=
      Finset.card_le_card fun u hu => h.within u (mem_toFinset.1 hu)
    rw [toFinset_card_of_nodup h.fresh] at hcard
    omega
  | succ n ih =>
    rw [visit]
    split
    · -- an entered vertex was left, since an open one would lead to itself
      rename_i hin
      have hleft : v ∈ w.order := by
        by_contra hnot
        exact hacyclic v (hopen v ⟨hin, hnot⟩)
      exact ⟨h, prefix_rfl, le_rfl, fun _ => Iff.rfl, by simpa using hleft, fun _ hu => .inl hu⟩
    · rename_i hnew
      have hnot : v ∉ w.order := fun hin => hnew (h.left v hin)
      have hopen₁ : ∀ p, Open { w with entered := v :: w.entered } p ↔ p = v ∨ w.Open p := by
        intro p
        simp only [Open, mem_cons]
        constructor
        · rintro ⟨rfl | hp, hout⟩
          · exact .inl rfl
          · exact .inr ⟨hp, hout⟩
        · rintro (rfl | ⟨hp, hout⟩)
          · exact ⟨.inl rfl, hnot⟩
          · exact ⟨.inr hp, hout⟩
      obtain ⟨hgood, hext⟩ := visitAll_spec ih (h.enter hv hnew) (hclosed v hv) (fun p hp u hu => by
          rcases (hopen₁ p).1 hp with rfl | hp
          · exact .single hu
          · exact (hopen p hp).tail hu)
        (by simp only [length_cons]; omega)
      rw [visitAll] at hgood hext
      have hself := (hext.still_open v).2 ((hopen₁ v).2 (.inl rfl))
      refine ⟨hgood.leave hself hext.all, hext.order.trans (prefix_append _ _),
        (Nat.le_succ _).trans hext.entered, fun p => ?_, by simp, fun u hu => ?_⟩
      · rw [open_leave, hext.still_open p, hopen₁ p]
        constructor
        · rintro ⟨rfl | hp, hne⟩
          · exact absurd rfl hne
          · exact hp
        · intro hp
          refine ⟨.inr hp, ?_⟩
          rintro rfl
          exact hnew hp.1
      · rcases mem_append.1 hu with hu | hu
        · rcases hext.reached u hu with hu | ⟨x, hx, hxu⟩
          · exact .inl hu
          · exact .inr ⟨v, mem_singleton_self v, .head hx hxu⟩
        · rw [mem_singleton.1 hu]
          exact .inr ⟨v, mem_singleton_self v, .refl⟩

end Walk

/-- **Depth-first order** of an acyclic graph: every vertex that the roots reach is there once, after its
successors. -/
theorem postorder_spec [DecidableEq α] {U : Finset α} {n : ℕ} {roots : List α}
    (hacyclic : ∀ v, ¬ Relation.TransGen (Edge succ) v v) (hclosed : ∀ v ∈ U, ∀ u ∈ succ v, u ∈ U)
    (hroots : ∀ v ∈ roots, v ∈ U) (hn : U.card < n) :
    (postorder succ n roots).Nodup ∧ Topological succ (postorder succ n roots) ∧
      (∀ v ∈ roots, v ∈ postorder succ n roots) ∧
      ∀ u ∈ postorder succ n roots, ∃ v ∈ roots, Relation.ReflTransGen (Edge succ) v u := by
  have hstart : Walk.Good succ U ⟨[], []⟩ :=
    ⟨nodup_nil, nofun, nodup_nil, nofun, fun l v r h => by simp at h⟩
  obtain ⟨hgood, hext⟩ := Walk.visitAll_spec (Walk.visit_spec hacyclic hclosed n) hstart hroots
    (fun p hp => absurd hp.1 not_mem_nil) hn
  exact ⟨hgood.nodup, hgood.sorted, hext.all, fun u hu => (hext.reached u hu).resolve_left not_mem_nil⟩

/-- In a topological order a vertex comes after all that it leads to. -/
theorem Topological.transGen (h : Topological succ order) {u v : α}
    (hvu : Relation.TransGen (Edge succ) v u) : ∀ l r, order = l ++ v :: r → u ∈ l := by
  induction hvu using Relation.TransGen.head_induction_on with
  | single hvu => exact fun l r heq => h l _ r heq u hvu
  | @head y x hyx _ ih =>
    intro l r heq
    obtain ⟨l₁, l₂, rfl⟩ := append_of_mem (h l _ r heq _ hyx)
    refine mem_append_left _ (ih l₁ (l₂ ++ y :: r) ?_)
    rw [heq, append_assoc, cons_append]

/-- In a topological order no vertex leads to one that comes after it. -/
theorem Topological.pairwise (h : Topological succ order)
    (hnodup : order.Nodup) : order.Pairwise fun v u => ¬ Relation.TransGen (Edge succ) v u := by
  refine pairwise_iff_forall_sublist.2 fun {v u} hsub hvu => ?_
  obtain ⟨l, r, rfl⟩ := append_of_mem (hsub.subset mem_cons_self)
  have hu : u ∈ l := h.transGen hvu l r rfl
  -- the vertex that comes after is on the other side
  have hu' : u ∈ r := by
    obtain ⟨l₁, l₂, heq, h₁, h₂⟩ := sublist_append_iff.1 hsub
    have hv : v ∉ l := fun hv => (nodup_append.1 hnodup).2.2 v hv v mem_cons_self rfl
    cases l₁ with
    | nil =>
      subst heq
      exact singleton_sublist.1 (cons_sublist_cons.1 h₂)
    | cons y l₁ =>
      obtain ⟨rfl, -⟩ := cons.inj heq
      exact absurd (h₁.subset mem_cons_self) hv
  exact (nodup_append.1 hnodup).2.2 u hu u (mem_cons_of_mem _ hu') rfl

end Lib

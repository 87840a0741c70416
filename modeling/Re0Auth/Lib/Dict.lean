import Mathlib.Algebra.BigOperators.Group.List.Basic
import Mathlib.Algebra.Ring.Int.Defs
import Mathlib.Data.List.AList

/-!
# Dictionaries

A finite map from keys to values: Mathlib's association lists `AList` at a constant family, under
the four operations a hash map is used with, and the one operation `AList` lacks, keeping the
entries that pass a test.

* **`Dict.get`**, **`Dict.set`**, **`Dict.del`** read, write and remove one key;
* **`Dict.filter`** keeps the entries a predicate accepts, **`Dict.size`** counts the entries;
* **`Dict.total`** adds up the values of a dictionary of numbers.

Every operation is described by what `get` returns afterwards, so proofs about a dictionary never
look at its entry list.
-/

namespace Lib

open List Option

variable {K V : Type} [DecidableEq K]

/-- **Dictionary**: a finite map with at most one entry for a key. -/
abbrev Dict (K V : Type) : Type := AList fun _ : K => V

namespace Dict

/-- The value stored under a key. -/
def get (m : Dict K V) (k : K) : Option V := m.lookup k

/-- Store a value under a key, replacing what was there. -/
def set (m : Dict K V) (k : K) (v : V) : Dict K V := m.insert k v

/-- Remove a key. -/
def del (m : Dict K V) (k : K) : Dict K V := m.erase k

/-- Keep the entries that pass the test. -/
def filter (m : Dict K V) (p : K → V → Bool) : Dict K V where
  entries := m.entries.filter fun e => p e.1 e.2
  nodupKeys := m.nodupKeys.sublist List.filter_sublist

/-- The number of entries. -/
def size (m : Dict K V) : ℕ := m.entries.length

/-! ## What a read returns -/

@[simp] theorem get_empty (k : K) : get (∅ : Dict K V) k = none := rfl

section

variable (m : Dict K V)

theorem get_set (k k' : K) (v : V) : (m.set k v).get k' = if k' = k then some v else m.get k' := by
  split_ifs with h
  · subst h
    exact AList.lookup_insert m
  · exact AList.lookup_insert_ne h

theorem get_del (k k' : K) : (m.del k).get k' = if k' = k then none else m.get k' := by
  split_ifs with h
  · subst h
    exact AList.lookup_erase k' m
  · exact AList.lookup_erase_ne h

@[simp] theorem get_set_self (k : K) (v : V) : (m.set k v).get k = some v := by
  simp [get_set]

@[simp] theorem get_del_self (k : K) : (m.del k).get k = none := by
  simp [get_del]

/-- Membership of an entry in the underlying list is what `get` reports. -/
theorem get_eq_some_iff (k : K) (v : V) : m.get k = some v ↔ (⟨k, v⟩ : Sigma fun _ : K => V) ∈ m.entries :=
  mem_dlookup_iff m.nodupKeys

theorem get_filter_eq_some (p : K → V → Bool) (k : K) (v : V) :
    (m.filter p).get k = some v ↔ m.get k = some v ∧ p k v = true := by
  simp only [get_eq_some_iff, filter, mem_filter]

theorem get_filter (p : K → V → Bool) (k : K) : (m.filter p).get k = (m.get k).filter (p k) := by
  ext v
  simp only [get_filter_eq_some, filter_eq_some_iff]

end

/-- The listed keys are the ones with a value. -/
theorem mem_keys_iff {m : Dict K V} {k : K} : k ∈ m.keys ↔ ∃ v, m.get k = some v := by
  rw [← AList.mem_keys, ← AList.lookup_isSome, isSome_iff_exists]
  exact Iff.rfl

/-- A write adds one entry. -/
theorem get_of_get_set {m : Dict K V} {k k' : K} {v x : V} (h : (m.set k v).get k' = some x) :
    m.get k' = some x ∨ k' = k ∧ x = v := by
  rw [get_set] at h
  split_ifs at h with hk
  · exact .inr ⟨hk, (some.inj h).symm⟩
  · exact .inl h

/-- A deletion removes entries and changes none. -/
theorem get_of_get_del {m : Dict K V} {k k' : K} {v : V} (h : (m.del k).get k' = some v) :
    m.get k' = some v ∧ k' ≠ k := by
  rw [get_del] at h
  split_ifs at h with hk
  exact ⟨h, hk⟩

theorem get_of_get_filter {m : Dict K V} {p : K → V → Bool} {k : K} {v : V}
    (h : (m.filter p).get k = some v) : m.get k = some v :=
  ((get_filter_eq_some ..).1 h).1

/-! ## Parts of a dictionary -/

/-- Every entry of the first is one of the second. -/
def Sub (m' m : Dict K V) : Prop := ∀ k v, m'.get k = some v → m.get k = some v

theorem Sub.refl (m : Dict K V) : m.Sub m := fun _ _ h => h

theorem Sub.trans {m m' m'' : Dict K V} (h' : m''.Sub m') (h : m'.Sub m) : m''.Sub m :=
  fun k v hv => h k v (h' k v hv)

theorem sub_del (m : Dict K V) (k : K) : (m.del k).Sub m := fun _ _ h => (get_of_get_del h).1

theorem sub_foldl_del (m : Dict K V) (ks : List K) : (ks.foldl del m).Sub m := by
  induction ks generalizing m with
  | nil => exact .refl m
  | cons k ks ih => exact (ih (m.del k)).trans (sub_del m k)

theorem get_foldl_del (m : Dict K V) (ks : List K) (k : K) :
    (ks.foldl del m).get k = if k ∈ ks then none else m.get k := by
  induction ks generalizing m with
  | nil => simp
  | cons k₀ ks ih =>
    rw [foldl_cons, ih, get_del]
    by_cases hk : k = k₀ <;> simp [hk]

/-- A part has no more entries than the whole. -/
theorem Sub.size_le {m m' : Dict K V} (h : m'.Sub m) : m'.size ≤ m.size := by
  refine (subperm_of_subset ?_ fun e he => ?_).length_le
  · exact m'.nodupKeys.nodup
  · exact (get_eq_some_iff m e.1 e.2).1 (h e.1 e.2 ((get_eq_some_iff m' e.1 e.2).2 he))

theorem size_set (m : Dict K V) (k : K) (v : V) : (m.set k v).size = (m.del k).size + 1 := by
  rfl

theorem size_del {m : Dict K V} {k : K} {v : V} (h : m.get k = some v) : (m.del k).size + 1 = m.size := by
  rw [← size_set m k v]
  refine Nat.le_antisymm (Sub.size_le fun k' x hx => ?_) (Sub.size_le fun k' x hx => ?_)
  · obtain hx | ⟨rfl, rfl⟩ := get_of_get_set hx
    · exact hx
    · exact h
  · rw [get_set]
    split_ifs with hk
    · subst hk
      exact h.symm.trans hx
    · exact hx

/-! ## The sum of the values -/

/-- The sum of all values. -/
def total (m : Dict K ℤ) : ℤ := (m.entries.map Sigma.snd).sum

theorem total_set (m : Dict K ℤ) (k : K) (v : ℤ) : (m.set k v).total = v + (m.del k).total := by
  rfl

/-- Equal reads mean equal sums. -/
theorem total_congr {m m' : Dict K ℤ} (h : ∀ k, m.get k = m'.get k) : m.total = m'.total := by
  have hperm : m.entries.Perm m'.entries := by
    refine (perm_ext_iff_of_nodup m.nodupKeys.nodup m'.nodupKeys.nodup).2 fun e => ?_
    rw [← get_eq_some_iff m e.1 e.2, ← get_eq_some_iff m' e.1 e.2, h]
  exact (hperm.map Sigma.snd).sum_eq

theorem total_del (m : Dict K ℤ) (k : K) : (m.del k).total = m.total - (m.get k).getD 0 := by
  cases hk : m.get k with
  | none =>
    rw [getD_none, Int.sub_zero]
    refine total_congr fun k' => ?_
    rw [get_del]
    split_ifs with heq
    · rw [heq, hk]
    · rfl
  | some v =>
    have hset : m.total = (m.set k v).total := by
      refine total_congr fun k' => ?_
      rw [get_set]
      split_ifs with heq
      · rw [heq, hk]
      · rfl
    rw [hset, total_set, getD_some]
    omega

/-! ## Agreement on some values -/

/-- The two hold the same entries among those whose values have the property. -/
def AgreeOn (P : V → Prop) (m m' : Dict K V) : Prop :=
  ∀ k v, P v → (m'.get k = some v ↔ m.get k = some v)

variable {P : V → Prop} {m m' m'' : Dict K V} {k : K} {v : V}

theorem AgreeOn.refl (P : V → Prop) (m : Dict K V) : AgreeOn P m m := fun _ _ _ => .rfl

theorem AgreeOn.trans (h : AgreeOn P m m') (h' : AgreeOn P m' m'') : AgreeOn P m m'' :=
  fun k v hv => (h' k v hv).trans (h k v hv)

theorem AgreeOn.mono {Q : V → Prop} (h : AgreeOn P m m') (hQ : ∀ v, Q v → P v) : AgreeOn Q m m' :=
  fun k v hv => h k v (hQ v hv)

/-- A write of a value without the property, over none that has it. -/
theorem AgreeOn.set (hold : ∀ w, m.get k = some w → ¬ P w) (hnew : ¬ P v) : AgreeOn P m (m.set k v) := by
  intro k' w hw
  rw [get_set]
  split_ifs with hk
  · subst hk
    constructor
    · rintro h
      cases h
      exact absurd hw hnew
    · exact fun h => absurd hw (hold w h)
  · exact .rfl

/-- A deletion of a value without the property. -/
theorem AgreeOn.del (hold : ∀ w, m.get k = some w → ¬ P w) : AgreeOn P m (m.del k) := by
  intro k' w hw
  rw [get_del]
  split_ifs with hk
  · subst hk
    exact ⟨nofun, fun h => absurd hw (hold w h)⟩
  · exact .rfl

/-- A filter that keeps what has the property. -/
theorem AgreeOn.filter {f : K → V → Bool} (hkeep : ∀ k v, P v → f k v = true) : AgreeOn P m (m.filter f) := by
  intro k' w hw
  rw [get_filter_eq_some]
  exact ⟨fun h => h.1, fun h => ⟨h, hkeep k' w hw⟩⟩

end Dict

end Lib

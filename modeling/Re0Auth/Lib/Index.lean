import Re0Auth.Lib.Dict

/-!
# Indexes over a dictionary

A secondary index: for each owner the set of keys of the records that belong to it. The index is kept
beside the dictionary by hand, one `add` for each write and one `remove` for each deletion.

* **`Index.add`**, **`Index.remove`**, **`Index.keys`**: the operations; a bucket that becomes empty
  goes;
* **`Index.Covers`**: no record is missing from the bucket of its owner, which is what a deletion of
  all records of an owner rests on;
* **`Index.Exact`**: nothing else is in a bucket either, so that a deletion by bucket takes no record
  of another owner;
* **`Index.Compact`**: no bucket is empty.
-/

namespace Lib

open Dict

variable {J K V : Type} [DecidableEq J] [DecidableEq K]

/-- **Index**: sets of keys, by owner. -/
abbrev Index (J K : Type) : Type := Dict J (Dict K Unit)

namespace Index

/-- File a key under an owner. -/
def add (ix : Index J K) (j : J) (k : K) : Index J K :=
  Dict.set ix j (((Dict.get ix j).getD ∅).set k ())

/-- Take a key from the bucket of an owner. -/
def remove (ix : Index J K) (j : J) (k : K) : Index J K :=
  match Dict.get ix j with
  | none => ix
  | some ks => if (ks.del k).size = 0 then Dict.del ix j else Dict.set ix j (ks.del k)

/-- The keys filed under an owner. -/
def bucket (ix : Index J K) (j : J) : List K := ((Dict.get ix j).getD ∅).keys

variable {k k' : K} {ix : Index J K} {j j' : J}

theorem mem_keys_unit {ks : Dict K Unit} : k ∈ ks.keys ↔ get ks k = some () :=
  mem_keys_iff.trans ⟨fun ⟨_, h⟩ => h, fun h => ⟨(), h⟩⟩

theorem mem_bucket : k ∈ ix.bucket j ↔ ∃ ks, get ix j = some ks ∧ get ks k = some () := by
  rw [bucket, mem_keys_unit]
  cases get ix j with
  | none => simp
  | some ks => simp

theorem mem_bucket_add : k' ∈ (ix.add j k).bucket j' ↔ k' ∈ ix.bucket j' ∨ j' = j ∧ k' = k := by
  rw [mem_bucket, add, get_set]
  split_ifs with hj
  · subst hj
    simp only [Option.some.injEq, exists_eq_left', get_set, bucket, mem_keys_unit]
    split_ifs with hk <;> simp [hk]
  · rw [← mem_bucket]
    simp [hj]

theorem mem_bucket_remove : k' ∈ (ix.remove j k).bucket j' ↔ k' ∈ ix.bucket j' ∧ ¬ (j' = j ∧ k' = k) := by
  rw [remove]
  cases hix : get ix j with
  | none =>
    refine ⟨fun h => ⟨h, ?_⟩, And.left⟩
    rintro ⟨rfl, rfl⟩
    obtain ⟨ks, hks, -⟩ := mem_bucket.1 h
    rw [hix] at hks
    cases hks
  | some ks =>
    by_cases hj : j' = j
    · subst hj
      have hmem : k' ∈ ix.bucket j' ↔ get ks k' = some () := by
        rw [mem_bucket, hix]
        simp
      have hdel : get (ks.del k) k' = some () ↔ get ks k' = some () ∧ k' ≠ k := by
        rw [get_del]
        split_ifs with hk <;> simp [hk]
      rw [hmem]
      simp only [true_and, ← hdel]
      split_ifs with hsize
      · -- the last key went, and the bucket with it
        have hnone : get (ks.del k) k' ≠ some () := by
          rw [ne_eq, get_eq_some_iff, List.eq_nil_of_length_eq_zero hsize]
          simp
        rw [mem_bucket, get_del_self]
        simp [hnone]
      · rw [mem_bucket, get_set_self]
        simp
    · have hother : ∀ ix' : Index J K, get ix' j' = get ix j' →
          (k' ∈ ix'.bucket j' ↔ k' ∈ ix.bucket j') := by
        intro ix' h
        rw [mem_bucket, mem_bucket, h]
      simp only [hj, false_and, not_false_eq_true, and_true]
      split_ifs
      · exact hother _ (by rw [get_del, if_neg hj])
      · exact hother _ (by rw [get_set, if_neg hj])

/-- **Coverage**: the key of every record is in the bucket of its owner; `owner` is `none` for the
records that are not filed. -/
def Covers (owner : V → Option J) (rows : Dict K V) (ix : Index J K) : Prop :=
  ∀ k v j, rows.get k = some v → owner v = some j → k ∈ ix.bucket j

namespace Covers

variable {owner : V → Option J} {rows : Dict K V} {ix : Index J K} {k : K} {v : V} {j : J}

theorem empty : Covers owner (∅ : Dict K V) (∅ : Index J K) := by
  intro k v j h
  cases h

/-- Fewer records. -/
theorem sub {rows' : Dict K V} (h : Covers owner rows ix) (hsub : rows'.Sub rows) : Covers owner rows' ix :=
  fun k v j hv hj => h k v j (hsub k v hv) hj

/-- A record that is written: its key must be filed, whatever was under it. -/
theorem set (h : Covers owner (rows.del k) ix) (hv : ∀ j, owner v = some j → k ∈ ix.bucket j) :
    Covers owner (rows.set k v) ix := by
  intro k' v' j' hv' hj'
  rw [get_set] at hv'
  split_ifs at hv' with hk
  · subst hk
    cases hv'
    exact hv j' hj'
  · exact h k' v' j' (by rw [get_del, if_neg hk, hv']) hj'

/-- One more entry. -/
theorem add (h : Covers owner rows ix) : Covers owner rows (ix.add j k) :=
  fun k' v' j' hv' hj' => mem_bucket_add.2 (.inl (h k' v' j' hv' hj'))

/-- A record that goes, with an entry under its key. -/
theorem del_remove (h : Covers owner rows ix) : Covers owner (rows.del k) (ix.remove j k) := by
  intro k' v' j' hv' hj'
  obtain ⟨hv', hk⟩ := get_of_get_del hv'
  rw [mem_bucket_remove]
  exact ⟨h k' v' j' hv' hj', fun hjk => hk hjk.2⟩

end Covers

/-- **Exactness**: the buckets hold the keys of the records of their owners and no others. -/
def Exact (owner : V → Option J) (rows : Dict K V) (ix : Index J K) : Prop :=
  ∀ k j, k ∈ ix.bucket j ↔ ∃ v, rows.get k = some v ∧ owner v = some j

namespace Exact

variable {owner : V → Option J} {rows : Dict K V} {ix : Index J K} {k : K} {v : V} {j : J}

theorem empty : Exact owner (∅ : Dict K V) (∅ : Index J K) := by
  intro k j
  simp [mem_bucket]

section

variable (h : Exact owner rows ix)
include h

theorem covers : Covers owner rows ix :=
  fun k v j hv hj => (h k j).2 ⟨v, hv, hj⟩

/-- A record that goes, with the entry in the bucket of its owner. -/
theorem del_remove (hv : rows.get k = some v)
    (hj : ∀ j', owner v = some j' → j' = j) : Exact owner (rows.del k) (ix.remove j k) := by
  intro k' j'
  rw [mem_bucket_remove, h k' j']
  constructor
  · rintro ⟨⟨v', hv', hj'⟩, hne⟩
    refine ⟨v', ?_, hj'⟩
    rw [get_del, if_neg ?_, hv']
    rintro rfl
    rw [hv] at hv'
    cases hv'
    exact hne ⟨hj j' hj', rfl⟩
  · rintro ⟨v', hv', hj'⟩
    obtain ⟨hv', hk⟩ := get_of_get_del hv'
    exact ⟨⟨v', hv', hj'⟩, fun hjk => hk hjk.2⟩

/-- A new record that is filed. -/
theorem set_add (hnew : rows.get k = none) (hj : owner v = some j) :
    Exact owner (rows.set k v) (ix.add j k) := by
  intro k' j'
  rw [mem_bucket_add, h k' j', get_set]
  split_ifs with hk
  · subst hk
    simp [hnew, hj, eq_comm]
  · simp [hk]

/-- A new record that is not filed. -/
theorem set (hnew : rows.get k = none) (hj : owner v = none) : Exact owner (rows.set k v) ix := by
  intro k' j'
  rw [h k' j', get_set]
  split_ifs with hk
  · subst hk
    simp [hnew, hj]
  · rfl

/-- Exactness is about what is stored, not about the order it is stored in. -/
theorem congr {rows' : Dict K V} (hrows : ∀ k, rows'.get k = rows.get k) : Exact owner rows' ix := by
  intro k' j'
  rw [h k' j', hrows]

/-- A record that changes and stays with its owner. -/
theorem update {w : V} (hw : rows.get k = some w) (hj : owner v = owner w) :
    Exact owner (rows.set k v) ix := by
  intro k' j'
  rw [h k' j', get_set]
  split_ifs with hk
  · subst hk
    simp [hw, hj]
  · rfl

/-- All records of an owner go, with the bucket. -/
theorem drop : Exact owner ((ix.bucket j).foldl del rows) (del ix j) := by
  intro k' j'
  rw [mem_bucket, get_del, get_foldl_del]
  split_ifs with hj hk hk
  · simp
  · subst hj
    simp only [false_and, exists_false, false_iff]
    exact fun hex => hk ((h k' j').2 hex)
  · -- a key is in the bucket of one owner only
    rw [← mem_bucket, h k' j']
    obtain ⟨v, hv, hjv⟩ := (h k' j).1 hk
    simp only [hv, Option.some.injEq, exists_eq_left', hjv, false_and, exists_false, iff_false]
    exact fun heq => hj heq.symm
  · rw [← mem_bucket, h k' j']

end

end Exact

/-- **Compactness**: no bucket is empty. -/
def Compact (ix : Index J K) : Prop := ∀ j ks, Dict.get ix j = some ks → ks.size ≠ 0

namespace Compact

variable {ix : Index J K} {j : J} {k : K}

omit [DecidableEq K] in
theorem empty : Compact (∅ : Index J K) := nofun

theorem add (h : Compact ix) : Compact (ix.add j k) := by
  intro j' ks hks
  obtain hks | ⟨rfl, rfl⟩ := get_of_get_set hks
  · exact h j' ks hks
  · exact Nat.succ_ne_zero _

omit [DecidableEq K] in
theorem del (h : Compact ix) : Compact (del ix j) := fun j' ks hks =>
  h j' ks (get_of_get_del hks).1

theorem remove (h : Compact ix) : Compact (ix.remove j k) := by
  rw [Index.remove]
  split
  · exact h
  · split_ifs with hsize
    · exact h.del
    · intro j' ks' hks'
      obtain hks' | ⟨rfl, rfl⟩ := get_of_get_set hks'
      · exact h j' ks' hks'
      · exact hsize

end Compact

end Index

end Lib

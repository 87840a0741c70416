import Mathlib.Data.List.Nodup

/-!
# Tables under READ COMMITTED

A database of keyed tables on which transactions work side by side. A statement sees what was
committed when it starts and what its own transaction has written; a write of a row that another
transaction has written or locked waits for that transaction; a write becomes visible to others when
its transaction commits and is undone when it rolls back.

* **`Cell`**: what is kept under one key: the committed row, an uncommitted write, the share locks;
* **`Table`**, **`Db`**: finitely many cells, and a family of tables with rows of different types;
* **`Db.view`**, **`Db.rows`**: what a transaction sees;
* **`Db.write`**, **`Db.share`**, **`Db.finish`**: what it does.
-/

namespace Lib

open Function List Option

/-- **Cell**: the committed row under a key, the uncommitted write of a transaction (a row, or its
deletion), and the transactions that hold a share lock. -/
structure Cell (V : Type) where
  committed : Option V
  pending : Option (ℕ × Option V)
  shared : List ℕ

namespace Cell

variable {V : Type} {c : Cell V} {t u : ℕ} {v : Option V}

/-- Nothing was ever stored here. -/
def empty : Cell V := ⟨none, none, []⟩

/-- A row that is committed, with nobody at work on it. -/
def stored (v : V) : Cell V := ⟨some v, none, []⟩

/-- What transaction `t` sees. -/
def view (t : ℕ) (c : Cell V) : Option V :=
  match c.pending with
  | some (u, v) => if u = t then v else c.committed
  | none => c.committed

/-- No other transaction has an uncommitted write here. -/
def Quiet (t : ℕ) (c : Cell V) : Prop := ∀ u v, c.pending = some (u, v) → u = t

/-- No other transaction has an uncommitted write or a share lock here. -/
def Free (t : ℕ) (c : Cell V) : Prop := c.Quiet t ∧ ∀ u ∈ c.shared, u = t

instance : Decidable (c.Quiet t) :=
  match h : c.pending with
  | none => .isTrue fun u v hp => by rw [h] at hp; cases hp
  | some (u, v) =>
    if hu : u = t then .isTrue fun u' v' hp => by rw [h] at hp; cases hp; exact hu
    else .isFalse fun hq => hu (hq u v h)

instance : Decidable (c.Free t) := inferInstanceAs (Decidable (_ ∧ _))

/-- An uncommitted write; `none` deletes the row. -/
def write (t : ℕ) (v : Option V) (c : Cell V) : Cell V := { c with pending := some (t, v) }

/-- A share lock. -/
def share (t : ℕ) (c : Cell V) : Cell V := { c with shared := t :: c.shared }

/-- The end of a transaction: its write is kept or dropped, its locks are released. -/
def finish (t : ℕ) (keep : Bool) (c : Cell V) : Cell V where
  committed := if keep then c.view t else c.committed
  pending :=
    match c.pending with
    | some (u, v) => if u = t then none else some (u, v)
    | none => none
  shared := c.shared.filter (· != t)

@[simp] theorem view_write : (c.write t v).view t = v := by simp [view, write]

end Cell

/-- **Table**: the cells under finitely many keys. -/
structure Table (V : Type) where
  keys : List String
  cell : String → Cell V
  nodup : keys.Nodup
  support : ∀ k, k ∉ keys → cell k = .empty

namespace Table

variable {V : Type} {t : ℕ} {T : Table V}

/-- A table without rows. -/
def empty : Table V := ⟨[], fun _ => .empty, .nil, fun _ _ => rfl⟩

/-- One cell is changed. -/
def modify (T : Table V) (k : String) (f : Cell V → Cell V) : Table V where
  keys := T.keys.insert k
  cell := Function.update T.cell k (f (T.cell k))
  nodup := T.nodup.insert
  support k' hk' := by
    rw [List.mem_insert_iff, not_or] at hk'
    rw [Function.update_of_ne hk'.1, T.support k' hk'.2]

/-- Every cell is changed, in a way that leaves empty ones empty. -/
def map (T : Table V) (f : Cell V → Cell V) (hf : f .empty = .empty) : Table V where
  keys := T.keys
  cell k := f (T.cell k)
  nodup := T.nodup
  support k hk := by rw [T.support k hk, hf]

/-- The rows transaction `t` sees. -/
def rows (t : ℕ) (T : Table V) : List (String × V) :=
  T.keys.filterMap fun k => ((T.cell k).view t).map (k, ·)

theorem mem_rows {k : String} {v : V} : (k, v) ∈ T.rows t ↔ (T.cell k).view t = some v := by
  simp only [rows, mem_filterMap, map_eq_some_iff, Prod.mk.injEq]
  constructor
  · rintro ⟨k', -, v', hv', rfl, rfl⟩
    exact hv'
  · intro hv
    refine ⟨k, ?_, v, hv, rfl, rfl⟩
    by_contra hk
    rw [T.support k hk] at hv
    cases hv

/-- A table with given rows, nobody at work on it. -/
def ofList (rows : List (String × V)) : Table V :=
  rows.foldl (fun T r => T.modify r.1 fun _ => .stored r.2) empty

theorem cell_ofList (rows : List (String × V)) (k : String) :
    ((ofList rows).cell k).pending = none ∧ ((ofList rows).cell k).shared = [] := by
  have hfold : ∀ T : Table V, (∀ k, (T.cell k).pending = none ∧ (T.cell k).shared = []) →
      ∀ k, ((rows.foldl (fun T r => T.modify r.1 fun _ => .stored r.2) T).cell k).pending = none ∧
        ((rows.foldl (fun T r => T.modify r.1 fun _ => .stored r.2) T).cell k).shared = [] := by
    induction rows with
    | nil => exact fun T hT => hT
    | cons r rows ih =>
      refine fun T hT => ih _ fun k => ?_
      by_cases hk : k = r.1
      · simp [modify, hk, Cell.stored]
      · simpa [modify, hk] using hT k
  exact hfold empty (fun _ => ⟨rfl, rfl⟩) k

/-- A key stands for one row. -/
theorem nodup_rows : ((T.rows t).map (·.1)).Nodup := by
  have hsub : ∀ keys : List String, List.Sublist
      ((keys.filterMap fun k => ((T.cell k).view t).map (k, ·)).map (·.1)) keys := by
    intro keys
    induction keys with
    | nil => exact .refl _
    | cons k keys ih =>
      cases hk : (T.cell k).view t with
      | none => simpa [hk] using ih.cons k
      | some v => simpa [hk] using ih
  exact T.nodup.sublist (hsub T.keys)

end Table

/-! ## Families of tables -/

/-- **Db**: a family of tables, with rows of a type of its own in each, and the number the next
transaction gets. -/
structure Db {ι : Type} (Row : ι → Type) where
  next : ℕ
  table : (i : ι) → Table (Row i)

/-- What a query sees: the visible rows of every table. -/
abbrev Snapshot {ι : Type} (Row : ι → Type) := (i : ι) → List (String × Row i)

namespace Db

variable {ι : Type} {Row : ι → Type} {db : Db Row} {t u : ℕ} {i j : ι} {k l : String} {v : Row i}

/-- The cell under a key. -/
def cell (db : Db Row) (i : ι) (k : String) : Cell (Row i) := (db.table i).cell k

/-- The row transaction `t` sees under a key. -/
def view (t : ℕ) (db : Db Row) (i : ι) (k : String) : Option (Row i) := (db.cell i k).view t

/-- The row that is committed under a key. -/
def committed (db : Db Row) (i : ι) (k : String) : Option (Row i) := (db.cell i k).committed

/-- The row a query sees under a key, outside a transaction or in one. -/
def read (t : Option ℕ) (db : Db Row) (i : ι) (k : String) : Option (Row i) :=
  match t with
  | none => db.committed i k
  | some t => db.view t i k

/-- The rows transaction `t` sees. -/
def rows (t : ℕ) (db : Db Row) : Snapshot Row := fun i => (db.table i).rows t

theorem mem_rows : (k, v) ∈ db.rows t i ↔ db.view t i k = some v := Table.mem_rows

/-- A row that is there is there under a key of its table. -/
theorem mem_keys (db : Db Row) (h : db.committed i k = some v) : k ∈ (db.table i).keys := by
  by_contra hk
  rw [committed, cell, (db.table i).support k hk] at h
  cases h

/-- A transaction ends. -/
def finish (t : ℕ) (keep : Bool) (db : Db Row) : Db Row :=
  { db with table := fun i => (db.table i).map (.finish t keep) (by cases keep <;> rfl) }

theorem cell_finish {keep : Bool} : (db.finish t keep).cell i k = (db.cell i k).finish t keep := rfl

variable [DecidableEq ι] {f : Cell (Row i) → Cell (Row i)}

/-- One cell is changed. -/
def modify (db : Db Row) (i : ι) (k : String) (f : Cell (Row i) → Cell (Row i)) : Db Row :=
  { db with table := Function.update db.table i ((db.table i).modify k f) }

/-- A row is written or deleted, where nobody else is at work on it. -/
def write (t : ℕ) (i : ι) (k : String) (v : Option (Row i)) (db : Db Row) : Option (Db Row) :=
  if (db.cell i k).Free t then some (db.modify i k (.write t v)) else none

/-- A row is locked against writes, where nobody else has written it. -/
def share (t : ℕ) (i : ι) (k : String) (db : Db Row) : Option (Db Row) :=
  if (db.cell i k).Quiet t then some (db.modify i k (.share t)) else none

/-- No key is forgotten. -/
theorem keys_modify : (db.table j).keys ⊆ ((db.modify i k f).table j).keys := by
  by_cases hj : j = i
  · subst hj
    intro l hl
    simp only [modify, update_self]
    exact mem_insert_of_mem hl
  · simp [modify, hj]

theorem cell_modify_self : (db.modify i k f).cell i k = f (db.cell i k) := by
  simp [cell, modify, Table.modify]

theorem cell_modify_of_ne (h : j ≠ i ∨ l ≠ k) : (db.modify i k f).cell j l = db.cell j l := by
  by_cases hj : j = i
  · subst hj
    have hl : l ≠ k := h.resolve_left fun h => h rfl
    simp [cell, modify, Table.modify, hl]
  · simp [cell, modify, hj]

end Db

/-! ## A transaction on its own -/

/-- What is seen of a database: the rows under their keys. -/
abbrev View {ι : Type} (Row : ι → Type) := (i : ι) → String → Option (Row i)

namespace View

variable {ι : Type} [DecidableEq ι] {Row : ι → Type} {V : View Row} {i j : ι} {k l : String}
  {v : Option (Row i)} {p q : String → Row i → Bool}

/-- One row is changed. -/
def set (V : View Row) (i : ι) (k : String) (v : Option (Row i)) : View Row :=
  Function.update V i (Function.update (V i) k v)

@[simp] theorem set_self : V.set i k v i k = v := by simp [set]

theorem set_of_ne (h : j ≠ i ∨ l ≠ k) : V.set i k v j l = V j l := by
  by_cases hj : j = i
  · subst hj
    have hl : l ≠ k := h.resolve_left fun h => h rfl
    simp [set, hl]
  · simp [set, hj]

/-- Writing what is there changes nothing. -/
theorem set_eq (h : V i k = v) : V.set i k v = V := by
  funext j l
  by_cases hjl : j ≠ i ∨ l ≠ k
  · rw [set_of_ne hjl]
  · obtain ⟨rfl, rfl⟩ : j = i ∧ l = k := by simpa [not_or] using hjl
    rw [set_self, h]

/-- The rows of a table that satisfy `p` are deleted. -/
def drop (V : View Row) (i : ι) (p : String → Row i → Bool) : View Row :=
  Function.update V i fun k => (V i k).filter fun v => !p k v

@[simp] theorem drop_self : V.drop i p i k = (V i k).filter fun v => !p k v := by simp [drop]

theorem drop_of_ne (h : j ≠ i) : V.drop i p j = V j := by simp [drop, h]

/-- What is there after a deletion was there before. -/
theorem of_drop {v : Row j} (h : V.drop i p j k = some v) : V j k = some v := by
  by_cases hj : j = i
  · subst hj
    rw [drop_self, filter_eq_some_iff] at h
    exact h.1
  · rwa [drop_of_ne hj] at h

/-- Nothing that satisfies the condition is left. -/
theorem not_of_drop {v : Row i} (h : V.drop i p i k = some v) : p k v = false := by
  rw [drop_self, filter_eq_some_iff] at h
  simpa using h.2

theorem drop_congr (h : ∀ k v, V i k = some v → p k v = q k v) : V.drop i p = V.drop i q := by
  have hi : (fun k => (V i k).filter fun v => !p k v) = fun k => (V i k).filter fun v => !q k v := by
    funext k
    cases hv : V i k with
    | none => rfl
    | some v => rw [filter_some, filter_some, h k v hv]
  rw [drop, drop, hi]

/-- Deleting a row on its own. -/
theorem set_none_eq_drop : V.set i k none = V.drop i fun l _ => l == k := by
  have hi : ∀ l, update (V i) k none l = (V i l).filter fun _ => !(l == k) := by
    intro l
    by_cases hl : l = k
    · subst hl
      cases hv : V i l <;> simp [Option.filter]
    · cases hv : V i l <;> simp [Option.filter, hl, hv]
  rw [set, drop, funext hi]

theorem drop_or : (V.drop i q).drop i p = V.drop i fun k v => q k v || p k v := by
  have hi : ∀ k, (((V i k).filter fun v => !q k v).filter fun v => !p k v) =
      (V i k).filter fun v => !(q k v || p k v) := by
    intro k
    cases hv : V i k with
    | none => rfl
    | some v => cases hq : q k v <;> simp [Option.filter, hq]
  simp [drop, hi]

/-- Deleting some of the rows first makes no difference. -/
theorem drop_drop (h : ∀ k v, V i k = some v → q k v = true → p k v = true) :
    (V.drop i q).drop i p = V.drop i p := by
  rw [drop_or]
  refine drop_congr fun k v hv => ?_
  cases hq : q k v with
  | false => rfl
  | true => rw [h k v hv hq, Bool.or_self]

theorem drop_false : V.drop i (fun _ _ => false) = V := by
  have hi : ∀ k, ((V i k).filter fun _ => !false) = V i k := by
    intro k
    cases V i k <;> rfl
  rw [drop, funext hi, update_eq_self]

/-- The rows of a view, listed. -/
def Shows (V : View Row) (s : Snapshot Row) : Prop :=
  ∀ i k v, (k, v) ∈ s i ↔ V i k = some v

end View

namespace Db

variable {ι : Type} {Row : ι → Type} {db : Db Row} {t : ℕ} {C V : View Row} {i j : ι} {k : String}
  {n : ℕ}

/-- No transaction is at work, and `C` is committed. -/
def Clean (C : View Row) (db : Db Row) : Prop := ∀ i k, db.cell i k = ⟨C i k, none, []⟩

/-- Transaction `t` is alone at work: `C` is committed and it sees `V`. -/
structure Alone (t : ℕ) (C V : View Row) (db : Db Row) : Prop where
  free : ∀ i k, (db.cell i k).Free t
  committed : ∀ i k, db.committed i k = C i k
  view : ∀ i k, db.view t i k = V i k

theorem Clean.committed (h : db.Clean C) : db.committed i k = C i k := by
  rw [Db.committed, h i k]

theorem Clean.eq (h : db.Clean C) : C = db.committed := funext fun _ => funext fun _ => h.committed.symm

/-- A database with given rows is clean. -/
theorem clean_ofList {rows : (i : ι) → List (String × Row i)} :
    (⟨n, fun i => .ofList (rows i)⟩ : Db Row).Clean
      (⟨n, fun i => .ofList (rows i)⟩ : Db Row).committed := by
  intro i k
  obtain ⟨hpending, hshared⟩ := Table.cell_ofList (rows i) k
  change (Table.ofList (rows i)).cell k = ⟨((Table.ofList (rows i)).cell k).committed, none, []⟩
  cases hc : (Table.ofList (rows i)).cell k
  rw [hc] at hpending hshared
  cases hpending
  cases hshared
  rfl

theorem Clean.begin (h : db.Clean C) : Alone t C C { db with next := n } where
  free i k := by
    change (db.cell i k).Free t
    rw [h i k]
    exact ⟨fun _ _ hp => (by cases hp), fun _ hu => absurd hu not_mem_nil⟩
  committed i k := h.committed
  view i k := by
    change (db.cell i k).view t = C i k
    rw [h i k]
    rfl

/-- A statement is shown the rows of the view. -/
theorem Alone.shows (h : Alone t C V db) : V.Shows (db.rows t) := by
  intro i k v
  rw [Db.mem_rows, h.view]

theorem Alone.finish (h : Alone t C V db) {keep : Bool} :
    (db.finish t keep).cell i k = ⟨if keep then V i k else C i k, none, []⟩ := by
  obtain ⟨hquiet, hshared⟩ := h.free i k
  rw [cell_finish, ← h.view i k, ← h.committed i k, Db.view, Db.committed]
  rcases hc : db.cell i k with ⟨committed, pending, shared⟩
  rw [hc] at hquiet hshared
  have hs : shared.filter (· != t) = [] := by simpa using hshared
  rcases pending with _ | ⟨u, v⟩
  · simp [Cell.finish, hs]
  · have hu : u = t := hquiet u v rfl
    simp [Cell.finish, hs, hu]

theorem Alone.commit (h : Alone t C V db) : (db.finish t true).Clean V := fun _ _ => h.finish

theorem Alone.rollback (h : Alone t C V db) : (db.finish t false).Clean C := fun _ _ => h.finish

variable [DecidableEq ι]

/-- A cell is changed and the transaction stays alone. -/
theorem Alone.modify {V' : View Row} {f : Cell (Row i) → Cell (Row i)} (h : Alone t C V db)
    (hfree : (f (db.cell i k)).Free t) (hcommitted : (f (db.cell i k)).committed = (db.cell i k).committed)
    (hview : (f (db.cell i k)).view t = V' i k) (hne : ∀ j l, j ≠ i ∨ l ≠ k → V' j l = V j l) :
    Alone t C V' (db.modify i k f) := by
  refine ⟨fun j l => ?_, fun j l => ?_, fun j l => ?_⟩ <;> by_cases hjl : j ≠ i ∨ l ≠ k
  · rw [cell_modify_of_ne hjl]
    exact h.free j l
  · obtain ⟨rfl, rfl⟩ : j = i ∧ l = k := by simpa [not_or] using hjl
    rw [cell_modify_self]
    exact hfree
  · rw [Db.committed, cell_modify_of_ne hjl]
    exact h.committed j l
  · obtain ⟨rfl, rfl⟩ : j = i ∧ l = k := by simpa [not_or] using hjl
    rw [Db.committed, cell_modify_self]
    exact hcommitted.trans (h.committed j l)
  · rw [Db.view, cell_modify_of_ne hjl, hne j l hjl]
    exact h.view j l
  · obtain ⟨rfl, rfl⟩ : j = i ∧ l = k := by simpa [not_or] using hjl
    rw [Db.view, cell_modify_self]
    exact hview

theorem Alone.write (h : Alone t C V db) {v : Option (Row i)} :
    Alone t C (V.set i k v) (db.modify i k (.write t v)) := by
  refine h.modify ⟨fun u w hp => ?_, (h.free i k).2⟩ rfl ?_ fun j l hjl => View.set_of_ne hjl
  · cases hp
    rfl
  · rw [View.set_self, Cell.view_write]

theorem Alone.share (h : Alone t C V db) : Alone t C V (db.modify i k (.share t)) := by
  refine h.modify ⟨(h.free i k).1, fun u hu => ?_⟩ rfl ?_ fun _ _ _ => rfl
  · rcases mem_cons.1 hu with rfl | hu
    · rfl
    · exact (h.free i k).2 u hu
  · exact h.view i k

end Db

end Lib

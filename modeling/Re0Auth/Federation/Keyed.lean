import Re0Auth.Lib.Dict
import Re0Auth.Lib.Interleave

/-!
# Locks by key

`lockRefreshFamily` (`oauth/as.go`) and `keyedMutex` (`internal/federation/refresh.go`) are one
algorithm: a map from keys to mutexes that count their callers. A call finds or creates the entry of
its key under the map's guard, takes the entry's mutex outside of it, and the release gives the mutex
back before it counts the caller out under the guard again. A guarded section is one step.

* **`keyed_locks`**: exclusion, one mutex for a key, and no entry without a caller;
* **`entry_unheld`**: an entry outlives the last holder until that caller is counted out.
-/

namespace Re0Auth.Keyed

open Lib Function

/-- An entry: its mutex, and how many callers it counts. -/
structure Entry where
  locked : Bool
  refs : ℕ

/-- Where a caller is: it waits for the mutex, holds it, has given it back and is still counted, or
has returned from the release. -/
inductive Stage
  | waiting | holding | leaving | done
  deriving DecidableEq

/-- A call of `lock`, with the entry it has found. -/
structure Caller where
  key : String
  entry : ℕ
  stage : Stage

/-- The map, the entries that were allocated and the callers, in the order of their calls. -/
structure State where
  m : Dict String ℕ
  next : ℕ
  heap : ℕ → Entry
  callers : List Caller

/-- No caller yet. -/
def State.init : State := ⟨∅, 0, fun _ => ⟨false, 0⟩, []⟩

inductive Event
  | lock (key : String)
  | acquire (i : ℕ)
  | unlock (i : ℕ)
  | leave (i : ℕ)

namespace State

/-- The first guarded section: the entry of the key is found, or allocated, and counts the caller. -/
def lock (s : State) (key : String) : State :=
  match s.m.get key with
  | some e => { s with
    heap := update s.heap e { s.heap e with refs := (s.heap e).refs + 1 }
    callers := s.callers ++ [⟨key, e, .waiting⟩] }
  | none => {
    m := s.m.set key s.next
    next := s.next + 1
    heap := update s.heap s.next ⟨false, 1⟩
    callers := s.callers ++ [⟨key, s.next, .waiting⟩] }

/-- A caller goes on, and its entry with it. -/
def move (s : State) (i : ℕ) (c : Caller) (stage : Stage) (e : Entry) : State :=
  { s with heap := update s.heap c.entry e, callers := s.callers.set i { c with stage } }

/-- One step: a caller whose turn it is not cannot take it. -/
def step (s : State) : Event → Option State
  | .lock key => some (s.lock key)
  | .acquire i => s.callers[i]?.bind fun c =>
    let e := s.heap c.entry
    if c.stage = .waiting ∧ e.locked = false then some (s.move i c .holding { e with locked := true })
    else none
  | .unlock i => s.callers[i]?.bind fun c =>
    let e := s.heap c.entry
    if c.stage = .holding then some (s.move i c .leaving { e with locked := false }) else none
  | .leave i => s.callers[i]?.bind fun c =>
    let e := { s.heap c.entry with refs := (s.heap c.entry).refs - 1 }
    if c.stage = .leaving then
      some { s.move i c .done e with m := if e.refs = 0 then s.m.del c.key else s.m }
    else none

/-- The calls of a key that have not returned from their release. -/
def active (s : State) (key : String) : ℕ :=
  s.callers.countP fun c => c.key = key ∧ c.stage ≠ .done

/-- **Invariant**: the entry of a key counts its calls, which all have found it, and its mutex is
locked while one of them holds it. -/
structure Sound (s : State) : Prop where
  found (i : ℕ) (c : Caller) : s.callers[i]? = some c → c.stage ≠ .done → s.m.get c.key = some c.entry
  refs (key : String) (e : ℕ) : s.m.get key = some e →
    e < s.next ∧ (s.heap e).refs = s.active key ∧ 0 < s.active key
  apart (key key' : String) (e : ℕ) : s.m.get key = some e → s.m.get key' = some e → key = key'
  held (i : ℕ) (c : Caller) : s.callers[i]? = some c → c.stage = .holding →
    (s.heap c.entry).locked = true ∧ ∀ j c', s.callers[j]? = some c' → c'.stage = .holding →
      c'.entry = c.entry → i = j

variable {s s' : State} {i : ℕ} {c : Caller}

theorem active_pos_iff (s : State) (key : String) : 0 < s.active key ↔
    ∃ (i : ℕ) (c : Caller), s.callers[i]? = some c ∧ c.key = key ∧ c.stage ≠ .done := by
  simp only [active, List.countP_pos_iff, List.mem_iff_getElem?]
  grind

theorem active_set {stage : Stage} (hi : s.callers[i]? = some c)
    (hs : s'.callers = s.callers.set i { c with stage }) (key : String) :
    s'.active key + (if c.key = key ∧ c.stage ≠ .done then 1 else 0) =
      s.active key + if c.key = key ∧ stage ≠ .done then 1 else 0 := by
  have hpos := fun h => (s.active_pos_iff key).2 ⟨i, c, hi, h⟩
  obtain ⟨hlt, rfl⟩ := List.getElem?_eq_some_iff.1 hi
  simp only [active, hs, List.countP_set hlt] at hpos ⊢
  grind

theorem active_lock (s : State) (key key' : String) :
    (s.lock key).active key' = s.active key' + if key = key' then 1 else 0 := by
  unfold active State.lock
  split <;> simp [List.countP_append, List.countP_cons]

theorem Sound.lock (h : s.Sound) (key : String) : (s.lock key).Sound := by
  have hactive := s.active_lock key
  obtain ⟨hfound, hrefs, hapart, hheld⟩ := h
  have hnone : s.m.get key = none → s.active key = 0 := by
    intro hkey
    rw [← Nat.le_zero, ← Nat.not_lt, active_pos_iff]
    grind
  unfold State.lock at hactive ⊢
  split
  all_goals
    rename_i hkey
    simp only [hkey] at hactive
    constructor
  all_goals
    simp only [hactive, Dict.get_set, update_apply, List.getElem?_append]
    grind

/-- **Step lemma.** -/
theorem Sound.step (h : s.Sound) {e : Event} (hs : s.step e = some s') : s'.Sound := by
  cases e with
  | lock key =>
    cases hs
    exact h.lock key
  | acquire i | unlock i | leave i =>
    obtain ⟨c, hi, hs⟩ := Option.bind_eq_some_iff.1 hs
    obtain ⟨hstage, hs⟩ := Option.ite_none_right_eq_some.1 hs
    have hs := Option.some.inj hs
    have hactive := active_set hi (congrArg callers hs.symm)
    have hothers := s'.active_pos_iff
    obtain ⟨hfound, hrefs, hapart, hheld⟩ := h
    constructor
    all_goals
      generalize s'.active = act at *
      subst hs
      simp only [move, update_apply, List.getElem?_set] at hothers ⊢
      grind [Dict.get_del]

/-- The invariant, along every run. -/
theorem sound_of_run {es : List Event} (h : es.foldlM State.step .init = some s) : s.Sound :=
  foldlM_induct (by constructor <;> simp [init]) (fun _ _ _ _ hs hn => hs.step hn) h

end State

/-- **Keyed locks exclude and clean up**: in every interleaving at most one caller holds a key, all
callers of a key have the same mutex, the map has an entry exactly for the keys with a caller that has
not returned from its release, and it is empty when all have. -/
theorem keyed_locks {es : List Event} {s : State} (h : es.foldlM State.step .init = some s) :
    (∀ (i j : ℕ) (c c' : Caller), s.callers[i]? = some c → s.callers[j]? = some c' →
      c.key = c'.key → c.stage = .holding → c'.stage = .holding → i = j) ∧
    (∀ c ∈ s.callers, ∀ c' ∈ s.callers, c.key = c'.key → c.stage ≠ .done → c'.stage ≠ .done →
      c.entry = c'.entry) ∧
    (∀ key, s.m.get key ≠ none ↔ ∃ c ∈ s.callers, c.key = key ∧ c.stage ≠ .done) ∧
    ((∀ c ∈ s.callers, c.stage = .done) → s.m.keys = []) := by
  obtain ⟨hfound, hrefs, -, hheld⟩ := State.sound_of_run h
  have hactive := s.active_pos_iff
  have hentry : ∀ key, s.m.get key ≠ none ↔ ∃ c ∈ s.callers, c.key = key ∧ c.stage ≠ .done := by
    simp only [List.mem_iff_getElem?, Option.ne_none_iff_exists']
    grind
  refine ⟨by grind, ?_, hentry, fun hdone => ?_⟩
  · simp only [List.mem_iff_getElem?]
    grind
  · rw [List.eq_nil_iff_forall_not_mem]
    intro key hkey
    obtain ⟨v, hv⟩ := Dict.mem_keys_iff.1 hkey
    obtain ⟨c, hc, -, hactive⟩ := (hentry key).1 (by simp [hv])
    exact hactive (hdone c hc)

/-- A second caller of a key waits until the first has given the mutex back. -/
theorem keyed_locks_handed : ∃ s, [Event.lock "k", .acquire 0, .lock "k", .unlock 0, .acquire 1,
      .leave 0].foldlM State.step .init = some s ∧
    ((∀ c ∈ s.callers, c.stage = .done) → s.m.keys = []) := by
  have h : [Event.lock "k", .acquire 0, .lock "k", .unlock 0, .acquire 1,
    .leave 0].foldlM State.step .init = some _ := rfl
  exact ⟨_, h, (keyed_locks h).2.2.2⟩

/-- **An entry nobody holds or waits for**: its last caller has given the mutex back and is not
counted out yet. -/
theorem entry_unheld : ∃ s, [Event.lock "k", .acquire 0, .unlock 0].foldlM State.step .init = some s ∧
    s.m.get "k" ≠ none ∧ ∀ c ∈ s.callers, c.stage ≠ .holding ∧ c.stage ≠ .waiting :=
  ⟨_, rfl, by decide, by decide⟩

end Re0Auth.Keyed

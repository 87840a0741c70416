import Mathlib.Data.Rat.Floor

/-!
# Token buckets

A bucket holds at most `burst` tokens and gains `rate` of them in a tick, in exact arithmetic.

* **`TokenBucket.level`** is what the bucket holds at a time;
* **`TokenBucket.take`** spends tokens when they are there, **`TokenBucket.reserve`** spends them on
  credit and **`TokenBucket.refund`** gives them back;
* **`TokenBucket.Spends`** is what the callers of a bucket rely on: the level falls by what was granted.
-/

namespace Lib

/-- **Token bucket**: the tokens it held when it was last changed, and the time of that change. -/
structure TokenBucket where
  tokens : ℚ
  last : ℤ

namespace TokenBucket

variable (rate burst : ℚ)

/-- A bucket nobody has spent from. -/
def full (t : ℤ) : TokenBucket := ⟨burst, t⟩

/-- The tokens at a time; a reading before the last change counts as that change. -/
def level (b : TokenBucket) (t : ℤ) : ℚ := min burst (b.tokens + rate * max 0 ((t : ℚ) - b.last))

/-- Spend tokens whether or not the bucket has them. -/
def reserve (b : TokenBucket) (t n : ℤ) : TokenBucket := ⟨b.level rate burst t - n, t⟩

/-- Give tokens back, up to a full bucket. -/
def refund (b : TokenBucket) (t n : ℤ) : TokenBucket := ⟨min burst (b.level rate burst t + n), t⟩

/-- Spend tokens if the bucket has them. -/
def take (b : TokenBucket) (t n : ℤ) : Bool × TokenBucket :=
  if n ≤ burst ∧ n ≤ b.level rate burst t then (true, b.reserve rate burst t n) else (false, b)

section

variable {rate burst} {b b' : TokenBucket} {t t' n : ℤ}

theorem level_le : b.level rate burst t ≤ burst := min_le_left _ _

theorem level_now {q : ℚ} : (⟨q, t⟩ : TokenBucket).level rate burst t = min burst q := by
  simp [level]

theorem level_nonneg (hr : 0 ≤ rate) (hb : 0 ≤ burst) (h : 0 ≤ b.tokens) : 0 ≤ b.level rate burst t :=
  le_min hb (add_nonneg h (mul_nonneg hr (le_max_left _ _)))

/-- A bucket left alone for long enough is as good as full. -/
theorem le_level_of_idle {ε : ℚ} (hε : 0 ≤ ε) (hb : 0 ≤ b.tokens)
    (h : burst ≤ rate * (t - b.last) + ε) (hr : 0 ≤ rate) : burst - ε ≤ b.level rate burst t := by
  refine le_min (sub_le_self _ hε) ?_
  have hmax : rate * (t - b.last) ≤ rate * max 0 ((t : ℚ) - b.last) := by
    gcongr
    exact le_max_right _ _
  linarith

/-- **Spending**: the level falls by what is granted, if anything is, and no debt is made. -/
structure Spends (rate burst : ℚ) (b : TokenBucket) (t n : ℤ) (ok : Bool) (b' : TokenBucket) : Prop where
  level : b'.level rate burst t + (if ok then n else 0) ≤ b.level rate burst t
  tokens : 0 ≤ rate → 0 ≤ b.tokens → 0 ≤ b'.tokens
  last : b'.last = b.last ∨ b'.last = t

theorem Spends.of_take (b : TokenBucket) (t n : ℤ) :
    Spends rate burst b t n (b.take rate burst t n).1 (b.take rate burst t n).2 := by
  unfold take
  split_ifs with h
  · refine ⟨?_, fun _ _ => sub_nonneg.2 h.2, .inr rfl⟩
    have hlevel := min_le_right burst (b.level rate burst t - n)
    rw [reserve, level_now, if_pos rfl]
    linarith
  · exact ⟨by simp, fun _ => id, .inl rfl⟩

/-- Bringing the record of a bucket up to date spends nothing. -/
theorem Spends.settle {ok : Bool} (hb : 0 ≤ burst) (h : Spends rate burst b t n ok b') :
    Spends rate burst b t n ok ⟨b'.level rate burst t, t⟩ where
  level := by
    rw [level_now, min_eq_right level_le]
    exact h.level
  tokens hr htokens := level_nonneg hr hb (h.tokens hr htokens)
  last := .inr rfl

/-- What is reserved and given back at once has not been spent. -/
theorem refund_reserve (h : 0 ≤ n) :
    (b.reserve rate burst t n).refund rate burst t n = ⟨b.level rate burst t, t⟩ := by
  have hn : (0 : ℚ) ≤ n := by exact_mod_cast h
  have hle : b.level rate burst t ≤ burst := level_le
  have hless : b.level rate burst t - n ≤ burst := by linarith
  rw [reserve, refund, level_now, min_eq_right hless, sub_add_cancel, min_eq_right hle]

end

end TokenBucket

end Lib

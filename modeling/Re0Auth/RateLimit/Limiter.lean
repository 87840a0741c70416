import Mathlib.Algebra.BigOperators.Fin
import Mathlib.Algebra.Order.BigOperators.Group.Finset
import Re0Auth.Lib.Dict
import Re0Auth.Lib.TokenBucket

/-!
# The rate limiter

The per-key limiter of `internal/ratelimit`: sixteen shards, each with the buckets of the keys it tracks
and one overflow bucket for the keys it has no room for. The bucket library is an exact token bucket
(`Lib/TokenBucket`); times are readings of the monotonic clock in nanoseconds, and the order in which Go
walks a map is an argument of the call.

* **`bucketLocked`** finds the bucket a key is limited by, **`reclaimLocked`** makes room for a new one;
* **`allowN`** and **`check`** are the two calls, **`Limiter.after`** is the table after any sequence of them;
* **`bucketLocked_found`** says once which of four things a call can find.
-/

namespace Re0Auth.RateLimit

open Lib

/-- **Bucket**: the tokens of one key and the time it was last asked for. -/
structure Bucket where
  limiter : TokenBucket
  lastSeen : ℤ

/-- **Shard**: the buckets of the tracked keys, and the one the untracked keys share once it is needed. -/
structure Shard where
  buckets : Dict String Bucket
  overflow : Option Bucket

/-- **Limiter**: the configuration; the shards are passed separately as a `Table`. -/
structure Limiter where
  limit : ℚ
  burst : ℤ
  ttl : ℤ
  maxKeys : ℤ

/-- The shards by their number. -/
abbrev Table := Fin 16 → Shard

/-- `WithTTL` and `WithMaxKeys`. -/
inductive Opt
  | withTTL (d : ℤ)
  | withMaxKeys (n : ℤ)

def Opt.apply (l : Limiter) : Opt → Limiter
  | .withTTL d => { l with ttl := d }
  | .withMaxKeys n => { l with maxKeys := n }

def defaultTTL : ℤ := 10 * 60 * 10 ^ 9

def defaultMaxKeys : ℤ := 10000

/-- `New`: the configuration. -/
def new (perSecond : ℚ) (burst : ℤ) (opts : List Opt) : Limiter :=
  opts.foldl Opt.apply ⟨perSecond, if burst ≤ 0 then 1 else burst, defaultTTL, defaultMaxKeys⟩

/-- `New`: the shards. -/
def newTable : Table := fun _ => ⟨∅, none⟩

/-- FNV-1a over the bytes of the key. -/
def shardFor (key : String) : Fin 16 :=
  Fin.ofNat 16 (key.toUTF8.data.foldl (fun h c => (h ^^^ c.toUInt32) * 16777619) (2166136261 : UInt32)).toNat

/-- `math.MaxInt64`. -/
def maxInt64 : ℤ := 2 ^ 63 - 1

/-- The buckets one insertion at the cap may look at. -/
def reclaimScan : ℕ := 64

/-- `Size`: the tracked keys over all shards. -/
def size (σ : Table) : ℕ := ∑ i, (σ i).buckets.size

namespace Limiter

variable (l : Limiter)

def perShard : ℤ :=
  let per := (l.maxKeys + 16 - 1).tdiv 16
  if per < 1 then 1 else per

/-- The tokens a bucket gains in a nanosecond. -/
def rate : ℚ := l.limit / 10 ^ 9

def refillWindow : ℤ :=
  if l.limit ≤ 0 then 0
  else
    let d : ℚ := 10 ^ 9 * l.burst / l.limit
    if d ≤ 0 ∨ d > maxInt64 then maxInt64 else ⌊d⌋

def reclaimWindow : ℤ :=
  let w := l.refillWindow
  if l.ttl > w then l.ttl else w

/-- `rate.NewLimiter` in a bucket seen now. -/
def newBucket (now : ℤ) : Bucket := ⟨.full l.burst now, now⟩

/-- The tokens in a bucket at a time. -/
def level (b : Bucket) (t : ℤ) : ℚ := b.limiter.level l.rate l.burst t

/-- Drops the first bucket of the sample that has been idle for the whole window. -/
def reclaimLocked (s : Shard) (now : ℤ) (order : List String) : Option Shard :=
  let idle key := (s.buckets.get key).any fun b => l.reclaimWindow ≤ now - b.lastSeen
  ((order.take reclaimScan).find? idle).map fun key => { s with buckets := s.buckets.del key }

/-- The bucket of the key, whether it is the overflow bucket, and the shard it is to be put into. -/
def bucketLocked (s : Shard) (key : String) (now : ℤ) (order : List String) : Bool × Bucket × Shard :=
  match s.buckets.get key with
  | some b => (false, { b with lastSeen := now }, s)
  | none =>
    match if s.buckets.size ≥ l.perShard then l.reclaimLocked s now order else some s with
    | none => (true, { s.overflow.getD (l.newBucket now) with lastSeen := now }, s)
    | some s => (false, l.newBucket now, s)

/-- The bucket a call has changed, back in its place. -/
def put (shared : Bool) (key : String) (b : Bucket) (s : Shard) : Shard :=
  if shared then { s with overflow := some b } else { s with buckets := s.buckets.set key b }

/-- One critical section: find the bucket of the key and use it. -/
def withBucket {α : Type} (σ : Table) (key : String) (now : ℤ) (order : List String)
    (use : Bool → TokenBucket → α × TokenBucket) : α × Table :=
  let (shared, b, s) := l.bucketLocked (σ (shardFor key)) key now order
  let (a, limiter) := use shared b.limiter
  (a, Function.update σ (shardFor key) (put shared key { b with limiter } s))

def allowN (σ : Table) (key : String) (n now : ℤ) (order : List String) : Bool × Table :=
  l.withBucket σ key now order fun _ b => b.take l.rate l.burst now n

/-- **Verdict**: the answer of `Check`. -/
structure Verdict where
  allowed : Bool
  limit : ℤ
  remaining : ℤ
  reset : ℤ
  shared : Bool

/-- Takes one token, reads the level, and reserves one more token to see how long it would take. -/
def verdict (now : ℤ) (shared : Bool) (b : TokenBucket) : Verdict × TokenBucket :=
  let (allowed, b) := b.take l.rate l.burst now 1
  let left := b.level l.rate l.burst now
  if 1 ≤ l.burst then
    (⟨allowed, l.burst, ⌊left⌋, ⌊max 0 (1 - left) / l.rate⌋, shared⟩,
      (b.reserve l.rate l.burst now 1).refund l.rate l.burst now 1)
  else (⟨allowed, l.burst, ⌊left⌋, 0, shared⟩, b)

def check (σ : Table) (key : String) (now : ℤ) (order : List String) : Verdict × Table :=
  l.withBucket σ key now order (l.verdict now)

end Limiter

/-! ## Sequences of calls -/

/-- The call of an event: `AllowN` with its count, or `Check`. -/
inductive Call
  | allowN (n : ℤ)
  | check

/-- The events a call asks for. -/
def Call.count : Call → ℤ
  | .allowN n => n
  | .check => 1

/-- **Event**: a call for a key at a time, and the order in which it would walk the map. -/
structure Event where
  key : String
  call : Call
  now : ℤ
  order : List String

namespace Limiter

variable (l : Limiter)

/-- Whether the event is admitted, and the table it leaves. -/
def step (σ : Table) (e : Event) : Bool × Table :=
  match e.call with
  | .allowN n => l.allowN σ e.key n e.now e.order
  | .check =>
    let (v, σ') := l.check σ e.key e.now e.order
    (v.allowed, σ')

/-- The table after a sequence of calls. -/
def after (es : List Event) : Table := es.foldl (fun σ e => (l.step σ e).2) newTable

end Limiter

/-! ## What a call finds -/

section

variable {l : Limiter} {s s' : Shard} {key : String} {now : ℤ} {order : List String}

/-- A bucket that is dropped has been idle for the whole window. -/
theorem reclaimLocked_eq_some (h : l.reclaimLocked s now order = some s') :
    ∃ k b, s.buckets.get k = some b ∧ l.reclaimWindow ≤ now - b.lastSeen ∧
      s' = { s with buckets := s.buckets.del k } := by
  obtain ⟨k, hfind, rfl⟩ := Option.map_eq_some_iff.1 h
  have hidle := List.find?_some hfind
  obtain ⟨b, hget, hwindow⟩ := (Option.any_eq_true _ _).1 hidle
  exact ⟨k, b, hget, of_decide_eq_true hwindow, rfl⟩

/-- **Found**: the bucket a call uses and the shard it goes to: one of its own that the key has already, a
new one where there was room or where a bucket has been dropped, or the overflow bucket. -/
inductive Found (l : Limiter) (s : Shard) (key : String) (now : ℤ) : Bool → Bucket → Shard → Prop
  | tracked {b} (hget : s.buckets.get key = some b) : Found l s key now false { b with lastSeen := now } s
  | room (hget : s.buckets.get key = none) (hroom : s.buckets.size < l.perShard) :
      Found l s key now false (l.newBucket now) s
  | freed {k b} (hget : s.buckets.get key = none) (hold : s.buckets.get k = some b)
      (hidle : l.reclaimWindow ≤ now - b.lastSeen) :
      Found l s key now false (l.newBucket now) { s with buckets := s.buckets.del k }
  | shared (hget : s.buckets.get key = none) :
      Found l s key now true { s.overflow.getD (l.newBucket now) with lastSeen := now } s

theorem bucketLocked_found :
    Found l s key now (l.bucketLocked s key now order).1 (l.bucketLocked s key now order).2.1
      (l.bucketLocked s key now order).2.2 := by
  unfold Limiter.bucketLocked
  split
  · exact .tracked ‹_›
  · split
    · exact .shared ‹_›
    · rename_i hroom
      split_ifs at hroom with hsize
      · obtain ⟨k, b, hold, hidle, rfl⟩ := reclaimLocked_eq_some hroom
        exact .freed ‹_› hold hidle
      · cases hroom
        exact .room ‹_› (not_le.1 hsize)

/-- **Serves**: what a call does to the shard of its key, whether it is `AllowN` or `Check`. -/
inductive Serves (l : Limiter) (s : Shard) (e : Event) (ok : Bool) : Shard → Prop
  | mk {b s₀ limiter}
      (hfound : Found l s e.key e.now (l.bucketLocked s e.key e.now e.order).1 b s₀)
      (hspends : TokenBucket.Spends l.rate l.burst b.limiter e.now e.call.count ok limiter) :
      Serves l s e ok (Limiter.put (l.bucketLocked s e.key e.now e.order).1 e.key { b with limiter } s₀)

end

theorem verdict_spends (l : Limiter) (now : ℤ) (shared : Bool) (b : TokenBucket) :
    TokenBucket.Spends l.rate l.burst b now 1 (l.verdict now shared b).1.allowed (l.verdict now shared b).2 := by
  have htake : TokenBucket.Spends l.rate l.burst b now 1 _ _ := .of_take b now 1
  unfold Limiter.verdict
  generalize b.take l.rate l.burst now 1 = p at htake ⊢
  obtain ⟨allowed, b'⟩ := p
  split_ifs with hb
  · have hburst : (0 : ℚ) ≤ l.burst := by exact_mod_cast zero_le_one.trans hb
    dsimp only
    rw [TokenBucket.refund_reserve zero_le_one]
    exact htake.settle hburst
  · exact htake

/-- A call changes the shard of its key and no other. -/
theorem step_serves (l : Limiter) (σ : Table) (e : Event) :
    ∃ s', Serves l (σ (shardFor e.key)) e (l.step σ e).1 s' ∧
      (l.step σ e).2 = Function.update σ (shardFor e.key) s' := by
  obtain ⟨key, call, now, order⟩ := e
  cases call with
  | allowN n => exact ⟨_, .mk bucketLocked_found (.of_take ..), rfl⟩
  | check => exact ⟨_, .mk bucketLocked_found (verdict_spends ..), rfl⟩

/-- What every shard has and a call leaves in the shard of its key, every shard has after the call. -/
theorem step_keeps {l : Limiter} {σ : Table} {e : Event} {P : Shard → Prop} (h : ∀ i, P (σ i))
    (hserves : ∀ s', Serves l (σ (shardFor e.key)) e (l.step σ e).1 s' → P s') (i : Fin 16) :
    P ((l.step σ e).2 i) := by
  obtain ⟨s', hs', hstep⟩ := step_serves l σ e
  rw [hstep, Function.update_apply]
  split_ifs
  · exact hserves s' hs'
  · exact h i

/-! ## The cap -/

section

variable {l : Limiter} {s s' : Shard} {e : Event} {ok : Bool}

/-- A shard never holds more keys than its share of the cap. -/
theorem Serves.size_le (h : Serves l s e ok s') (hs : s.buckets.size ≤ l.perShard) :
    s'.buckets.size ≤ l.perShard := by
  obtain ⟨hfound, -⟩ := h
  generalize (l.bucketLocked s e.key e.now e.order).1 = shared at hfound ⊢
  cases hfound with
  | tracked hget =>
    rw [Limiter.put, if_neg Bool.false_ne_true, Dict.size_set, Dict.size_del hget]
    exact hs
  | room hget hroom =>
    have hdel := (Dict.sub_del s.buckets e.key).size_le
    rw [Limiter.put, if_neg Bool.false_ne_true, Dict.size_set]
    push_cast
    omega
  | @freed k b hget hold _ =>
    have hdel := (Dict.sub_del (s.buckets.del k) e.key).size_le
    have hold := Dict.size_del hold
    rw [Limiter.put, if_neg Bool.false_ne_true, Dict.size_set]
    push_cast
    omega
  | shared _ => exact hs

end

theorem perShard_pos (l : Limiter) : 0 < l.perShard := by
  unfold Limiter.perShard
  dsimp only
  split_ifs <;> omega

/-- After any sequence of calls every shard is within its share of the cap. -/
theorem shard_size_le (l : Limiter) (es : List Event) : ∀ i, (l.after es i).buckets.size ≤ l.perShard := by
  refine List.foldlRecOn (motive := fun σ : Table => ∀ i, (σ i).buckets.size ≤ l.perShard) es _ ?_ ?_
  · exact fun _ => (perShard_pos l).le
  · exact fun σ hσ e _ => step_keeps hσ fun s' hserves => hserves.size_le (hσ _)

/-- **Sound bucket** of a run from `t` to `now`: it owes nothing and was changed no later than seen. -/
structure Bucket.Sound (t now : ℤ) (b : Bucket) : Prop where
  tokens : 0 ≤ b.limiter.tokens
  last : b.limiter.last ≤ b.lastSeen
  since : t ≤ b.lastSeen
  past : b.lastSeen ≤ now

/-- The buckets of the tracked keys are sound. -/
def Shard.Sound (t now : ℤ) (s : Shard) : Prop := ∀ k b, s.buckets.get k = some b → b.Sound t now

section

variable {l : Limiter} {s s' : Shard} {b : Bucket} {e : Event} {ok : Bool} {t now : ℤ}
  {opts : List Opt} {perSecond : ℚ} {burst : ℤ}

/-- A bucket that is used now stays sound. -/
theorem Bucket.Sound.spends {n : ℤ} {limiter : TokenBucket} (hr : 0 ≤ l.rate) (h : b.Sound t now)
    (hspends : TokenBucket.Spends l.rate l.burst b.limiter now n ok limiter) :
    Bucket.Sound t now ⟨limiter, now⟩ where
  tokens := hspends.tokens hr h.tokens
  last := by
    obtain hlast | hlast := hspends.last
    · exact hlast.le.trans (h.last.trans h.past)
    · exact hlast.le
  since := h.since.trans h.past
  past := le_rfl

/-- **Step lemma.** -/
theorem Serves.sound (h : Serves l s e ok s') (hr : 0 ≤ l.rate) (hb : 1 ≤ l.burst)
    (hnow : t ≤ e.now) (hs : s.Sound t e.now) : s'.Sound t e.now := by
  have hnew : (l.newBucket e.now).Sound t e.now :=
    ⟨Int.cast_nonneg (zero_le_one.trans hb), le_rfl, hnow, le_rfl⟩
  obtain ⟨hfound, hspends⟩ := h
  generalize (l.bucketLocked s e.key e.now e.order).1 = shared at hfound ⊢
  intro k b' hget
  cases hfound with
  | tracked hold =>
    obtain hget | ⟨-, rfl⟩ := Dict.get_of_get_set hget
    · exact hs k b' hget
    · exact (hs _ _ hold).spends hr hspends
  | room =>
    obtain hget | ⟨-, rfl⟩ := Dict.get_of_get_set hget
    · exact hs k b' hget
    · exact hnew.spends hr hspends
  | freed =>
    obtain hget | ⟨-, rfl⟩ := Dict.get_of_get_set hget
    · exact hs k b' (Dict.get_of_get_del hget).1
    · exact hnew.spends hr hspends
  | shared => exact hs k b' hget

/-- **Run lemma**: the times of the calls do not decrease. -/
theorem foldl_sound (hr : 0 ≤ l.rate) (hb : 1 ≤ l.burst) : ∀ (es : List Event) {σ : Table} {c : ℤ},
    t ≤ c → (∀ i, (σ i).Sound t c) → (c :: es.map Event.now ++ [now]).IsChain (· ≤ ·) →
    ∀ i, (es.foldl (fun σ e => (l.step σ e).2) σ i).Sound t now
  | [], σ, c, _, hσ, h => fun i k b hget =>
    { hσ i k b hget with past := (hσ i k b hget).past.trans (List.isChain_pair.1 h) }
  | e :: es, σ, c, hc, hσ, h => by
    obtain ⟨hle, h⟩ := List.isChain_cons_cons.1 h
    have hσ : ∀ i, (σ i).Sound t e.now := fun i k b hget =>
      { hσ i k b hget with past := (hσ i k b hget).past.trans hle }
    exact foldl_sound hr hb es (hc.trans hle)
      (step_keeps hσ fun s' hs => hs.sound hr hb (hc.trans hle) (hσ _)) h

theorem new_config (h : new perSecond burst opts = l) : l.limit = perSecond ∧ 1 ≤ l.burst := by
  rw [← h]
  refine List.foldlRecOn (motive := fun l : Limiter => l.limit = perSecond ∧ 1 ≤ l.burst) opts _ ⟨rfl, ?_⟩ ?_
  · dsimp only
    split_ifs <;> omega
  · rintro l h (_ | _) -
    · exact h
    · exact h

/-- The window is long enough for an empty bucket to fill, up to a nanosecond. -/
theorem burst_le_of_idle {d : ℤ} (hl : 0 < l.limit) (hb : 1 ≤ l.burst) (hd : d < maxInt64)
    (h : l.reclaimWindow ≤ d) : (l.burst : ℚ) ≤ l.rate * d + l.rate := by
  have hrefill : l.refillWindow ≤ d := by
    unfold Limiter.reclaimWindow at h
    dsimp only at h
    split_ifs at h <;> omega
  have hb : (0 : ℚ) < l.burst := by exact_mod_cast hb
  rw [Limiter.refillWindow, if_neg (not_le.2 hl)] at hrefill
  dsimp only at hrefill
  split_ifs at hrefill with hlong
  · exact absurd hrefill (not_le.2 hd)
  have hfloor := (Int.floor_lt.1 (Int.lt_add_one_iff.2 hrefill)).le
  rw [div_le_iff₀ hl] at hfloor
  push_cast at hfloor
  rw [Limiter.rate, ← mul_add_one, div_mul_eq_mul_div, le_div_iff₀ (by norm_num)]
  linarith

end

/-- **Reclaiming is free**: a bucket that is dropped in any run is full, up to what refills in a
nanosecond. Two readings of the monotonic clock differ by less than the longest duration. -/
theorem dropped_bucket_full {perSecond : ℚ} {burst t now : ℤ} {opts : List Opt} {es : List Event}
    {order : List String} {i : Fin 16} {l : Limiter} {s' : Shard} (hl : new perSecond burst opts = l)
    (hr : 0 < perSecond) (hes : (t :: es.map Event.now ++ [now]).IsChain (· ≤ ·))
    (hspan : now - t < maxInt64)
    (h : l.reclaimLocked (l.after es i) now order = some s') :
    ∃ k b, (l.after es i).buckets.get k = some b ∧ s'.buckets = (l.after es i).buckets.del k ∧
      l.burst - l.rate ≤ l.level b now := by
  obtain ⟨rfl, hb⟩ := new_config hl
  have hrate : 0 ≤ l.rate := (div_pos hr (by norm_num)).le
  obtain ⟨k, b, hget, hidle, rfl⟩ := reclaimLocked_eq_some h
  have hsound := foldl_sound hrate hb es le_rfl (fun _ _ _ hget => by cases hget) hes i k b hget
  refine ⟨k, b, hget, rfl, TokenBucket.le_level_of_idle hrate hsound.tokens ?_ hrate⟩
  have hsince := hsound.since
  have hseen := burst_le_of_idle hr hb (by omega) hidle
  have hlast : l.rate * (now - b.lastSeen) ≤ l.rate * (now - b.limiter.last) := by
    have := hsound.last
    gcongr
  push_cast at hseen
  linarith

theorem dropped_bucket_full_second : ∃ k b,
    ((new 1 1 [.withTTL (-1)]).after [⟨"a", .check, 1, []⟩] (shardFor "a")).buckets.get k = some b ∧
      1 - 1 / 10 ^ 9 ≤ (new 1 1 [.withTTL (-1)]).level b (10 ^ 9 + 1) := by
  obtain ⟨s', h⟩ := Option.isSome_iff_exists.1 (show ((new 1 1 [.withTTL (-1)]).reclaimLocked
    ((new 1 1 [.withTTL (-1)]).after [⟨"a", .check, 1, []⟩] (shardFor "a")) (10 ^ 9 + 1) ["a"]).isSome by
      decide +kernel)
  obtain ⟨k, b, hget, -, hfull⟩ := dropped_bucket_full (t := 1) rfl one_pos (by decide) (by decide) h
  exact ⟨k, b, hget, by simpa [new, Limiter.rate, Opt.apply] using hfull⟩

end Re0Auth.RateLimit

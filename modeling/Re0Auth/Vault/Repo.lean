import Mathlib.Data.Prod.Lex
import Mathlib.Data.String.Basic
import Re0Auth.Lib.Search
import Re0Auth.OAuth.Client

/-!
# Credential records

The records of the credential vault and their in-memory store (`vault/repo.go`).

* **`Identity`**, **`Record`**, **`Envelope`**: what is stored, and the part of it a key rotation
  replaces;
* **`MemoryRepo`**: a map of records with the list of its keys in order, each operation of which the
  source runs under the store's lock;
* **`MemoryRepo.Tidy`**: the list is in order and holds the keys of the map, kept by every mutation;
  **`listPage_covers`** and **`get_deleteSubject`** say what the binary searches then find.
-/

namespace Re0Auth.Vault

open Lib OAuth Dict List Option

/-- Byte strings. -/
abbrev Bytes := List UInt8

/-- `Identity`: names one stored credential. -/
structure Identity where
  subject : String
  provider : String
  deriving DecidableEq, Repr, Inhabited

/-- `maxIdentityFieldLen`. -/
def maxIdentityFieldLen : ℕ := 1024

/-- `validate`: both fields are there and not over-long. -/
def Identity.validate (i : Identity) : Bool :=
  i.subject != "" && i.provider != "" && decide (i.subject.utf8ByteSize ≤ maxIdentityFieldLen) &&
    decide (i.provider.utf8ByteSize ≤ maxIdentityFieldLen)

/-- `identityLess`: the order of every listing and cursor. -/
def identityLess (a b : Identity) : Bool :=
  if a.subject ≠ b.subject then decide (a.subject < b.subject) else decide (a.provider < b.provider)

/-- Identities in that order. -/
instance : LinearOrder Identity :=
  LinearOrder.lift' (fun i => toLex (i.subject, i.provider)) fun a b h => by
    cases a
    cases b
    simpa using h

theorem identityLess_iff {a b : Identity} : identityLess a b = true ↔ a < b := by
  have hlt : a < b ↔ toLex (a.subject, a.provider) < toLex (b.subject, b.provider) := .rfl
  rw [hlt, Prod.Lex.toLex_lt_toLex, identityLess]
  by_cases hs : a.subject = b.subject
  · simp [hs]
  · simp [hs]

/-- `Record`: the at-rest form of one credential. -/
structure Record where
  identity : Identity
  version : UInt8
  wrappedDEK : Bytes
  kekID : String
  nonce : Bytes
  ciphertext : Bytes
  meta_ : List (String × String)
  createdAt : Time
  updatedAt : Time
  deriving DecidableEq, Repr, Inhabited

/-- `Envelope`: what a key rotation replaces. -/
structure Envelope where
  kekID : String
  wrappedDEK : Bytes
  updatedAt : Time
  deriving DecidableEq, Repr

/-- A record with its envelope replaced. -/
def Record.rewrapped (rec : Record) (next : Envelope) : Record :=
  { rec with wrappedDEK := next.wrappedDEK, kekID := next.kekID, updatedAt := next.updatedAt }

/-- `MemoryRepo`. -/
structure MemoryRepo where
  records : Dict Identity Record
  /-- The keys in `identityLess` order. -/
  ids : List Identity

namespace MemoryRepo

/-- `NewMemoryRepo`. -/
def empty : MemoryRepo := ⟨∅, []⟩

variable (r : MemoryRepo)

/-- `indexOf`: the position of an identity, or where it must be inserted. -/
def indexOf (id : Identity) : ℕ := position r.ids fun a => !identityLess a id

/-- **`Put`**. -/
def put (rec : Record) : MemoryRepo where
  records := r.records.set rec.identity rec
  ids :=
    match r.records.get rec.identity with
    | some _ => r.ids
    | none => r.ids.take (r.indexOf rec.identity) ++
      rec.identity :: r.ids.drop (r.indexOf rec.identity)

/-- **`RewrapIfUnchanged`**: compare and write in one step. -/
def rewrapIfUnchanged (id : Identity) (expect : Bytes) (next : Envelope) : Bool × MemoryRepo :=
  match r.records.get id with
  | none => (false, r)
  | some rec =>
    if rec.wrappedDEK ≠ expect then (false, r)
    else (true, { r with records := r.records.set id (rec.rewrapped next) })

/-- **`Get`**; `none` is `ErrNotFound`. -/
def get (id : Identity) : Option Record := r.records.get id

/-- **`Delete`**; `none` is `ErrNotFound`. -/
def delete (id : Identity) : Option MemoryRepo :=
  match r.records.get id with
  | none => none
  | some _ => some {
    records := r.records.del id
    ids := if r.ids[r.indexOf id]? = some id
      then r.ids.take (r.indexOf id) ++ r.ids.drop (r.indexOf id + 1) else r.ids }

/-- `recordAfter`: an empty cursor is the start of the list. -/
def recordAfter (id : Identity) (subject provider : String) : Bool :=
  if subject = "" ∧ provider = "" then true
  else if id.subject ≠ subject then decide (subject < id.subject) else decide (provider < id.provider)

/-- **`ListPage`**: the records after the cursor. -/
def listPage (afterSubject afterProvider : String) (limit : ℕ) : List Record :=
  let pos := position r.ids fun id => recordAfter id afterSubject afterProvider
  ((r.ids.drop pos).take (if limit = 0 then 1 else limit)).map fun id =>
    (r.records.get id).getD default

/-- **`DeleteSubject`**: the records of a subject are one run of the list. -/
def deleteSubject (subject : String) : Except Unit (ℕ × MemoryRepo) :=
  if subject = "" then .error ()
  else
    let lo := position r.ids fun id => !decide (id.subject < subject)
    let run := (r.ids.drop lo).takeWhile fun id => id.subject == subject
    .ok (run.length, {
      records := run.foldl Dict.del r.records
      ids := r.ids.take lo ++ r.ids.drop (lo + run.length) })

/-! ## The index -/

/-- **Tidy**: the list of the keys is in strict order, holds the keys of the map, and a record lies under
its own identity, of which both fields are set. -/
structure Tidy (r : MemoryRepo) : Prop where
  sorted : r.ids.Pairwise (· < ·)
  complete : ∀ id, id ∈ r.ids ↔ ∃ rec, r.get id = some rec
  keyed : ∀ id rec, r.get id = some rec → rec.identity = id
  named : ∀ id ∈ r.ids, id.subject ≠ ""

variable {r : MemoryRepo} {id id' : Identity} {rec : Record} {r' : MemoryRepo} {n : ℕ}
  {subject provider : String} {limit : ℕ}

theorem indexOf_eq_rank : r.indexOf id = rank r.ids id := by
  unfold indexOf rank
  congr 1
  funext a
  by_cases h : a < id
  · simp [h, identityLess_iff.2 h]
  · have hnot : identityLess a id = false := by
      by_contra hless
      exact h (identityLess_iff.1 (by simpa using hless))
    simp [h, hnot]

theorem tidy_empty : Tidy empty := by
  refine ⟨Pairwise.nil, fun id => ?_, nofun, nofun⟩
  simp [empty, get]

/-! ### Reads after writes -/

theorem get_put : (r.put rec).get id = if id = rec.identity then some rec else r.get id :=
  get_set ..

theorem get_delete (h : r.delete id' = some r') : r'.get id = if id = id' then none else r.get id := by
  unfold delete at h
  split at h
  · cases h
  · cases h
    exact get_del ..

/-- A re-wrap is refused, or it replaces the envelope of a record with the wrapped key expected. -/
theorem rewrapIfUnchanged_cases (r : MemoryRepo) (id : Identity) (expect : Bytes) (next : Envelope) :
    r.rewrapIfUnchanged id expect next = (false, r) ∨
      ∃ rec, r.get id = some rec ∧ rec.wrappedDEK = expect ∧ r.rewrapIfUnchanged id expect next =
          (true, { r with records := r.records.set id (rec.rewrapped next) }) := by
  unfold rewrapIfUnchanged get
  cases r.records.get id with
  | none => exact .inl rfl
  | some rec =>
    dsimp only
    split_ifs with hne
    · exact .inl rfl
    · exact .inr ⟨rec, rfl, not_not.1 hne, rfl⟩

theorem get_foldl_del (ids : List Identity) (m : Dict Identity Record) :
    (ids.foldl del m).get id = if id ∈ ids then none else m.get id := by
  induction ids generalizing m with
  | nil => simp
  | cons a ids ih =>
    rw [foldl_cons, ih, get_del]
    by_cases hid : id = a
    all_goals simp [hid]

/-! ### The index is kept -/

theorem Tidy.put (h : r.Tidy) (hname : rec.identity.subject ≠ "") : (r.put rec).Tidy := by
  have hids : (r.put rec).ids = if r.get rec.identity = none then insertSorted r.ids rec.identity
      else r.ids := by
    simp only [MemoryRepo.put, get]
    split <;> simp_all [insertSorted, indexOf_eq_rank]
  have hmem : ∀ id, id ∈ (r.put rec).ids ↔ id = rec.identity ∨ id ∈ r.ids := by
    intro id
    rw [hids]
    split_ifs with hnone
    · exact mem_insertSorted
    · refine ⟨.inr, ?_⟩
      rintro (rfl | hin)
      · exact (h.complete _).2 (ne_none_iff_exists'.1 hnone)
      · exact hin
  refine ⟨?_, fun id => ?_, fun id rec' hget => ?_, fun id hid => ?_⟩
  · rw [hids]
    split_ifs with hnone
    · refine sorted_insertSorted h.sorted fun hin => ?_
      obtain ⟨rec', hget⟩ := (h.complete _).1 hin
      rw [hnone] at hget
      cases hget
    · exact h.sorted
  · rw [hmem, get_put]
    split_ifs with hid
    · simp [hid]
    · simp [hid, h.complete]
  · rw [get_put] at hget
    split_ifs at hget with hid
    · cases hget
      exact hid.symm
    · exact h.keyed id rec' hget
  · rcases (hmem id).1 hid with rfl | hin
    · exact hname
    · exact h.named id hin

theorem Tidy.rewrapIfUnchanged (h : r.Tidy) (id : Identity) (expect : Bytes) (next : Envelope) :
    (r.rewrapIfUnchanged id expect next).2.Tidy := by
  obtain hsame | ⟨rec, hrec, -, heq⟩ := rewrapIfUnchanged_cases r id expect next
  · rw [hsame]
    exact h
  · rw [heq]
    have hget : ∀ id', get { r with records := r.records.set id (rec.rewrapped next) } id' =
        if id' = id then some (rec.rewrapped next) else r.get id' := fun id' => get_set ..
    refine ⟨h.sorted, fun id' => ?_, fun id' rec' hrec' => ?_, h.named⟩
    · rw [hget]
      split_ifs with hid
      · subst hid
        simpa using (h.complete id').2 ⟨rec, hrec⟩
      · exact h.complete id'
    · rw [hget] at hrec'
      split_ifs at hrec' with hid
      · cases hrec'
        subst hid
        exact h.keyed id' rec hrec
      · exact h.keyed id' rec' hrec'

theorem Tidy.delete (h : r.Tidy) (hr : r.delete id = some r') : r'.Tidy := by
  have hin : id ∈ r.ids := by
    unfold MemoryRepo.delete at hr
    split at hr
    · cases hr
    · exact (h.complete id).2 ⟨_, by assumption⟩
  have hids : r'.ids = eraseSorted r.ids id := by
    unfold MemoryRepo.delete at hr
    split at hr
    · cases hr
    · cases hr
      simp [eraseSorted, indexOf_eq_rank]
  refine ⟨?_, fun id' => ?_, fun id' rec hget => ?_, fun id' hid' => ?_⟩
  · rw [hids]
    exact sorted_eraseSorted h.sorted
  · rw [hids, mem_eraseSorted h.sorted hin, get_delete hr, h.complete]
    split_ifs with heq <;> simp [heq]
  · rw [get_delete hr] at hget
    split_ifs at hget
    exact h.keyed id' rec hget
  · rw [hids, mem_eraseSorted h.sorted hin] at hid'
    exact h.named id' hid'.1

/-! ### A subject's run of the index -/

theorem subject_le {a b : Identity} (h : a < b) : a.subject ≤ b.subject := by
  have hlt : toLex (a.subject, a.provider) < toLex (b.subject, b.provider) := h
  rcases Prod.Lex.toLex_lt_toLex.1 hlt with h | h
  · exact le_of_lt h
  · exact le_of_eq h.1

/-- The index without the run: what is of another subject, in the same order. -/
theorem deleteSubject_ids (h : r.Tidy) {subject : String} (hr : r.deleteSubject subject = .ok (n, r')) :
    r'.ids.Sublist r.ids ∧ (∀ id, id ∈ r'.ids ↔ id ∈ r.ids ∧ id.subject ≠ subject) ∧
      ∀ id, r'.get id = if id ∈ r.ids ∧ id.subject = subject then none else r.get id := by
  unfold deleteSubject at hr
  split_ifs at hr
  cases hr
  set lo := position r.ids fun id => !decide (id.subject < subject) with hlo
  have hmono : ∀ a b : Identity, a < b → (!decide (a.subject < subject)) = true →
      (!decide (b.subject < subject)) = true := by
    intro a b hab ha
    simp only [Bool.not_eq_true', decide_eq_false_iff_not, not_lt] at ha ⊢
    exact le_trans ha (subject_le hab)
  have htake := take_position h.sorted hmono
  have hdrop := drop_position h.sorted hmono
  have hsorted : (r.ids.drop lo).Pairwise (· < ·) := h.sorted.sublist (drop_sublist ..)
  obtain ⟨hrun, hrest⟩ := takeWhile_eq_filter (q := fun id => id.subject == subject) hsorted <| by
    intro a ha b hb hab hbs
    rw [hdrop] at ha
    have hle := (mem_filter.1 ha).2
    rw [Bool.not_eq_true', decide_eq_false_iff_not, not_lt] at hle
    have hbs : b.subject = subject := by simpa using hbs
    simpa using le_antisymm (hbs ▸ subject_le hab) hle
  have hafter : r.ids.drop (lo + ((r.ids.drop lo).takeWhile fun id => id.subject == subject).length) =
      (r.ids.drop lo).dropWhile fun id => id.subject == subject := by
    rw [← drop_drop]
    conv_lhs =>
      arg 2
      rw [← takeWhile_append_dropWhile (p := fun id : Identity => id.subject == subject) (l := r.ids.drop lo)]
    exact drop_left
  refine ⟨?_, fun id => ?_, fun id => ?_⟩
  · conv_rhs => rw [← take_append_drop lo r.ids]
    exact (Sublist.refl _).append (drop_sublist_drop_left r.ids (Nat.le_add_right ..))
  · grind
  · rw [get, get_foldl_del, hrun, hdrop]
    grind [get]

theorem get_deleteSubject (h : r.Tidy) {subject : String} (hr : r.deleteSubject subject = .ok (n, r')) :
    r'.get id = if id.subject = subject then none else r.get id := by
  rw [(deleteSubject_ids h hr).2.2 id]
  by_cases hid : id ∈ r.ids
  · simp [hid]
  · have hnone : r.get id = none := by
      by_contra hne
      exact hid ((h.complete id).2 (ne_none_iff_exists'.1 hne))
    simp [hid, hnone]

theorem Tidy.deleteSubject (h : r.Tidy) {subject : String}
    (hr : r.deleteSubject subject = .ok (n, r')) : r'.Tidy := by
  obtain ⟨hsub, hmem, -⟩ := deleteSubject_ids h hr
  refine ⟨h.sorted.sublist hsub, fun id => ?_, fun id rec hget => ?_, fun id hid => ?_⟩
  · rw [hmem, get_deleteSubject h hr, h.complete]
    split_ifs with hs <;> simp [hs]
  · rw [get_deleteSubject h hr] at hget
    split_ifs at hget
    exact h.keyed id rec hget
  · exact h.named id ((hmem id).1 hid).1

/-! ### Pages -/

/-- A cursor that is not empty is followed by the identities greater than it. -/
theorem recordAfter_iff (cursor : Identity) (hc : ¬(cursor.subject = "" ∧ cursor.provider = "")) :
    recordAfter id cursor.subject cursor.provider = true ↔ cursor < id := by
  rw [← identityLess_iff, recordAfter, if_neg hc, identityLess]
  by_cases hs : id.subject = cursor.subject
  · simp [hs]
  · simp [hs, Ne.symm hs]

theorem recordAfter_of_lt {subject provider : String} (hlt : id < id')
    (h : recordAfter id subject provider = true) : recordAfter id' subject provider = true := by
  by_cases hempty : subject = "" ∧ provider = ""
  · simp [recordAfter, hempty]
  · have hcursor : ∀ id : Identity,
        recordAfter id subject provider = true ↔ (⟨subject, provider⟩ : Identity) < id :=
      fun id => recordAfter_iff ⟨subject, provider⟩ hempty
    exact (hcursor id').2 (lt_trans ((hcursor id).1 h) hlt)

theorem Tidy.listPage (h : r.Tidy) (subject provider : String) (limit : ℕ) : ∃ page : List Identity,
    page = (r.ids.filter fun id => recordAfter id subject provider).take
      (if limit = 0 then 1 else limit) ∧
      r.listPage subject provider limit = page.map fun id => (r.records.get id).getD default := by
  refine ⟨_, rfl, ?_⟩
  rw [MemoryRepo.listPage, drop_position h.sorted fun a b => recordAfter_of_lt]

/-- A page holds records as they are stored. -/
theorem mem_listPage (h : r.Tidy) (hrec : rec ∈ r.listPage subject provider limit) :
    r.get rec.identity = some rec := by
  obtain ⟨page, hpage, heq⟩ := h.listPage subject provider limit
  rw [heq] at hrec
  obtain ⟨id, hid, rfl⟩ := mem_map.1 hrec
  rw [hpage] at hid
  obtain ⟨rec, hget⟩ := (h.complete id).1 (mem_filter.1 (mem_of_mem_take hid)).1
  have hrec : r.records.get id = some rec := hget
  rw [hrec, getD_some, h.keyed id rec hget, hget]

/-- **Pages cover the store**: a record behind the cursor is on the page, or the page is full and the
record is behind its last one. -/
theorem listPage_covers (h : r.Tidy) (hlimit : limit ≠ 0) (hget : r.get id = some rec)
    (hafter : recordAfter id subject provider = true) :
    rec ∈ r.listPage subject provider limit ∨ (r.listPage subject provider limit).length = limit ∧
        ∀ last ∈ (r.listPage subject provider limit).getLast?,
          recordAfter id last.identity.subject last.identity.provider = true := by
  obtain ⟨page, hpage, heq⟩ := h.listPage subject provider limit
  rw [if_neg hlimit] at hpage
  have hin : id ∈ r.ids.filter fun id => recordAfter id subject provider :=
    mem_filter.2 ⟨(h.complete id).2 ⟨rec, hget⟩, hafter⟩
  rw [heq]
  rcases mem_take_or_last (h.sorted.filter _) hin limit with hmem | ⟨hlen, hlast⟩
  · rw [← hpage] at hmem
    have hrec : r.records.get id = some rec := hget
    exact .inl (mem_map.2 ⟨id, hmem, by rw [hrec, getD_some]⟩)
  · rw [← hpage] at hlen hlast
    refine .inr ⟨by rw [length_map, hlen], fun last hl => ?_⟩
    rw [getLast?_map] at hl
    obtain ⟨id', hid', rfl⟩ := map_eq_some_iff.1 hl
    have hids : id' ∈ r.ids :=
      (mem_filter.1 (mem_of_mem_take (hpage ▸ mem_of_mem_getLast? hid'))).1
    obtain ⟨rec', hget'⟩ := (h.complete id').1 hids
    have hrec' : r.records.get id' = some rec' := hget'
    rw [hrec', getD_some, h.keyed id' rec' hget']
    exact (recordAfter_iff id' fun hc => h.named id' hids hc.1).2 (hlast id' hid')

end MemoryRepo

end Re0Auth.Vault

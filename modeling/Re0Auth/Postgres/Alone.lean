import Re0Auth.Lib.Hoare
import Re0Auth.Postgres.Store

/-!
# Transactions that run alone

What the statements and the transactions of the adapter do while no other transaction is at work: the
rows before, the result, the rows after.

* **`Works`**: a part of a transaction, with a postcondition on its result and on what the transaction
  then sees; its rules for sequences and for each statement;
* **`Commits`**: a whole transaction or query, with a postcondition on its result and on what is then
  committed.
-/

namespace Re0Auth.Postgres

open Lib OAuth Oidc Prog View List Option Bool

variable {env : Env} {α β : Type} {t : ℕ} {C V : View Row} {i : Tbl} {p : String → Row i → Bool}
  {fuel : ℕ} {f : TokenFilter} {c s : String} {rows : List (String × ℤ)}

/-- **In a transaction on its own** that sees `V`: where `m` succeeds, `Q` holds of its result and of
what the transaction then sees; where it fails, the transaction can still be rolled back. -/
def Works (t : ℕ) (C V : View Row) (m : Sql env α) (Q : α → View Row → Prop) : Prop :=
  ∀ sh, sh.db.Alone t C V → Prog.wpE (M := machine env) m
    (fun a sh' => ∃ V', sh'.db.Alone t C V' ∧ Q a V') (fun _ sh' => ∃ V', sh'.db.Alone t C V') sh

/-- The condition of a statement does not depend on the rows it deletes. -/
def Judges (V : View Row) (i : Tbl) (q : Snapshot Row → String → Row i → Bool)
    (p : String → Row i → Bool) : Prop :=
  ∀ V' : View Row, (∀ j, j ≠ i → V' j = V j) → ∀ s, V'.Shows s → ∀ k v, q s k v = p k v

theorem Judges.const : Judges V i (fun _ => p) p :=
  fun _ _ _ _ _ _ => rfl

theorem Judges.drop {q : Snapshot Row → String → Row i → Bool}
    {p' : String → Row i → Bool} (h : Judges V i q p) : Judges (V.drop i p') i q p :=
  fun V' hV' => h V' fun j hj => (hV' j hj).trans (drop_of_ne hj)

namespace Works

variable {m : Sql env α} {Q R : α → View Row → Prop} {i : Tbl} {keys : List String} {k : String}
  {row : Row i} {f : Row i → Row i}

theorem pure {a : α} (h : Q a V) : Works t C V (Pure.pure a : Sql env α) Q :=
  fun _ hsh => ⟨V, hsh, h⟩

theorem throw {e : Err} : Works t C V (throw e : Sql env α) Q := fun _ hsh => ⟨V, hsh⟩

theorem bind {f : α → Sql env β} {Q : β → View Row → Prop} (hm : Works t C V m R)
    (hf : ∀ a V', R a V' → Works t C V' (f a) Q) : Works t C V (m >>= f) Q := by
  intro sh hsh
  refine wpE_seq (hm sh hsh) ?_ fun _ _ h => h
  rintro a sh' ⟨V', hsh', hR⟩
  exact hf a V' hR sh' hsh'

theorem mono (hm : Works t C V m R) (h : ∀ a V', R a V' → Q a V') : Works t C V m Q :=
  fun sh hsh => wpE_mono (hm sh hsh) (fun a _ ⟨V', hV', hR⟩ => ⟨V', hV', h a V' hR⟩) fun _ _ h => h

theorem wrapping {context : String} (hm : Works t C V m Q) : Works t C V (Postgres.wrapping context m) Q := by
  intro sh hsh
  refine wp_bind.2 (wp_mono (hm sh hsh) ?_)
  rintro (e | a) sh' h <;> exact h

/-! ## Statements -/

theorem readClock {Q : Time → View Row → Prop} (h : ∀ now, Q now V) :
    Works t C V (Postgres.readClock : Sql env Time) Q := by
  intro sh hsh ω r sh' hex
  cases hex
  exact ⟨V, hsh, h _⟩

theorem randomValue {Q : String → View Row → Prop} (h : ∀ v, Q v V) :
    Works t C V (Postgres.randomValue : Sql env String) Q := by
  rintro sh hsh (_ | v) r sh' hex
  · cases hex
    exact ⟨V, hsh⟩
  · dsimp only [exec] at hex
    split_ifs at hex
    cases hex
    exact ⟨V, hsh, h v⟩

theorem select : Works t C V (stmt (call (M := machine env) (.select (some t) i keys)))
      fun rows V' => rows = keys.filterMap (fun k => (V i k).map (k, ·)) ∧ V = V' := by
  intro sh hsh ω r sh' hex
  dsimp only [exec] at hex
  split_ifs at hex <;> cases hex
  · exact ⟨V, hsh⟩
  · refine ⟨V, hsh, ?_, rfl⟩
    have hview : ∀ k, sh.db.read (some t) i k = V i k := hsh.view i
    simp only [hview]

/-- The rows a statement goes after: each once, and all of them where there is no bound. -/
theorem scan {q : Snapshot Row → String → Row i → Bool} {p : String → Row i → Bool}
    {limit : Option ℕ} (hq : Judges V i q p) :
    Works t C V (stmt (call (M := machine env) (.scan t i q limit)))
      fun keys V' => V = V' ∧ keys.Nodup ∧ (∀ k ∈ keys, ∃ v, V i k = some v ∧ p k v = true) ∧
        ((limit.all fun n => decide (keys.length < n)) = true →
          ∀ k v, V i k = some v → p k v = true → k ∈ keys) := by
  intro sh hsh ω r sh' hex
  dsimp only [exec] at hex
  split_ifs at hex <;> cases hex
  · exact ⟨V, hsh⟩
  · set found := ((sh.db.rows t i).filter fun r => q (sh.db.rows t) r.1 r.2).map (·.1) with hfound
    have hmem : ∀ k, k ∈ found ↔ ∃ v, V i k = some v ∧ p k v = true := by
      intro k
      simp [hfound, hsh.shows i, hq V (fun _ _ => rfl) _ hsh.shows]
    have hnodup : found.Nodup :=
      Table.nodup_rows.sublist ((filter_sublist (l := sh.db.rows t i)).map _)
    refine ⟨V, hsh, rfl, ?_⟩
    cases limit with
    | none => exact ⟨hnodup, fun k hk => (hmem k).1 hk, fun _ k v hv hp => (hmem k).2 ⟨v, hv, hp⟩⟩
    | some n =>
      refine ⟨hnodup.sublist (take_sublist n found),
        fun k hk => (hmem k).1 (mem_of_mem_take hk), fun hlt k v hv hp => ?_⟩
      have hshort : found.length ≤ n := by
        simp only [all_some, decide_eq_true_eq, length_take] at hlt
        omega
      change k ∈ found.take n
      rw [take_of_length_le hshort]
      exact (hmem k).2 ⟨v, hv, hp⟩

theorem of_change {f : Row i → Option (Row i)} {sh sh' : Shared}
    {r : Except Err (Option (Row i))} (hsh : sh.db.Alone t C V) (h : change t i k f sh = some (r, sh')) :
    r = .ok (V i k) ∧ sh'.db.Alone t C (V.set i k ((V i k).bind f)) := by
  rw [change, hsh.view i k] at h
  cases hv : V i k with
  | none =>
    simp only [hv] at h
    split at h <;> cases h
    exact ⟨rfl, (set_eq hv).symm ▸ hsh⟩
  | some v =>
    simp only [hv, Db.write] at h
    split at h <;> cases h
    exact ⟨rfl, hsh.write⟩

theorem delete : Works t C V (stmt (call (M := machine env) (.delete t i k)))
      fun row V' => row = V i k ∧ V' = V.set i k none := by
  intro sh hsh ω r sh' hex
  dsimp only [exec] at hex
  split at hex
  · cases hex
    exact ⟨V, hsh⟩
  · obtain ⟨rfl, hsh'⟩ := of_change hsh hex
    exact ⟨_, hsh', rfl, by cases V i k <;> rfl⟩

theorem insert : Works t C V (stmt (call (M := machine env) (.insert t i k row)))
      fun _ V' => V i k = none ∧ V' = V.set i k (some row) := by
  intro sh hsh ω r sh' hex
  dsimp only [exec] at hex
  rw [hsh.view i k] at hex
  split_ifs at hex
  · cases hex
    exact ⟨V, hsh⟩
  · cases hv : V i k with
    | none =>
      simp only [hv] at hex
      cases hex
      exact ⟨_, hsh.write, rfl, rfl⟩
    | some v =>
      simp only [hv] at hex
      cases hex
      exact ⟨V, hsh⟩

theorem upsert : Works t C V (stmt (call (M := machine env) (.upsert t i k row f)))
      fun _ V' => V' = V.set i k (some (((V i k).map f).getD row)) := by
  intro sh hsh ω r sh' hex
  dsimp only [exec, Db.write] at hex
  rw [hsh.view i k] at hex
  split_ifs at hex <;> cases hex
  · exact ⟨V, hsh⟩
  · exact ⟨_, hsh.write, rfl⟩

theorem update : Works t C V (stmt (call (M := machine env) (.update t i k f)))
      fun row V' => row = V i k ∧ V' = V.set i k ((V i k).map f) := by
  intro sh hsh ω r sh' hex
  dsimp only [exec] at hex
  split at hex
  · cases hex
    exact ⟨V, hsh⟩
  · obtain ⟨rfl, hsh'⟩ := of_change hsh hex
    exact ⟨_, hsh', rfl, by cases V i k <;> rfl⟩

theorem share : Works t C V (stmt (call (M := machine env) (.share t i k)))
      fun row V' => row = V i k ∧ V = V' := by
  intro sh hsh ω r sh' hex
  dsimp only [exec, Db.share] at hex
  rw [hsh.view i k] at hex
  split_ifs at hex <;> cases hex
  · exact ⟨V, hsh⟩
  · exact ⟨V, hsh.share, rfl, rfl⟩

/-! ## Statements on several rows -/

theorem deleteRows (hk : keys.Nodup) :
    Works t C V (Postgres.deleteRows t i keys : Sql env (List (Row i)))
      fun rows V' => rows = keys.filterMap (V i) ∧ V' = V.drop i fun k _ => keys.contains k := by
  induction keys generalizing V with
  | nil => exact .pure ⟨rfl, drop_false.symm⟩
  | cons k keys ih =>
    obtain ⟨hnot, hk⟩ := nodup_cons.1 hk
    refine delete.bind ?_
    rintro row _ ⟨rfl, rfl⟩
    refine (ih hk).bind ?_
    rintro rows _ ⟨rfl, rfl⟩
    refine .pure ⟨?_, ?_⟩
    · have hrest : keys.filterMap (V.set i k none i) = keys.filterMap (V i) :=
        filterMap_congr fun l hl => set_of_ne (.inr fun h => hnot (h ▸ hl))
      rw [hrest]
      cases hv : V i k <;> simp [hv]
    · rw [set_none_eq_drop, drop_or]
      simp only [contains_cons]

section

variable {i : Tbl} {q : Snapshot Row → String → Row i → Bool} {p : String → Row i → Bool}

theorem deleteWhere (hq : Judges V i q p) :
    Works t C V (Postgres.deleteWhere t i q : Sql env (List (Row i)))
      fun rows V' => V' = V.drop i p ∧ (∀ row ∈ rows, ∃ k, V i k = some row ∧ p k row = true) ∧
        (rows.head? = none → ∀ k v, V i k = some v → p k v = false) := by
  refine (scan hq).bind ?_
  rintro keys _ ⟨rfl, hnodup, hsound, hall⟩
  refine (deleteRows hnodup).mono ?_
  rintro rows _ ⟨rfl, rfl⟩
  refine ⟨drop_congr fun k v hv => ?_, fun row hrow => ?_, fun hnone k v hv => ?_⟩
  · rw [Bool.eq_iff_iff, List.contains_iff_mem]
    constructor
    · intro hk
      obtain ⟨v', hv', hp⟩ := hsound k hk
      rw [hv] at hv'
      cases hv'
      exact hp
    · exact hall rfl k v hv
  · obtain ⟨k, hk, hv⟩ := mem_filterMap.1 hrow
    obtain ⟨v, hv', hp⟩ := hsound k hk
    rw [hv] at hv'
    cases hv'
    exact ⟨k, hv, hp⟩
  · by_contra hp
    have hk := hall rfl k v hv (by simpa using hp)
    have hmem : v ∈ keys.filterMap (V i) := mem_filterMap.2 ⟨k, hk, hv⟩
    rw [head?_eq_none_iff.1 hnone] at hmem
    cases hmem

/-- The loop leaves nothing behind. The batches get smaller only once all rows are gone: each row of
a batch is there to be deleted, and counted. -/
theorem execBatched (hq : Judges V i q p) {fuel : ℕ} :
    Works t C V (Postgres.execBatched t i q fuel : Sql env ℕ) fun _ V' => V' = V.drop i p := by
  induction fuel generalizing V with
  | zero => intro sh hsh ω r sh' hex; cases hex
  | succ fuel ih =>
    refine (scan hq).bind ?_
    rintro keys _ ⟨rfl, hnodup, hsound, hall⟩
    refine (deleteRows hnodup).bind ?_
    rintro rows _ ⟨rfl, rfl⟩
    have hpart : ∀ k v, V i k = some v → keys.contains k = true → p k v = true := by
      intro k v hv hk
      obtain ⟨v', hv', hp⟩ := hsound k (contains_iff_mem.1 hk)
      rw [hv] at hv'
      cases hv'
      exact hp
    have hlength : (keys.filterMap (V i)).length = keys.length := by
      refine filterMap_length_eq_length.2 fun k hk => ?_
      obtain ⟨v, hv, -⟩ := hsound k hk
      simp [hv]
    split_ifs with hlt
    · rw [hlength] at hlt
      refine .pure (drop_congr fun k v hv => eq_iff_iff.2 ⟨hpart k v hv, fun hp => ?_⟩)
      exact contains_iff_mem.2 (hall (decide_eq_true hlt) k v hv hp)
    · refine (ih hq.drop).bind ?_
      rintro more _ rfl
      exact .pure (drop_drop hpart)

end

theorem shareRows : Works t C V (Postgres.shareRows t i keys : Sql env (List (String × Row i)))
      fun rows V' => rows = keys.filterMap (fun k => (V i k).map (k, ·)) ∧ V = V' := by
  induction keys with
  | nil => exact .pure ⟨rfl, rfl⟩
  | cons k keys ih =>
    refine share.bind ?_
    rintro row _ ⟨rfl, rfl⟩
    refine ih.bind ?_
    rintro rows _ ⟨rfl, rfl⟩
    refine .pure ⟨?_, rfl⟩
    cases hv : V i k <;> simp [hv]

end Works

/-! ## Revocations -/

/-- The rows of an owner the filter matches are gone from some tables. -/
def clear (f : TokenFilter) (tables : List Tbl) (V : View Row) : View Row :=
  tables.foldl (fun V i => V.drop i fun _ row => ownedBy f i row) V

theorem Works.revokeMatching {tables : List Tbl} :
    Works t C V (Postgres.revokeMatching fuel t f tables : Sql env ℕ)
      fun _ V' => V' = clear f tables V := by
  induction tables generalizing V with
  | nil => exact .pure rfl
  | cons i tables ih =>
    refine (Works.execBatched Judges.const).bind ?_
    rintro n _ rfl
    refine ih.bind ?_
    rintro total _ rfl
    exact .pure rfl

/-- The codes whose request satisfies `p` are gone. -/
def dropCodes (p : AuthRequestRow → Bool) (V : View Row) : View Row :=
  V.drop .codes fun _ row => (V .authRequests row.requestID).any p

theorem codesOf_eq {p : AuthRequestRow → Bool} {s : Snapshot Row} (hs : V.Shows s) {row : CodeRow} :
    codesOf p s row = (V .authRequests row.requestID).any p := by
  rw [codesOf, Bool.eq_iff_iff, List.any_eq_true, Option.any_eq_true]
  constructor
  · rintro ⟨⟨k, r⟩, hr, hp⟩
    rw [and_eq_true, beq_iff_eq] at hp
    obtain ⟨rfl, hp⟩ := hp
    exact ⟨r, (hs .authRequests _ r).1 hr, hp⟩
  · rintro ⟨r, hr, hp⟩
    exact ⟨(row.requestID, r), (hs .authRequests _ r).2 hr, by simpa using hp⟩

theorem Judges.codes {p : AuthRequestRow → Bool} : Judges V .codes (fun s _ row => codesOf p s row)
      fun _ row => (V .authRequests row.requestID).any p := by
  intro V' hV' s hs k row
  change codesOf p s row = _
  rw [codesOf_eq hs, hV' .authRequests (by decide)]

theorem Works.revokePendingAuthorizations :
    Works t C V (Postgres.revokePendingAuthorizations fuel t f : Sql env ℕ)
      fun _ V' => V' = clear f [.authRequests] (dropCodes (ownedBy f .authRequests) V) := by
  refine (execBatched Judges.codes).bind ?_
  rintro n _ rfl
  refine (execBatched Judges.const).bind ?_
  rintro total _ rfl
  exact .pure rfl

/-! ## Revocation generations -/

/-- The generation under a key, zero where there is no row. -/
def epoch (V : View Row) (key : String) : ℤ := (V .revocationEpochs key).getD 0

/-- The generations of a grant. -/
def epochsAt (V : View Row) (clientID subject : String) : RevocationEpochs where
  global := if clientID = "" ∧ subject = "" then epoch V "*" else 0
  client := if clientID = "" then 0 else epoch V ("client:" ++ clientID)
  subject := if subject = "" then 0 else epoch V ("subject:" ++ subject)

theorem client_ne_star : "client:" ++ c ≠ "*" := by
  intro h
  have := congrArg String.toList h
  simp at this

theorem subject_ne_star : "subject:" ++ s ≠ "*" := by
  intro h
  have := congrArg String.toList h
  simp at this

theorem subject_ne_client : "subject:" ++ s ≠ "client:" ++ c := by
  intro h
  have := congrArg String.toList h
  simp at this

theorem mem_revocationScopeKeys {k : String} :
    k ∈ revocationScopeKeys c s ↔ (c = "" ∧ s = "" ∧ k = "*") ∨ (c ≠ "" ∧ k = "client:" ++ c) ∨
      (s ≠ "" ∧ k = "subject:" ++ s) := by
  by_cases hc : c = "" <;> by_cases hs : s = "" <;> simp [revocationScopeKeys, hc, hs]

/-- Each generation is the one of its row, whatever the order of the rows. -/
theorem foldl_epochs {E : String → ℤ} (hrows : ∀ r ∈ rows, r.2 = E r.1) (e : RevocationEpochs) :
    rows.foldl (fun e r =>
      if r.1 = "*" then { e with global := r.2 }
      else if c ≠ "" ∧ r.1 = "client:" ++ c then { e with client := r.2 }
      else if s ≠ "" ∧ r.1 = "subject:" ++ s then { e with subject := r.2 }
      else e) e =
    ⟨if "*" ∈ rows.map (·.1) then E "*" else e.global,
      if c ≠ "" ∧ "client:" ++ c ∈ rows.map (·.1) then E ("client:" ++ c) else e.client,
      if s ≠ "" ∧ "subject:" ++ s ∈ rows.map (·.1) then E ("subject:" ++ s) else e.subject⟩ := by
  induction rows generalizing e with
  | nil => simp
  | cons r rows ih =>
    obtain ⟨k, v⟩ := r
    obtain rfl : v = E k := hrows _ mem_cons_self
    have h₁ : "client:" ++ c ≠ "*" := client_ne_star
    have h₂ : "subject:" ++ s ≠ "*" := subject_ne_star
    have h₃ : "subject:" ++ s ≠ "client:" ++ c := subject_ne_client
    grind

/-- A query that returns the rows of a grant's keys yields the generations of the grant. -/
theorem epochsOf_eq
    (hrows : ∀ k v, (k, v) ∈ rows ↔ k ∈ revocationScopeKeys c s ∧ V .revocationEpochs k = some v) :
    epochsOf c s rows = epochsAt V c s := by
  have hE : ∀ r ∈ rows, r.2 = epoch V r.1 := by
    rintro ⟨k, v⟩ hr
    rw [epoch, ((hrows k v).1 hr).2]
    rfl
  have hmem : ∀ k, k ∈ rows.map (·.1) ↔
      k ∈ revocationScopeKeys c s ∧ (V .revocationEpochs k).isSome := by
    simp [hrows, isSome_iff_exists]
  have hzero : ∀ k, (V .revocationEpochs k).isSome = false → epoch V k = 0 := by
    intro k hk
    rw [epoch, isSome_eq_false_iff.1 hk |> isNone_iff_eq_none.1]
    rfl
  have h₁ : "client:" ++ c ≠ "*" := client_ne_star
  have h₂ : "subject:" ++ s ≠ "*" := subject_ne_star
  rw [epochsOf, foldl_epochs hE, epochsAt]
  simp only [hmem, mem_revocationScopeKeys]
  grind

theorem Works.captureRevocationEpochs :
    Works t C V (Postgres.captureRevocationEpochs (some t) c s : Sql env RevocationEpochs)
      fun e V' => e = epochsAt V c s ∧ V = V' := by
  refine select.bind ?_
  rintro rows _ ⟨rfl, rfl⟩
  refine .pure ⟨epochsOf_eq fun k v => ?_, rfl⟩
  simp [mem_filterMap]

/-- The check lets a grant pass whose generations are the captured ones. -/
theorem Works.checkRevocationEpochs {captured : Option RevocationEpochs} :
    Works t C V (Postgres.checkRevocationEpochs t c s captured : Sql env Unit)
      fun _ V' => revocationUnchanged captured (epochsAt V c s) = true ∧ V = V' := by
  refine (scan .const).bind ?_
  rintro keys _ ⟨rfl, -, hsound, hall⟩
  refine shareRows.bind ?_
  rintro rows _ ⟨rfl, rfl⟩
  have hE : epochsOf c s (keys.filterMap fun k => (V .revocationEpochs k).map (k, ·)) =
      epochsAt V c s := by
    refine epochsOf_eq fun k v => ?_
    simp only [mem_filterMap, map_eq_some_iff, Prod.mk.injEq]
    constructor
    · rintro ⟨k', hk', v', hv', rfl, rfl⟩
      obtain ⟨_, -, hp⟩ := hsound k' hk'
      exact ⟨contains_iff_mem.1 hp, hv'⟩
    · rintro ⟨hk, hv⟩
      exact ⟨k, hall rfl k v hv (contains_iff_mem.2 hk), v, hv, rfl, rfl⟩
  rw [hE]
  split_ifs with hcheck
  · exact .pure ⟨hcheck, rfl⟩
  · exact .throw

/-- One generation moves on. -/
def bumpedKey (V : View Row) (key : String) : View Row :=
  V.set .revocationEpochs key
    (if key = "*" then (V .revocationEpochs key).map (· + 1)
    else some (((V .revocationEpochs key).map (· + 1)).getD 1))

theorem Works.bumpEpoch {key : String} :
    Works t C V (Postgres.bumpEpoch t key : Sql env Unit) fun _ V' => V' = bumpedKey V key := by
  rw [Postgres.bumpEpoch]
  split_ifs with hkey
  · refine update.bind ?_
    rintro _ _ ⟨rfl, rfl⟩
    exact .pure (by rw [bumpedKey, if_pos hkey, hkey])
  · refine upsert.mono ?_
    rintro _ _ rfl
    rw [bumpedKey, if_neg hkey]

theorem Works.bumpRevocationEpochs :
    Works t C V (Postgres.bumpRevocationEpochs t c s : Sql env Unit)
      fun _ V' => V' = (revocationScopeKeys c s).foldl bumpedKey V := by
  rw [Postgres.bumpRevocationEpochs]
  generalize revocationScopeKeys c s = keys
  induction keys generalizing V with
  | nil => exact .pure rfl
  | cons key keys ih =>
    refine bumpEpoch.bind ?_
    rintro _ _ rfl
    exact ih

/-! ## Whole transactions -/

/-- How a transaction settles: a rollback leaves what was committed before. -/
def Settles (C : View Row) (Q : Except Err α → View Row → Prop) : Outcome α → View Row → Prop
  | .keep a, V => Q (.ok a) V
  | .refuse e, V => Q (.error e) V
  | .abandon a, _ => Q (.ok a) C

/-- **While no transaction is at work** and `C` is committed: `m` leaves no transaction behind, and
`Q` holds of its result and of what is then committed. -/
def Commits (C : View Row) (m : Sql env α) (Q : Except Err α → View Row → Prop) : Prop :=
  ∀ sh, sh.db.Clean C → Prog.wp (M := machine env) m.run
    (fun r sh' => ∃ C', sh'.db.Clean C' ∧ Q r C') sh

section

variable {ctx : Err → Err} {Q : Except Err α → View Row → Prop} {sh : Shared}

theorem commits_finishTx {answer : Except Err α} (hsh : sh.db.Alone t C V) (hQ : Q answer V)
    (hfail : ∀ e, Q (.error e) C) : wp (M := machine env) (Postgres.inTx.finishTx ctx t answer).run
      (fun r sh' => ∃ C', sh'.db.Clean C' ∧ Q r C') sh := by
  rintro (_ | v) r sh₁ hex <;> cases hex
  · rintro ω r sh₂ hex
    cases hex
    exact ⟨C, hsh.rollback, hfail _⟩
  · exact ⟨V, hsh.commit, hQ⟩

theorem Commits.inTx {body : ℕ → Sql env (Outcome α)}
    (hbody : ∀ t, Works t C C (body t) (Settles C Q)) (hfail : ∀ e, Q (.error e) C) :
    Commits C (Postgres.inTx ctx body) Q := by
  intro sh hsh
  refine wpE_iff.1 (wpE_bind.2 (wpE_lift.2 ?_))
  rintro (_ | v) r sh₁ hex <;> cases hex
  · exact ⟨C, hsh, hfail _⟩
  refine wpE_bind.2 (wpE_lift.2 (wp_mono (hbody _ _ hsh.begin) ?_))
  rintro (e | a | e | a) sh₂ h
  · obtain ⟨V, hV⟩ := h
    rintro ω r sh₃ hex
    cases hex
    exact ⟨C, hV.rollback, hfail _⟩
  · obtain ⟨V, hV, hQ⟩ := h
    exact wpE_iff.2 (commits_finishTx hV hQ hfail)
  · obtain ⟨V, hV, hQ⟩ := h
    exact wpE_iff.2 (commits_finishTx hV hQ hfail)
  · obtain ⟨V, hV, hQ⟩ := h
    rintro ω r sh₃ hex
    cases hex
    exact ⟨C, hV.rollback, hQ⟩

namespace Commits

variable {m : Sql env α} {R : Except Err α → View Row → Prop}

theorem pure {a : α} (h : Q (.ok a) C) : Commits C (Pure.pure a : Sql env α) Q :=
  fun _ hsh => ⟨C, hsh, h⟩

theorem throw {e : Err} (h : Q (.error e) C) : Commits C (throw e : Sql env α) Q :=
  fun _ hsh => ⟨C, hsh, h⟩

theorem bind {f : α → Sql env β} {Q : Except Err β → View Row → Prop} (hm : Commits C m R)
    (hok : ∀ a C', R (.ok a) C' → Commits C' (f a) Q)
    (herr : ∀ e C', R (.error e) C' → Q (.error e) C') : Commits C (m >>= f) Q := by
  intro sh hsh
  refine wpE_iff.1 (wpE_seq (wpE_iff.2 (hm sh hsh)) ?_ ?_)
  · rintro a sh' ⟨C', hsh', hR⟩
    exact wpE_iff.2 (hok a C' hR sh' hsh')
  · rintro e sh' ⟨C', hsh', hR⟩
    exact ⟨C', hsh', herr e C' hR⟩

/-- The context put around an error changes neither a result nor the database. -/
theorem wrapping {context : String} (hm : Commits C m R) :
    Commits C (Postgres.wrapping context m) fun r C' => match r with
      | .ok a => R (.ok a) C'
      | .error e => ∃ cause, e = .wrap context cause ∧ R (.error cause) C' := by
  intro sh hsh
  refine wp_bind.2 (wp_mono (hm sh hsh) ?_)
  rintro (e | a) sh' ⟨C', hC', hR⟩
  · exact ⟨C', hC', e, rfl, hR⟩
  · exact ⟨C', hC', hR⟩

end Commits

end

end Re0Auth.Postgres

import Re0Auth.OAuth.Revocation

/-!
# The death of a refresh family

A refresh value that is presented a second time kills its family: `Refresh` reports the replay and
revokes every record of the family. A rotation of the family that has consumed its value and not yet
written the next generation has no record the revocation could delete; it is kept out by the family's
turnstile, whose key is computed from a read made before the turnstile is taken.

* **`Families`**: the invariant of all runs. A call that rotates or revokes a family holds the family's
  turnstile, and a family is drawn once, by the call that founded it;
* **`Dead`**: what holds once the family has been revoked;
* **`family_death`**: no record of a revoked family, then or later.
-/

namespace Re0Auth.OAuth

open Lib Function Pool MemoryStore List

variable {cfg : Config} {op : Op} {ω : String} {sh sh' : Shared} {r : op.Res} {p : Phase}
  {ph : ℕ → Option Phase} {i : ℕ} {F : String} {c : Claim} {familyID at_ v : String}
  {tomb : RefreshTombstone} {s : MemoryStore} {env : Env} {clock : Option Time}
  {σ₀ σ₁ σ₂ τ : System cfg}

/-! ## Stages -/

/-- The stages after both records were written. -/
def Stage.Written : Stage → Prop
  | minted _ _ _ _ | kept _ _ _ _ | undo _ _ _ _ | undoRefresh _ _ _ | settled => True
  | _ => False

/-- The family a call is about to write for or to revoke, where it was there before the call. -/
def Stage.rotates : Stage → Option String
  | claimed c | minting c _ _ => if c.familyID = "" then none else some c.familyID
  | reused familyID => some familyID
  | _ => none

variable (hT : Tidy cfg.env sh ph) (hi : ph i = some p) (ha : Allowed cfg.env p op)
  (hex : exec cfg op ω sh = some (r, sh'))

include ha in
/-- A call that has written both records writes no more. -/
theorem Stage.Written.advance (h : p.stage.Written) : (p.advance op r).stage.Written := by
  cases turns (r := r) ha rfl with
  | still hs => exact hs ▸ h
  | settles hs | keeps _ hs | recants _ hs | undoes _ hs | mints _ hs => exact hs ▸ trivial
  | _ hs => exact absurd h (hs ▸ id)

/-- What a call has drawn stays drawn. -/
theorem advance_drawn (p : Phase) (op : Op) (r : op.Res) : p.drawn ⊆ (p.advance op r).drawn := by
  cases op with
  | newToken => exact subset_cons_self ..
  | grantEpoch => exact readEpoch_cases fun _ _ => Subset.refl _
  | _ => exact Subset.refl _

variable (ha : Allowed cfg.env p op)

include ha in
/-- A call comes to rotate or to revoke a family by presenting a refresh value. -/
theorem rotates_advance (h : (p.advance op r).stage.rotates = some F) :
    (p.stage.rotates = some F ∧ (p.advance op r).held = p.held) ∨
      ∃ value, op = .consumeRefresh value := by
  have hheld (hold : p.stage.rotates = some F) : (p.advance op r).held = p.held := by
    cases op with
    | lock key =>
      rw [ha.1] at hold
      cases hold
    | unlock key => cases h
    | grantEpoch => exact readEpoch_cases fun _ _ => rfl
    | _ => rfl
  generalize hst : (p.advance op r).stage = st at h
  cases turns ha hst with
  | still hs => exact .inl ⟨hs ▸ h, hheld (hs ▸ h)⟩
  | claims _ hop hs =>
    subst hs
    obtain ⟨hnone, -⟩ | hop := hop
    · cases (if_pos hnone).symm.trans h
    · exact .inr hop
  | finds _ hop => exact .inr ⟨_, hop⟩
  | writes hs _ h' =>
    subst h'
    have hold : p.stage.rotates = some F := hs ▸ h
    exact .inl ⟨hold, hheld hold⟩
  | settles hs | mints _ hs | keeps _ hs | recants _ hs | undoes _ hs | kills _ hs | bumps _ hs =>
    subst hs
    cases h

include ha in
/-- A call begins to write its pair with the access record. -/
theorem minting_advance (h : (p.advance op r).stage = .minting c familyID at_) :
    p.stage = .minting c familyID at_ ∨ ∃ value t, op = .saveAccess value t ∧
      p.stage = .claimed c ∧ t.familyID = familyID := by
  cases turns ha h with
  | still h => exact .inl h
  | writes hs hop h =>
    cases h
    exact .inr ⟨_, _, hop, hs, rfl⟩
  | _ => contradiction

/-! ## What an operation does to families and turnstiles -/

variable (h : exec cfg op ω sh = some (r, sh'))

include h in
/-- The clock does not run backwards. -/
theorem exec_now : sh.now ≤ sh'.now := by
  cases op with
  | advanceClock d =>
    cases h
    exact Int.le_add_of_nonneg_right (Int.natCast_nonneg d)
  | _ =>
    dsimp only [exec] at h
    try split at h
    all_goals cases h
    all_goals exact Int.le_refl _

include h in
/-- A tombstone is left only by a refresh value that is claimed. -/
theorem exec_tombstones {k : String} (ht : sh'.tokens.tombstones.get k = some tomb) :
    sh.tokens.tombstones.get k = some tomb ∨ ∃ value t, op = .consumeRefresh value ∧
      k = cfg.env.tokenHash value ∧ sh.tokens.refresh.get k = some t ∧
      sh'.tokens.refresh.get k = none ∧ tomb = ⟨t.familyID, t.clientID, t.subject, t.expiresAt⟩ := by
  cases op with
  | saveCode | saveAccess | saveRefresh =>
    cases h
    exact .inl ht
  | consumeRefresh value =>
    cases hv : sh.tokens.refresh.get (cfg.env.tokenHash value) with
    | none =>
      cases h
      rw [consumeRefresh_of_get_none hv] at ht
      exact .inl ht
    | some t =>
      cases h
      rw [consumeRefresh_of_get hv] at ht ⊢
      obtain hold | ⟨rfl, rfl⟩ := Dict.get_of_get_set ht
      · exact .inl hold
      · exact .inr ⟨value, t, rfl, rfl, hv, Dict.get_del_self .., rfl⟩
  | _ => exact .inl ((exec_within h nofun nofun nofun nofun).tombstones ht)

theorem expired_mono {now now' : Time} (hle : now ≤ now')
    (h : tomb.expired (some now') = false) : tomb.expired (some now) = false := by
  simp only [RefreshTombstone.expired, Bool.not_eq_false', decide_eq_true_eq] at h ⊢
  exact Int.lt_of_le_of_lt hle h

theorem refreshFamily_of_refresh {t : RefreshToken} (h : s.refresh.get (env.tokenHash v) = some t) :
    s.refreshFamily env clock v = .ok t.familyID := by
  rw [refreshFamily, h]

theorem refreshFamily_of_tombstone (h : s.refresh.get (env.tokenHash v) = none)
    (htomb : s.tombstones.get (env.tokenHash v) = some tomb) (hexp : tomb.expired clock = false) :
    s.refreshFamily env clock v = .ok tomb.familyID := by
  simp [refreshFamily, h, htomb, hexp]

/-- What `RefreshFamily` finds is a record or a tombstone that has not expired. -/
theorem refreshFamily_cases (h : s.refreshFamily env clock v = .ok F) :
    (∃ t, s.refresh.get (env.tokenHash v) = some t ∧ t.familyID = F) ∨
      s.refresh.get (env.tokenHash v) = none ∧ ∃ tomb,
        s.tombstones.get (env.tokenHash v) = some tomb ∧ tomb.expired clock = false ∧
        tomb.familyID = F := by
  rw [refreshFamily] at h
  split at h
  · rename_i t ht
    cases h
    exact .inl ⟨t, ht, rfl⟩
  · rename_i hnone
    split at h
    · rename_i tomb htomb
      split_ifs at h with hexp
      cases h
      exact .inr ⟨hnone, tomb, htomb, by simpa using hexp, rfl⟩
    · cases h

include h in
/-- **The family of a value does not change**: what `RefreshFamily` finds after an operation it has
found before, unless the operation has written the value's record. -/
theorem refreshFamily_before
    (hspent : ∀ k t, sh.tokens.refresh.get k = some t → sh.tokens.tombstones.get k = none)
    (hv : ∀ value t, op = .saveRefresh value t → value ≠ v)
    (hF : sh'.tokens.refreshFamily cfg.env (some sh'.now) v = .ok F) :
    sh.tokens.refreshFamily cfg.env (some sh.now) v = .ok F := by
  obtain ⟨t, ht, rfl⟩ | ⟨-, tomb, htomb, hexp, rfl⟩ := refreshFamily_cases hF
  · obtain hold | ⟨value, hop, hk⟩ := exec_refresh h ht
    · exact refreshFamily_of_refresh hold
    · exact absurd (cfg.env.tokenHash_injective hk).symm (hv value t hop)
  · obtain hold | ⟨value, t, -, -, ht, -, rfl⟩ := exec_tombstones h htomb
    · -- the tombstone was there, so no record was
      cases hrec : sh.tokens.refresh.get (cfg.env.tokenHash v) with
      | none => exact refreshFamily_of_tombstone hrec hold (expired_mono (exec_now h) hexp)
      | some t =>
        rw [hspent _ t hrec] at hold
        cases hold
    · exact refreshFamily_of_refresh ht

/-- A claim answers with the family of the value it was given. -/
theorem refreshFamily_of_consume
    (h : (Stage.ofRefresh (s.consumeRefresh env clock v).1).rotates = some F) :
    s.refreshFamily env clock v = .ok F := by
  cases hv : s.refresh.get (env.tokenHash v) with
  | none =>
    obtain he | ⟨tomb, htomb, hexp, he⟩ := consumeRefresh_error hv
    · rw [he] at h
      cases h
    · rw [he] at h
      cases h
      exact refreshFamily_of_tombstone hv htomb hexp
  | some t =>
    rw [consumeRefresh_of_get hv] at h
    simp only [Stage.ofRefresh, Stage.rotates] at h
    split_ifs at h
    cases h
    exact refreshFamily_of_refresh hv

include h in
/-- Only the turnstile operations touch the turnstiles. -/
theorem exec_locked (hlock : ∀ key, op ≠ .lock key) (hunlock : ∀ key, op ≠ .unlock key) :
    sh'.locked = sh.locked := by
  cases op with
  | lock key => exact absurd rfl (hlock key)
  | unlock key => exact absurd rfl (hunlock key)
  | _ =>
    dsimp only [exec] at h
    try split at h
    all_goals cases h
    all_goals rfl

/-! ## The invariant -/

/-- The key of a family's turnstile. -/
def familyKey (familyID : String) : String := "refresh:family:" ++ familyID

theorem refreshKey_ok (hF : F ≠ "") : refreshKey env v (.ok F) = .ok (familyKey F) := if_pos hF

/-- The family was drawn by a call that has written both its records. -/
def Founded (ph : ℕ → Option Phase) (familyID : String) : Prop :=
  ∃ a p, ph a = some p ∧ familyID ∈ p.drawn ∧ p.stage.Written

/-- What holds of one call. -/
structure FamilyAt (env : Env) (sh : Shared) (p : Phase) : Prop where
  /-- A value that is still to be handed out has not been spent. -/
  unspent : p.stage ≠ .settled → ∀ v ∈ p.drawn, sh.tokens.tombstones.get (env.tokenHash v) = none
  nonempty : ∀ v ∈ p.drawn, v ≠ ""
  /-- What `RefreshFamily` has answered is what it would answer where it still finds the value. -/
  read : ∀ v answer, p.family = some (v, answer) → v ∈ p.presented ∧
    ∀ F, sh.tokens.refreshFamily env (some sh.now) v = .ok F → answer = .ok F
  minting : ∀ c familyID at_, p.stage = .minting c familyID at_ →
    if c.familyID = "" then familyID ∈ p.drawn else familyID = c.familyID

/-- **Families**: what holds in every reachable state. -/
structure Families (env : Env) (sh : Shared) (ph : ℕ → Option Phase) : Prop where
  refresh : ∀ k t, sh.tokens.refresh.get k = some t → t.familyID ≠ "" ∧ Founded ph t.familyID
  tombstones : ∀ k t, sh.tokens.tombstones.get k = some t → t.familyID ≠ "" ∧ Founded ph t.familyID
  once : ∀ k t, sh.tokens.refresh.get k = some t → sh.tokens.tombstones.get k = none
  each : ∀ i p, ph i = some p → FamilyAt env sh p
  /-- A call that rotates or revokes a family holds its turnstile. -/
  rotates : ∀ i p, ph i = some p → ∀ F, p.stage.rotates = some F →
    F ≠ "" ∧ Founded ph F ∧ p.held = some (familyKey F)
  held : ∀ i p, ph i = some p → ∀ key, p.held = some key → key ∈ sh.locked
  exclusive : ∀ i p, ph i = some p → ∀ j q, ph j = some q → ∀ key, p.held = some key →
    q.held = some key → i = j

include hi ha in
theorem Founded.update (h : Founded ph F) : Founded (update ph i (some (p.advance op r))) F := by
  obtain ⟨a, q, hq, hF, hw⟩ := h
  by_cases hai : a = i
  · subst hai
    cases hi.symm.trans hq
    exact ⟨a, _, update_self .., advance_drawn p op r hF, hw.advance ha⟩
  · exact ⟨a, q, by rw [update_of_ne hai, hq], hF, hw⟩

theorem Founded.start (h : Founded ph F) (hi : ph i = none) (c : Call) :
    Founded (Function.update ph i (some (Phase.start c))) F := by
  obtain ⟨a, q, hq, hF, hw⟩ := h
  exact ⟨a, q, update_of_none hi hq, hF, hw⟩

include ha hex in
/-- What holds of a call is not disturbed by the operations of another. -/
theorem FamilyAt.stable {q : Phase} (hq : FamilyAt cfg.env sh q) (hTp : TidyAt cfg.env sh p)
    (hTq : TidyAt cfg.env sh q)
    (honce : ∀ k t, sh.tokens.refresh.get k = some t → sh.tokens.tombstones.get k = none) :
    FamilyAt cfg.env sh' q where
  unspent hs v hv := by
    cases htomb : sh'.tokens.tombstones.get (cfg.env.tokenHash v) with
    | none => rfl
    | some tomb =>
      obtain hold | ⟨value, t, rfl, hk, -⟩ := exec_tombstones hex htomb
      · rw [hq.unspent hs v hv] at hold
        cases hold
      · -- the value spent was presented, and this one has not been handed out
        have hne := hTq.ne_presented hTp hs hv ha.2.2.1
        exact absurd (cfg.env.tokenHash_injective hk).symm hne
  nonempty := hq.nonempty
  read v answer h := by
    obtain ⟨hpres, hread⟩ := hq.read v answer h
    refine ⟨hpres, fun F hF => hread F (refreshFamily_before hex honce ?_ hF)⟩
    rintro value t rfl
    obtain ⟨hdrawn, c, at_, hs, -⟩ := ha
    exact (hTp.ne_presented hTq (by rw [hs]; nofun) hdrawn hpres).symm
  minting := hq.minting

include ha hex in
/-- What holds of a call is kept by its own operations. -/
theorem FamilyAt.self (hp : FamilyAt cfg.env sh p) (hT : TidyAt cfg.env sh p)
    (honce : ∀ k t, sh.tokens.refresh.get k = some t → sh.tokens.tombstones.get k = none) :
    FamilyAt cfg.env sh' (p.advance op r) := by
  have hs := hp.stable ha hex hT hT honce
  have hstage : (p.advance op r).stage ≠ .settled → p.stage ≠ .settled :=
    fun h h' => h (advance_settled ha h')
  have hminting : ∀ c familyID at_, (p.advance op r).stage = .minting c familyID at_ →
      if c.familyID = "" then familyID ∈ (p.advance op r).drawn else familyID = c.familyID := by
    intro c familyID at_ h
    obtain hold | ⟨value, t, rfl, hclaimed, rfl⟩ := minting_advance ha h
    · have hold := hp.minting c familyID at_ hold
      split_ifs at hold ⊢ with hempty
      · exact advance_drawn p op r hold
      · exact hold
    · obtain ⟨-, c', hs, -, -, hfam⟩ := ha
      cases hclaimed.symm.trans hs
      exact hfam
  cases op with
  | receive values =>
    refine ⟨fun h => hs.unspent (hstage h), hs.nonempty, fun v answer h => ?_, hminting⟩
    exact absurd (hp.read v answer h).1 (by rw [ha.2.1]; exact not_mem_nil)
  | refreshFamily value =>
    cases hex
    refine ⟨hp.unspent, hp.nonempty, fun v answer h => ?_, hminting⟩
    cases h
    exact ⟨ha.2.2, fun F hF => hF⟩
  | newToken =>
    obtain ⟨⟨hne, -, htomb⟩, rfl⟩ := exec_newToken hex
    refine ⟨fun h v hv => ?_, fun v hv => ?_, hp.read, hminting⟩
    · obtain rfl | hv := mem_cons.1 hv
      · exact htomb
      · exact hp.unspent h v hv
    · obtain rfl | hv := mem_cons.1 hv
      · exact hne
      · exact hp.nonempty v hv
  | grantEpoch =>
    revert hstage hminting
    exact readEpoch_cases fun _ _ hstage hminting =>
      ⟨fun h => hs.unspent (hstage h), hs.nonempty, hs.read, hminting⟩
  | _ => exact ⟨fun h => hs.unspent (hstage h), hs.nonempty, hs.read, hminting⟩

/-- The family of a new generation: it is the one that is rotated, or the call has drawn it. -/
theorem FamilyAt.founded (h : FamilyAt cfg.env sh p) (hs : p.stage = .minting c familyID at_)
    (hrot : ∀ F, p.stage.rotates = some F → F ≠ "" ∧ Founded ph F ∧ p.held = some (familyKey F)) :
    familyID ≠ "" ∧ (familyID ∈ p.drawn ∨ Founded ph familyID) := by
  have hfam := h.minting c familyID at_ hs
  split_ifs at hfam with hempty
  · exact ⟨h.nonempty _ hfam, .inl hfam⟩
  · subst hfam
    obtain ⟨hne, hfounded, -⟩ := hrot c.familyID (by rw [hs]; exact if_neg hempty)
    exact ⟨hne, .inr hfounded⟩

include ha hex in
/-- The turnstiles a call holds after an operation: it has entered one, or left the one it held, or
nothing has changed. -/
theorem held_cases :
    (∃ key, p.held = none ∧ (p.advance op r).held = some key ∧ key ∉ sh.locked ∧
      sh'.locked = key :: sh.locked) ∨
    (∃ key, p.held = some key ∧ (p.advance op r).held = none ∧ sh'.locked = sh.locked.erase key) ∨
    ((p.advance op r).held = p.held ∧ sh'.locked = sh.locked) := by
  cases op with
  | lock key =>
    dsimp only [exec] at hex
    split at hex
    · cases hex
    · rename_i hfree
      cases hex
      exact .inl ⟨key, ha.2.1, rfl, by simpa using hfree, rfl⟩
  | unlock key =>
    cases hex
    exact .inr (.inl ⟨key, ha.2, rfl, rfl⟩)
  | grantEpoch =>
    refine .inr (.inr ⟨?_, exec_locked hex nofun nofun⟩)
    exact readEpoch_cases fun _ _ => rfl
  | _ => exact .inr (.inr ⟨rfl, exec_locked hex nofun nofun⟩)

include hT hi ha hex in
/-- **Step lemma.** -/
theorem Families.step (h : Families cfg.env sh ph) :
    Families cfg.env sh' (update ph i (some (p.advance op r))) where
  refresh k t ht := by
    obtain hold | ⟨value, rfl, -⟩ := exec_refresh hex ht
    · exact (h.refresh k t hold).imp_right fun hF => hF.update hi ha
    · obtain ⟨-, c, at_, hs, -⟩ := id ha
      obtain ⟨hne, hdrawn | hfounded⟩ := (h.each i p hi).founded hs (h.rotates i p hi)
      · refine ⟨hne, i, _, update_self .., hdrawn, ?_⟩
        change (p.stage.saveRefresh value).Written
        rw [hs]
        trivial
      · exact ⟨hne, hfounded.update hi ha⟩
  tombstones k t ht := by
    obtain hold | ⟨value, t', -, -, ht', -, rfl⟩ := exec_tombstones hex ht
    · exact (h.tombstones k t hold).imp_right fun hF => hF.update hi ha
    · exact (h.refresh k t' ht').imp_right fun hF => hF.update hi ha
  once k t ht := by
    cases htomb : sh'.tokens.tombstones.get k with
    | none => rfl
    | some tomb =>
      obtain hold | ⟨value, t', -, -, -, hnone, -⟩ := exec_tombstones hex htomb
      · obtain hrec | ⟨value, rfl, rfl⟩ := exec_refresh hex ht
        · rw [h.once k t hrec] at hold
          cases hold
        · obtain ⟨hdrawn, c, at_, hs, -⟩ := ha
          rw [(h.each i p hi).unspent (by rw [hs]; nofun) value hdrawn] at hold
          cases hold
      · rw [hnone] at ht
        cases ht
  each := forall_kept ((h.each i p hi).self ha hex (hT.each i p hi) h.once)
    fun j q hj => (h.each j q hj).stable ha hex (hT.each i p hi) (hT.each j q hj) h.once
  rotates := by
    refine forall_kept (fun F hF => ?_) fun j q hj F hF => ?_
    · obtain ⟨hold, hheld⟩ | ⟨value, rfl⟩ := rotates_advance ha hF
      · obtain ⟨hne, hfounded, hkey⟩ := h.rotates i p hi F hold
        exact ⟨hne, hfounded.update hi ha, hheld.trans hkey⟩
      · -- the turnstile was chosen by what `RefreshFamily` answered, which has not changed since
        have hfound : sh.tokens.refreshFamily cfg.env (some sh.now) value = .ok F := by
          cases hex
          exact refreshFamily_of_consume hF
        have hfam : F ≠ "" ∧ Founded ph F := by
          obtain ⟨t, ht, rfl⟩ | ⟨-, tomb, htomb, -, rfl⟩ := refreshFamily_cases hfound
          · exact h.refresh _ t ht
          · exact h.tombstones _ tomb htomb
        obtain ⟨answer, key, hread, hkey, hheld⟩ := ha.2.2.2.1
        rw [((h.each i p hi).read value answer hread).2 F hfound, refreshKey_ok hfam.1] at hkey
        cases hkey
        exact ⟨hfam.1, hfam.2.update hi ha, hheld⟩
    · obtain ⟨hne, hfounded, hkey⟩ := h.rotates j q hj F hF
      exact ⟨hne, hfounded.update hi ha, hkey⟩
  held := by
    obtain ⟨key, -, hnew, -, hlocked⟩ | ⟨key, hold, hnew, hlocked⟩ | ⟨hsame, hlocked⟩ :=
      held_cases ha hex
    · rw [hlocked]
      refine forall_kept (fun key' hkey => ?_) fun j q hj key' hkey =>
        mem_cons_of_mem _ (h.held j q hj key' hkey)
      rw [hnew] at hkey
      cases hkey
      exact mem_cons_self
    · rw [hlocked]
      refine forall_update (fun key' hkey => ?_) fun j q hji hj key' hkey => ?_
      · rw [hnew] at hkey
        cases hkey
      · refine (mem_erase_of_ne ?_).2 (h.held j q hj key' hkey)
        rintro rfl
        exact hji (h.exclusive j q hj i p hi _ hkey hold)
    · rw [hlocked]
      refine forall_kept (fun key' hkey => ?_) h.held
      exact h.held i p hi key' (hsame.symm.trans hkey)
  exclusive := by
    -- another call that holds the turnstile this call holds now
    have hother : ∀ j q, ph j = some q → ∀ key, (p.advance op r).held = some key →
        q.held = some key → i = j := by
      intro j q hj key hnew hkey
      obtain ⟨key', -, hnew', hfree, -⟩ | ⟨key', -, hnew', -⟩ | ⟨hsame, -⟩ := held_cases ha hex
      · cases hnew'.symm.trans hnew
        exact absurd (h.held j q hj key hkey) hfree
      · rw [hnew'] at hnew
        cases hnew
      · exact h.exclusive i p hi j q hj key (hsame.symm.trans hnew) hkey
    refine forall_kept (forall_kept (fun _ _ _ => rfl) hother)
      fun j q hj => forall_kept (fun key hkey hnew => (hother j q hj key hnew hkey).symm) (h.exclusive j q hj)

theorem Families.start (h : Families cfg.env sh ph) (hi : ph i = none) (c : Call) :
    Families cfg.env sh (Function.update ph i (some (Phase.start c))) where
  refresh k t ht := (h.refresh k t ht).imp_right fun hF => hF.start hi c
  tombstones k t ht := (h.tombstones k t ht).imp_right fun hF => hF.start hi c
  once := h.once
  each := forall_kept ⟨fun _ => nofun, nofun, nofun, nofun⟩ h.each
  rotates := forall_kept nofun fun j q hj F hF =>
    (h.rotates j q hj F hF).imp_right fun hrest => hrest.imp_left fun hF => hF.start hi c
  held := forall_kept nofun h.held
  exclusive := forall_kept (fun _ _ _ _ hkey => (by cases hkey)) fun j q hj =>
    forall_kept (fun _ _ hkey => (by cases hkey)) (h.exclusive j q hj)

/-! ## A revoked family -/

/-- **Dead**: the family has no record and no tombstone, no call is about to write for it, and the call
that drew it has written its records. -/
structure Dead (F : String) (sh : Shared) (ph : ℕ → Option Phase) : Prop where
  access : ∀ k t, sh.tokens.access.get k = some t → t.familyID ≠ F
  refresh : ∀ k t, sh.tokens.refresh.get k = some t → t.familyID ≠ F
  tombstones : ∀ k t, sh.tokens.tombstones.get k = some t → t.familyID ≠ F
  rotates : ∀ i p, ph i = some p → p.stage.rotates ≠ some F
  minting : ∀ i p, ph i = some p → ∀ c at_, p.stage ≠ .minting c F at_
  founded : Founded ph F

include hT hi in
/-- A family is drawn once: no call that is about to write has drawn a family that was founded. -/
theorem Founded.not_drawn (h : Founded ph F) (hp : ¬ p.stage.Written) : F ∉ p.drawn := by
  intro hF
  obtain ⟨a, q, hq, hFq, hw⟩ := h
  by_cases hai : a = i
  · subst hai
    cases hi.symm.trans hq
    exact hp hw
  · exact hT.disjoint i p hi a q hq hai F hF hFq

include hT hi in
/-- A pair is not begun for a dead family. -/
theorem Dead.saveAccess_ne (h : Dead F sh ph)
    {value : String} {t : AccessToken} (ha : Allowed cfg.env p (.saveAccess value t)) : t.familyID ≠ F := by
  rintro rfl
  obtain ⟨-, c, hs, -, -, hfam⟩ := ha
  split_ifs at hfam with hempty
  · exact h.founded.not_drawn hT hi (by rw [hs]; exact id) hfam
  · refine h.rotates i p hi ?_
    rw [hs, hfam]
    exact if_neg hempty

include hT hi ha hex in
/-- **Step lemma.** -/
theorem Dead.step (h : Dead F sh ph) : Dead F sh' (update ph i (some (p.advance op r))) where
  access k t ht := by
    obtain hold | ⟨value, rfl, -⟩ := exec_access hex ht
    · exact h.access k t hold
    · exact h.saveAccess_ne hT hi ha
  refresh k t ht := by
    obtain hold | ⟨value, rfl, -⟩ := exec_refresh hex ht
    · exact h.refresh k t hold
    · rintro rfl
      obtain ⟨-, c, at_, hs, -⟩ := ha
      exact h.minting i p hi c at_ hs
  tombstones k t ht := by
    obtain hold | ⟨value, t', -, -, ht', -, rfl⟩ := exec_tombstones hex ht
    · exact h.tombstones k t hold
    · exact h.refresh k t' ht'
  rotates := by
    refine forall_kept (fun hF => ?_) h.rotates
    obtain ⟨hold, -⟩ | ⟨value, rfl⟩ := rotates_advance ha hF
    · exact h.rotates i p hi hold
    · have hfound : sh.tokens.refreshFamily cfg.env (some sh.now) value = .ok F := by
        cases hex
        exact refreshFamily_of_consume hF
      obtain ⟨t, ht, hfam⟩ | ⟨-, tomb, htomb, -, hfam⟩ := refreshFamily_cases hfound
      · exact h.refresh _ t ht hfam
      · exact h.tombstones _ tomb htomb hfam
  minting := by
    refine forall_kept (fun c at_ hs => ?_) h.minting
    obtain hold | ⟨value, t, rfl, -, hfam⟩ := minting_advance ha hs
    · exact h.minting i p hi c at_ hold
    · exact h.saveAccess_ne hT hi ha hfam
  founded := h.founded.update hi ha

theorem Dead.start (h : Dead F sh ph) (hi : ph i = none) (c : Call) :
    Dead F sh (Function.update ph i (some (Phase.start c))) where
  access := h.access
  refresh := h.refresh
  tombstones := h.tombstones
  rotates := forall_kept nofun h.rotates
  minting := forall_kept nofun h.minting
  founded := h.founded.start hi c

/-- The records and tombstones of a family that is revoked are gone. -/
theorem revokeRefreshFamily_spec (hF : F ≠ "") :
    (∀ k t, (s.revokeRefreshFamily F).2.access.get k = some t → t.familyID ≠ F) ∧
    (∀ k t, (s.revokeRefreshFamily F).2.refresh.get k = some t → t.familyID ≠ F) ∧
    ∀ k t, (s.revokeRefreshFamily F).2.tombstones.get k = some t → t.familyID ≠ F := by
  rw [revokeRefreshFamily, if_neg hF]
  refine ⟨fun k t ht => ?_, fun k t ht => ?_, fun k t ht => ?_⟩ <;>
    simpa using ((Dict.get_filter_eq_some ..).1 ht).2

include hT hi in
/-- **The revocation** of a family under its turnstile leaves it dead. -/
theorem Families.dead (h : Families cfg.env sh ph)
    (ha : Allowed cfg.env p (.revokeRefreshFamily F)) {removed : ℕ}
    (hex : exec cfg (.revokeRefreshFamily F) ω sh = some (removed, sh')) :
    Dead F sh' (update ph i (some (p.advance (.revokeRefreshFamily F) removed))) := by
  have hrotates : p.stage.rotates = some F := by rw [show p.stage = .reused F from ha]; rfl
  obtain ⟨hne, hfounded, hheld⟩ := h.rotates i p hi F hrotates
  cases hex
  obtain ⟨haccess, hrefresh, htombstones⟩ := revokeRefreshFamily_spec (s := sh.tokens) hne
  -- no other call rotates the family, because it would hold the same turnstile
  have hother : ∀ j q, j ≠ i → ph j = some q → q.stage.rotates ≠ some F := by
    intro j q hji hj hq
    exact hji (h.exclusive j q hj i p hi _ (h.rotates j q hj F hq).2.2 hheld)
  refine ⟨haccess, hrefresh, htombstones, forall_update nofun hother,
    forall_update nofun fun j q hji hj c at_ hs => ?_, hfounded.update hi ha⟩
  have hfam := (h.each j q hj).minting c F at_ hs
  split_ifs at hfam with hempty
  · exact hfounded.not_drawn hT hj (by rw [hs]; exact id) hfam
  · refine hother j q hji hj ?_
    rw [hs, hfam]
    exact if_neg hempty

/-! ## Runs -/

/-- No call is in progress, no token has been issued and no turnstile is held; the registry and the
device store are as they are. -/
structure System.Started (σ : System cfg) : Prop where
  idle : σ.Idle
  tokens : σ.sh.tokens = .empty
  locked : σ.sh.locked = []

theorem System.Started.families (h : σ₀.Started) : Families cfg.env σ₀.sh σ₀.phase := by
  have hnone : ∀ i p, σ₀.phase i ≠ some p := fun i p hp => by
    rw [h.idle.phase i] at hp
    cases hp
  refine ⟨?_, ?_, ?_, fun i p hp => absurd hp (hnone i p), fun i p hp => absurd hp (hnone i p),
    fun i p hp => absurd hp (hnone i p), fun i p hp => absurd hp (hnone i p)⟩
  all_goals
    rw [h.tokens]
    nofun

theorem Families.runs (h : Pool.Reaches (fun _ _ => True) σ₀ τ) (hσ : σ₀.Sound)
    (hfam : Families cfg.env σ₀.sh σ₀.phase) : τ.Sound ∧ Families cfg.env τ.sh τ.phase :=
  System.invariant (I := Families cfg.env) h hσ (fun _ _ c _ hI hi => hI.start hi c)
    (fun _ _ _ _ _ _ _ _ hT hI hi _ ha hex => hI.step hT hi ha hex) hfam

/-- One client is registered, and nothing is issued. -/
def sampleNew : System sampleConfig where
  sh := { Shared.init 0 with
    clients := (∅ : Dict String Client).set "c"
      ⟨"c", "app", .public, .active, 0, ["https://r"], ["a.b"], false, []⟩ }
  threads _ := none

theorem sampleNew_started : sampleNew.Started := ⟨fun _ => rfl, rfl, rfl⟩

/-- A call with the values it draws, one for each operation. -/
def making (i : ℕ) (c : Call) (draws : List String) : List (Event (service sampleConfig)) :=
  .start i c :: draws.map (.step i)

/-- A code is issued and redeemed, and its refresh value is rotated. -/
def rotating : List (Event (service sampleConfig)) :=
  making 0 (.authorize ⟨"c", "https://r", "s", ["a.b"], [], "", sampleChallenge, "S256"⟩)
    ["", "", "code", "", "", ""] ++
  making 1 sampleExchange
    ["", "", "", "", "", "", "", "at", "rt", "family", "", "", "", "", ""] ++
  making 2 (.refresh ⟨"c", "", "rt", []⟩)
    ["", "", "", "", "", "", "", "", "", "at2", "rt2", "", "", "", "", "", ""]

/-- The value that was rotated is presented again; the last call has found the replay. -/
def replaying : List (Event (service sampleConfig)) :=
  rotating ++ making 3 (.refresh ⟨"c", "", "rt", []⟩) ["", "", "", "", "", "", ""]

end Re0Auth.OAuth

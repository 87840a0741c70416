import Re0Auth.OAuth.Families

/-!
# The shape of a refresh family

A family is carried on by one refresh value at a time: a rotation takes the record of the value that was
presented out of the store and puts the record of the next one in, and between the two it is the call
itself that carries the family on.

* **`Bears`**: what carries a family on, a refresh record or a call between its claim and its mint;
* **`Belongs`**: the owners of the records, tombstones and claims of a family;
* **`Shape`**: a family has one bearer at most and one owner;
* **`family_shape`**: in every reachable state.
-/

namespace Re0Auth.OAuth

open Lib Function Pool

variable {cfg : Config} {op : Op} {ω : String} {sh sh' : Shared} {r : op.Res} {p : Phase}
  {ph : ℕ → Option Phase} {i : ℕ} {F : String} {c : Claim} {familyID at_ value : String}
  {b : String ⊕ ℕ} {o : String × String} {σ₀ τ : System cfg}

/-- The family a call has claimed for and not written the next refresh record of, with the claim. -/
def Stage.renews : Stage → Option (String × Claim)
  | claimed c => if c.familyID = "" then none else some (c.familyID, c)
  | minting c familyID _ => some (familyID, c)
  | _ => none

theorem Stage.renews_eq_some {s : Stage} (h : s.renews = some (F, c)) :
    (s = .claimed c ∧ c.familyID = F ∧ F ≠ "") ∨ ∃ at_, s = .minting c F at_ := by
  cases s with
  | claimed c' =>
    simp only [renews] at h
    split_ifs at h with hempty
    cases h
    exact .inl ⟨rfl, rfl, hempty⟩
  | minting c' familyID at_ =>
    cases h
    exact .inr ⟨at_, rfl⟩
  | _ => cases h

variable (hT : Tidy cfg.env sh ph) (hi : ph i = some p) (ha : Allowed cfg.env p op)
  (hex : exec cfg op ω sh = some (r, sh'))

include ha in
/-- A call that has written an access record goes on with the refresh record. -/
theorem minting_cases (hs : p.stage = .minting c familyID at_) :
    (p.advance op r).stage = .minting c familyID at_ ∨ ∃ value t, op = .saveRefresh value t := by
  have hgoes := advance_busy (r := r) ha (by rw [hs]; trivial)
  generalize p.advance op r = q at hgoes ⊢
  cases hgoes with
  | still h => exact .inl (h.stage.trans hs)
  | mints => exact .inr ⟨_, _, rfl⟩
  | _ hs' => cases hs.symm.trans hs'

/-- After the operation that writes the refresh record, the pair is written. -/
theorem advance_saveRefresh {t : RefreshToken}
    (hs : p.stage = .minting c familyID at_) (r : (Op.saveRefresh value t).Res) :
    (p.advance (.saveRefresh value t) r).stage = .minted c familyID at_ value := by
  change p.stage.saveRefresh value = _
  rw [hs]
  rfl

include ha in
/-- **How a call comes to renew a family**: it claims a refresh value, or it writes the first record of
a family it has drawn. -/
theorem renews_advance
    (h : (p.advance op r).stage.renews = some (F, c)) :
    p.stage.renews = some (F, c) ∨ (∃ value, op = .consumeRefresh value) ∨
      ∃ value t, op = .saveAccess value t ∧ p.stage = .claimed c ∧ c.familyID = "" ∧ t.familyID = F := by
  obtain ⟨hs, hF, hne⟩ | ⟨at_, hs⟩ := Stage.renews_eq_some h
  · have hpending : (p.advance op r).Pending c := .inl hs
    obtain ⟨hold | ⟨familyID, at_, hold⟩, -⟩ | ⟨value, rfl⟩ | ⟨value, rfl⟩ | ⟨hash, rfl⟩ :=
      advance_pending ha hpending
    · rw [hold]
      exact .inl ((if_neg (hF ▸ hne)).trans (by rw [hF]))
    · obtain hstill | ⟨value, t, rfl⟩ := minting_cases (r := r) ha hold
      · cases hs.symm.trans hstill
      · cases hs.symm.trans (advance_saveRefresh hold r)
    · obtain ⟨code, rfl, rfl⟩ := pending_ofCode hpending
      exact absurd hF.symm hne
    · exact .inr (.inl ⟨value, rfl⟩)
    · obtain ⟨d, rfl, rfl⟩ := pending_ofDevice hpending
      exact absurd hF.symm hne
  · obtain hold | ⟨value, t, rfl, hs, hfam⟩ := minting_advance ha hs
    · rw [hold]
      exact .inl rfl
    · obtain ⟨-, c', hs', -, -, hfamily⟩ := ha
      cases hs.symm.trans hs'
      split_ifs at hfamily with hempty
      · exact .inr (.inr ⟨value, t, rfl, hs, hempty, hfam⟩)
      · rw [hs]
        refine .inl ((if_neg hempty).trans ?_)
        rw [← hfamily, hfam]

/-! ## Bearers and owners -/

/-- **Bears**: a refresh record, by its key, or a call that has claimed and not minted, by its number,
carries the family on. -/
def Bears (sh : Shared) (ph : ℕ → Option Phase) (F : String) : String ⊕ ℕ → Prop
  | .inl k => ∃ t, sh.tokens.refresh.get k = some t ∧ t.familyID = F
  | .inr i => ∃ p c, ph i = some p ∧ p.stage.renews = some (F, c)

/-- **Recorded**: the client and the subject of an access record, a refresh record or a tombstone of the
family. -/
inductive Recorded (s : MemoryStore) (F : String) : String × String → Prop
  | access {k : String} {t : AccessToken} (h : s.access.get k = some t) (hF : t.familyID = F) :
    Recorded s F (t.clientID, t.subject)
  | refresh {k : String} {t : RefreshToken} (h : s.refresh.get k = some t) (hF : t.familyID = F) :
    Recorded s F (t.clientID, t.subject)
  | tombstone {k : String} {t : RefreshTombstone} (h : s.tombstones.get k = some t)
    (hF : t.familyID = F) : Recorded s F (t.clientID, t.subject)

/-- **Belongs**: the family is recorded for the owner, or renewed for it. -/
inductive Belongs (sh : Shared) (ph : ℕ → Option Phase) (F : String) : String × String → Prop
  | recorded {o : String × String} (h : Recorded sh.tokens F o) : Belongs sh ph F o
  | renewed {i : ℕ} {p : Phase} {c : Claim} (hi : ph i = some p) (h : p.stage.renews = some (F, c)) :
    Belongs sh ph F (c.clientID, c.subject)

/-- A call has drawn the family and has written a record of it. -/
def Begun (ph : ℕ → Option Phase) (F : String) : Prop :=
  ∃ a p, ph a = some p ∧ F ∈ p.drawn ∧ (p.stage.Written ∨ ∃ c at_, p.stage = .minting c F at_)

/-- **Shape** of the families in a reachable state. -/
structure Shape (env : Env) (sh : Shared) (ph : ℕ → Option Phase) : Prop where
  families : Families env sh ph
  access : ∀ k t, sh.tokens.access.get k = some t → Begun ph t.familyID
  bearer : ∀ F b b', Bears sh ph F b → Bears sh ph F b' → b = b'
  owner : ∀ F o o', Belongs sh ph F o → Belongs sh ph F o' → o = o'

theorem Bears.belongs (h : Bears sh ph F b) : ∃ o, Belongs sh ph F o := by
  cases b with
  | inl k =>
    obtain ⟨t, ht, hF⟩ := h
    exact ⟨_, .recorded (.refresh ht hF)⟩
  | inr i =>
    obtain ⟨p, c, hi, hs⟩ := h
    exact ⟨_, .renewed hi hs⟩

theorem Founded.begun (h : Founded ph F) : Begun ph F := by
  obtain ⟨a, p, hp, hF, hw⟩ := h
  exact ⟨a, p, hp, hF, .inl hw⟩

include hi in
/-- A family that is renewed was drawn by a call that has written a record of it. -/
theorem Families.begun (h : Families cfg.env sh ph)
    (hrenews : p.stage.renews = some (F, c)) : Begun ph F := by
  have hrotates : ∀ F, p.stage.rotates = some F → Founded ph F := fun F hF => (h.rotates i p hi F hF).2.1
  obtain ⟨hs, rfl, hne⟩ | ⟨at_, hs⟩ := Stage.renews_eq_some hrenews
  · refine (hrotates c.familyID ?_).begun
    rw [hs]
    exact if_neg hne
  · have hfam := (h.each i p hi).minting c F at_ hs
    split_ifs at hfam with hempty
    · exact ⟨i, p, hi, hfam, .inr ⟨c, at_, hs⟩⟩
    · refine (hrotates F ?_).begun
      rw [hs, hfam]
      exact if_neg hempty

include hT hi in
/-- Whoever has drawn a family that was begun is past its claim. -/
theorem Begun.not_drawn (h : Begun ph F) (hs : p.stage = .claimed c) : F ∉ p.drawn := by
  intro hF
  obtain ⟨a, q, hq, hFq, hstage⟩ := h
  by_cases hai : a = i
  · subst hai
    cases hi.symm.trans hq
    rw [hs] at hstage
    obtain hw | ⟨c', at_, hm⟩ := hstage
    · exact hw
    · cases hm
  · exact hT.disjoint i p hi a q hq hai F hF hFq

/-- Every family with an owner was begun. -/
theorem Shape.begun (h : Shape cfg.env sh ph) (ho : Belongs sh ph F o) : Begun ph F := by
  cases ho with
  | recorded ho =>
    cases ho with
    | access ht hF => exact hF ▸ h.access _ _ ht
    | refresh ht hF => exact hF ▸ (h.families.refresh _ _ ht).2.begun
    | tombstone ht hF => exact hF ▸ (h.families.tombstones _ _ ht).2.begun
  | renewed hi hs => exact h.families.begun hi hs

/-! ## Steps -/

/-- What carries a family on after the operation and did not before. -/
def newBearer (env : Env) (i : ℕ) : Op → String ⊕ ℕ
  | .saveRefresh value _ => .inl (env.tokenHash value)
  | _ => .inr i

/-- A refresh value that is claimed leaves the store. -/
theorem consumeRefresh_claimed {r : Except Error RefreshToken}
    (hex : exec cfg (.consumeRefresh value) ω sh = some (r, sh'))
    (hs : (Stage.ofRefresh r).renews = some (F, c)) :
    ∃ t, sh.tokens.refresh.get (cfg.env.tokenHash value) = some t ∧ t.familyID = F ∧
      c = ⟨t.clientID, t.subject, t.scopes, t.familyID⟩ ∧
      sh'.tokens.refresh.get (cfg.env.tokenHash value) = none := by
  cases hv : sh.tokens.refresh.get (cfg.env.tokenHash value) with
  | none =>
    cases hex
    obtain he | ⟨tomb, -, -, he⟩ := @MemoryStore.consumeRefresh_error sh.tokens cfg.env value (some sh.now) hv
    all_goals
      rw [he] at hs
      cases hs
  | some t =>
    cases hex
    rw [MemoryStore.consumeRefresh_of_get hv] at hs ⊢
    obtain ⟨hs, hF, -⟩ | ⟨at_, hs⟩ := Stage.renews_eq_some hs
    · cases hs
      exact ⟨t, rfl, hF, rfl, Dict.get_del_self ..⟩
    · cases hs

include hT hi ha hex in
/-- What bears a family after an operation bore it before, or has taken the place of all that did. -/
theorem Shape.bears_cases (h : Shape cfg.env sh ph)
    (hb : Bears sh' (update ph i (some (p.advance op r))) F b) :
    Bears sh ph F b ∨ b = newBearer cfg.env i op ∧ ∀ a, Bears sh ph F a →
      ¬ Bears sh' (update ph i (some (p.advance op r))) F a := by
  -- one bearer that goes is all there were
  have hgone : ∀ a, Bears sh ph F a → ¬ Bears sh' (update ph i (some (p.advance op r))) F a →
      ∀ a', Bears sh ph F a' → ¬ Bears sh' (update ph i (some (p.advance op r))) F a' :=
    fun a ha hna a' ha' => h.bearer F a a' ha ha' ▸ hna
  cases b with
  | inl k =>
    obtain ⟨t, ht, hF⟩ := hb
    obtain hold | ⟨value, rfl, rfl⟩ := exec_refresh hex ht
    · exact .inl ⟨t, hold, hF⟩
    · obtain ⟨-, c, at_, hs, -⟩ := id ha
      refine .inr ⟨rfl, hgone (.inr i) ⟨p, c, hi, by rw [hs, hF]; rfl⟩ ?_⟩
      rintro ⟨q, c', hq, hrenews⟩
      rw [update_self] at hq
      cases hq
      rw [advance_saveRefresh hs r] at hrenews
      cases hrenews
  | inr j =>
    obtain ⟨q, c, hq, hrenews⟩ := hb
    obtain ⟨rfl, rfl⟩ | ⟨hji, hq⟩ := update_cases hq
    · obtain hold | ⟨value, rfl⟩ | ⟨value, t, rfl, hs, hempty, rfl⟩ := renews_advance ha hrenews
      · exact .inl ⟨p, c, hi, hold⟩
      · obtain ⟨t, ht, hF, -, hnone⟩ := consumeRefresh_claimed hex hrenews
        refine .inr ⟨rfl, hgone (.inl _) ⟨t, ht, hF⟩ ?_⟩
        rintro ⟨t', ht', -⟩
        exact absurd (hnone.symm.trans ht') nofun
      · -- a family that was just drawn is borne by nothing
        obtain ⟨-, c', hs', -, -, hfam⟩ := ha
        cases hs.symm.trans hs'
        rw [if_pos hempty] at hfam
        refine .inr ⟨rfl, fun a hbears => absurd hfam ?_⟩
        obtain ⟨o, ho⟩ := hbears.belongs
        exact (h.begun ho).not_drawn hT hi hs
    · exact .inl ⟨q, c, hq, hrenews⟩

/-- The owner of the family a call is about to begin. -/
def newOwner (p : Phase) : String × String :=
  match p.stage with
  | .claimed c => (c.clientID, c.subject)
  | _ => ("", "")

include hT hi ha hex in
/-- The owner of a family after an operation owned it before, or nobody did. -/
theorem Shape.belongs_cases (h : Shape cfg.env sh ph)
    (ho : Belongs sh' (update ph i (some (p.advance op r))) F o) :
    Belongs sh ph F o ∨ o = newOwner p ∧ ∀ o', ¬ Belongs sh ph F o' := by
  -- the first record of a family
  have hfirst : ∀ {value : String} {t : AccessToken}, op = .saveAccess value t → t.familyID = F →
      ∀ {c : Claim}, p.stage = .claimed c →
      Belongs sh ph F (c.clientID, c.subject) ∨
        (c.clientID, c.subject) = newOwner p ∧ ∀ o', ¬ Belongs sh ph F o' := by
    rintro value t rfl hF c hs
    obtain ⟨-, c', hs', -, -, hfam⟩ := id ha
    cases hs.symm.trans hs'
    split_ifs at hfam with hempty
    · refine .inr ⟨by rw [newOwner, hs], fun o' ho' => ?_⟩
      exact (h.begun ho').not_drawn hT hi hs (hF ▸ hfam)
    · refine .inl (.renewed hi ?_)
      rw [hs, ← hF, hfam]
      exact if_neg hempty
  cases ho with
  | recorded ho =>
    cases ho with
    | access ht hF =>
      obtain hold | ⟨value, rfl, -⟩ := exec_access hex ht
      · exact .inl (.recorded (.access hold hF))
      · obtain ⟨-, c, hs, ⟨hclient, hsubject, -⟩, -⟩ := id ha
        rw [hclient, hsubject]
        exact hfirst rfl hF hs
    | refresh ht hF =>
      obtain hold | ⟨value, rfl, -⟩ := exec_refresh hex ht
      · exact .inl (.recorded (.refresh hold hF))
      · obtain ⟨-, c, at_, hs, hclient, hsubject, -⟩ := ha
        rw [hclient, hsubject]
        exact .inl (.renewed hi (by rw [hs, hF]; rfl))
    | tombstone ht hF =>
      obtain hold | ⟨value, t, -, -, hold, -, rfl⟩ := exec_tombstones hex ht
      · exact .inl (.recorded (.tombstone hold hF))
      · exact .inl (.recorded (.refresh hold hF))
  | @renewed j q c hq hrenews =>
    obtain ⟨rfl, rfl⟩ | ⟨hji, hq⟩ := update_cases hq
    · obtain hold | ⟨value, rfl⟩ | ⟨value, t, rfl, hs, -, rfl⟩ := renews_advance ha hrenews
      · exact .inl (.renewed hi hold)
      · obtain ⟨t, ht, hF, rfl, -⟩ := consumeRefresh_claimed hex hrenews
        exact .inl (.recorded (.refresh ht hF))
      · exact hfirst rfl rfl hs
    · exact .inl (.renewed hq hrenews)

include hi ha in
theorem Begun.update (h : Begun ph F) : Begun (update ph i (some (p.advance op r))) F := by
  obtain ⟨a, q, hq, hF, hstage⟩ := h
  by_cases hai : a = i
  · subst hai
    cases hi.symm.trans hq
    refine ⟨a, _, update_self .., advance_drawn p op r hF, ?_⟩
    obtain hw | ⟨c, at_, hm⟩ := hstage
    · exact .inl (hw.advance ha)
    · obtain hstill | ⟨value, t, rfl⟩ := minting_cases (r := r) ha hm
      · exact .inr ⟨c, at_, hstill⟩
      · refine .inl ?_
        rw [advance_saveRefresh hm r]
        trivial
  · exact ⟨a, q, by rw [update_of_ne hai, hq], hF, hstage⟩

include hT hi ha hex in
/-- **Step lemma.** -/
theorem Shape.step (h : Shape cfg.env sh ph) : Shape cfg.env sh' (update ph i (some (p.advance op r))) where
  families := h.families.step hT hi ha hex
  access k t ht := by
    obtain hold | ⟨value, rfl, -⟩ := exec_access hex ht
    · exact (h.access k t hold).update hi ha
    · obtain ⟨-, c, hs, -, -, hfam⟩ := id ha
      split_ifs at hfam with hempty
      · refine ⟨i, _, update_self .., hfam, .inr ⟨c, value, ?_⟩⟩
        change p.stage.saveAccess _ _ = _
        rw [hs]
        rfl
      · have hrotates : p.stage.rotates = some t.familyID := by
          rw [hs, hfam]
          exact if_neg hempty
        exact (h.families.rotates i p hi _ hrotates).2.1.begun.update hi ha
  bearer F b b' hb hb' := by
    obtain hold | ⟨hnew, hgone⟩ := h.bears_cases hT hi ha hex hb
    · obtain hold' | ⟨-, hgone'⟩ := h.bears_cases hT hi ha hex hb'
      · exact h.bearer F b b' hold hold'
      · exact absurd hb (hgone' b hold)
    · obtain hold' | ⟨hnew', -⟩ := h.bears_cases hT hi ha hex hb'
      · exact absurd hb' (hgone b' hold')
      · exact hnew.trans hnew'.symm
  owner F o o' ho ho' := by
    obtain hold | ⟨hnew, hnone⟩ := h.belongs_cases hT hi ha hex ho
    · obtain hold' | ⟨-, hnone'⟩ := h.belongs_cases hT hi ha hex ho'
      · exact h.owner F o o' hold hold'
      · exact absurd hold (hnone' o)
    · obtain hold' | ⟨hnew', -⟩ := h.belongs_cases hT hi ha hex ho'
      · exact absurd hold' (hnone o')
      · exact hnew.trans hnew'.symm

theorem Shape.start (h : Shape cfg.env sh ph) (hi : ph i = none) (c : Call) :
    Shape cfg.env sh (update ph i (some (Phase.start c))) := by
  -- a call that starts renews nothing
  have hold : ∀ {j : ℕ} {q : Phase} {F : String} {cl : Claim},
      update ph i (some (Phase.start c)) j = some q → q.stage.renews = some (F, cl) →
      ph j = some q := by
    intro j q F cl hq hrenews
    by_cases hji : j = i
    · subst hji
      rw [update_self] at hq
      cases hq
      cases hrenews
    · rwa [update_of_ne hji] at hq
  have hbears : ∀ {F b}, Bears sh (update ph i (some (Phase.start c))) F b → Bears sh ph F b := by
    intro F b hb
    cases b with
    | inl k => exact hb
    | inr j =>
      obtain ⟨q, cl, hq, hrenews⟩ := hb
      exact ⟨q, cl, hold hq hrenews, hrenews⟩
  have hbelongs : ∀ {F o}, Belongs sh (update ph i (some (Phase.start c))) F o →
      Belongs sh ph F o := by
    intro F o ho
    cases ho with
    | recorded ho => exact .recorded ho
    | renewed hq hrenews => exact .renewed (hold hq hrenews) hrenews
  refine ⟨h.families.start hi c, fun k t ht => ?_, fun F b b' hb hb' => h.bearer F b b' (hbears hb) (hbears hb'),
    fun F o o' ho ho' => h.owner F o o' (hbelongs ho) (hbelongs ho')⟩
  obtain ⟨a, q, hq, hrest⟩ := h.access k t ht
  exact ⟨a, q, update_of_none hi hq, hrest⟩

theorem System.Started.shape (h : σ₀.Started) : Shape cfg.env σ₀.sh σ₀.phase := by
  have hnone : ∀ {i p}, σ₀.phase i ≠ some p := fun hp => absurd ((h.idle.phase _).symm.trans hp) nofun
  refine ⟨h.families, ?_, fun F b b' hb => ?_, fun F o o' ho => ?_⟩
  · rw [h.tokens]
    nofun
  · cases b with
    | inl k =>
      obtain ⟨t, ht, -⟩ := hb
      rw [h.tokens] at ht
      cases ht
    | inr i =>
      obtain ⟨p, c, hi, -⟩ := hb
      exact absurd hi hnone
  · cases ho with
    | recorded ho =>
      rw [h.tokens] at ho
      cases ho <;> contradiction
    | renewed hi _ => exact absurd hi hnone

/-- **The shape of a family** in every state any interleaving of calls leads to: it has at most one live
refresh record, a call that has claimed one and not written the next counted as one; no value is live and
spent; and its records and tombstones are all for one client and one subject. -/
theorem family_shape (h₀ : σ₀.Started) (h : Pool.Reaches (fun _ _ => True) σ₀ τ) :
    (∀ F b b', Bears τ.sh τ.phase F b → Bears τ.sh τ.phase F b' → b = b') ∧
      (∀ k t, τ.sh.tokens.refresh.get k = some t → τ.sh.tokens.tombstones.get k = none) ∧
      ∀ F o o', Recorded τ.sh.tokens F o → Recorded τ.sh.tokens F o' → o = o' := by
  obtain ⟨-, hshape⟩ := System.invariant (I := Shape cfg.env) h h₀.idle.sound
    (fun _ _ c _ hI hi => hI.start hi c)
    (fun _ _ _ _ _ _ _ _ hT hI hi _ ha hex => hI.step hT hi ha hex) h₀.shape
  exact ⟨hshape.bearer, hshape.families.once,
    fun F o o' ho ho' => hshape.owner F o o' (.recorded ho) (.recorded ho')⟩

/-- A rotation that has claimed the refresh value of its family and not minted bears the family alone. -/
theorem family_shape_rotating : ∃ σ : System sampleConfig,
    Bears σ.sh σ.phase "family" (.inr 2) ∧ ∀ k t, σ.sh.tokens.refresh.get k = some t →
      t.familyID ≠ "family" := by
  have hreaches := reaches_of_run (σ := sampleNew) (rotating.take 34) rfl
  obtain ⟨hone, -⟩ := family_shape sampleNew_started hreaches
  exact ⟨(sampleNew.runIf (fun _ _ => true) (rotating.take 34)).get rfl, ⟨_, _, rfl, rfl⟩, fun k t ht hF =>
    nomatch hone "family" (.inr 2) (.inl k) ⟨_, _, rfl, rfl⟩ ⟨t, ht, hF⟩⟩

end Re0Auth.OAuth

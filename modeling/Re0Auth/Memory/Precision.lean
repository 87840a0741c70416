import Re0Auth.Memory.Revocation

/-!
# Which revocations refuse a mint

A mint compares the generations its grant was resolved at with the present ones. The generations are kept
for the whole store, for each client and for each subject, while a revocation selects by client and subject
together: the revocation of one pair moves the generation of the client for every other subject.

* **`Names`**: the revocation moves a generation that the grants of the pair are compared by;
* **`exec_epochs`**: no other step moves one;
* **`refused_iff_revoked`**: where the revocations that name the pair are for it, a mint is refused exactly
  when one took place since its grant was resolved;
* **`refused_by_another`**: a mint that is refused because of another subject's revocation.
-/

namespace Re0Auth.Memory

open Lib OAuth Oidc OIDCStore Function Pool Option RevocationEpochs

variable {env : Env} {op : Op} {ω : Choice} {sh sh' : Shared} {r : Except Err op.Answer}
  {f : TokenFilter} {c u : String} {s : OIDCStore} {now : Time} {draws : MintDraws}
  {request : TokenRequest} {current : String} {p : Phase} {o : String × String}
  {σ₀ σ₁ σ₂ τ : Deployment env} {j : ℕ} {captured : Option RevocationEpochs} {seen : Prop}
  {e : RevocationEpochs}

/-! ## Generations -/

/-- The revocation moves a generation of the pair. -/
def Names (f : TokenFilter) (c u : String) : Prop :=
  f.clientID = "" ∧ f.subject = "" ∨ c ≠ "" ∧ f.clientID = c ∨ u ≠ "" ∧ f.subject = u

instance : Decidable (Names f c u) := inferInstanceAs (Decidable (_ ∨ _))

/-- A revocation that does not name the pair leaves its generations alone. -/
theorem bumpRevocationEpochs_keeps (h : ¬Names f c u) :
    (s.bumpRevocationEpochsLocked f.clientID f.subject).revocationEpochsLocked c u =
      s.revocationEpochsLocked c u := by
  simp only [Names, not_or, not_and] at h
  obtain ⟨hglobal, hclient, hsubject⟩ := h
  simp only [revocationEpochsLocked, RevocationEpochs.mk.injEq]
  rw [bumpRevocationEpochsLocked]
  rw [if_neg (not_and.2 hglobal)]
  refine ⟨?_, ?_, ?_⟩
  · split_ifs <;> simp [epoch_bump]
  · by_cases hc : c = ""
    · rw [if_pos hc, if_pos hc]
    · split_ifs <;> simp [epoch_bump, Ne.symm (hclient hc)]
  · by_cases hu : u = ""
    · rw [if_pos hu, if_pos hu]
    · split_ifs <;> simp [epoch_bump, Ne.symm (hsubject hu)]

/-- What a mint does with the generations: it compares them. -/
theorem mint_epochs {captured : Option RevocationEpochs} :
    (s.createAccessAndRefreshTokens env draws now request captured current).2.revocationEpochs =
      s.revocationEpochs := by
  have hclaim := (drops_mintFamily env s draws current).revocationEpochs
  rw [createAccessAndRefreshTokens]
  rcases hfamily : s.mintFamily env draws current with ⟨e | familyID, s₁⟩
  all_goals
    rw [hfamily] at hclaim
    dsimp only
  · exact hclaim
  · split_ifs <;> exact hclaim

/-- **A step that revokes nothing moves no generation.** -/
theorem exec_epochs (h : exec env op ω sh = some (r, sh')) (hop : op.revokes = none) :
    sh'.store.revocationEpochs = sh.store.revocationEpochs := by
  cases exec_does h with
  | idle hstore => rw [hstore]
  | deletes hdel => exact hdel.drops.revocationEpochs
  | devices _ honly => exact honly.revocationEpochs
  | createAuthRequest req u =>
    simp only [createAuthRequest]
    split_ifs <;> rfl
  | saveAuthCode id => rfl
  | storeDevice honly => exact honly.revocationEpochs
  | mint request captured current => exact mint_epochs
  | setAuthTime id t =>
    simp only [setAuthTime]
    split <;> rfl
  | completeLogin id u scopes =>
    simp only [completeLogin]
    split
    · rfl
    · split_ifs <;> rfl
  | revokeGrant u c =>
    have hempty : u = "" ∨ c = "" := by
      by_contra hno
      rw [Op.revokes, if_neg hno] at hop
      cases hop
    dsimp only
    rw [OIDCStore.revokeGrant, if_pos hempty]
  | revokeTokens f => cases hop

/-- A revocation moves the generations first and deletes after it. -/
theorem exec_bumps (h : exec env op ω sh = some (r, sh')) (hop : op.revokes = some f) :
    ∃ sel, sh'.store =
      ((sh.store.bumpRevocationEpochsLocked f.clientID f.subject).removeSelected env sel).2 := by
  cases op with
  | revokeGrant u c =>
    rw [Op.revokes] at hop
    split_ifs at hop with hempty
    cases hop
    have hstore : sh'.store = (sh.store.revokeGrant env u c).2 := store_onStore h
    refine ⟨grantSelection u c, ?_⟩
    rw [hstore, OIDCStore.revokeGrant, if_neg hempty]
  | revokeTokens f' =>
    cases hop
    exact ⟨filterSelection f, congrArg Shared.store (shared_counted h)⟩
  | _ => cases hop

/-- **What a step does to the generations of a pair**: only a revocation that names it moves them. -/
theorem exec_epochsLocked (h : exec env op ω sh = some (r, sh'))
    (hop : ∀ f, op.revokes = some f → ¬Names f c u) :
    sh'.store.revocationEpochsLocked c u = sh.store.revocationEpochsLocked c u := by
  cases hrevokes : op.revokes with
  | none =>
    simp only [revocationEpochsLocked, epoch, exec_epochs h hrevokes]
  | some f =>
    obtain ⟨sel, hsel⟩ := exec_bumps h hrevokes
    rw [hsel, (Deletes.removeSelected .refl sel).drops.revocationEpochsLocked]
    exact bumpRevocationEpochs_keeps (hop f hrevokes)

/-! ## Grants in hand -/

/-- A call that has resolved its grant keeps it until it mints. -/
theorem holding_of_advance (ha : Allowed p op) (hresolved : p.stage ≠ .idle)
    {e : Option RevocationEpochs} (h : (p.advance op r).stage = .holding o e) : p.stage = .holding o e := by
  obtain heq | henters := Stage.advance_cases p.stage op r
  · exact heq.symm.trans h
  · rw [show p.stage.advance op r = .holding o e from h] at henters
    cases henters with
    | code => exact absurd ha.1 hresolved
    | refresh => exact absurd ha.1 hresolved
    | device => exact absurd ha.1 hresolved

/-- What a call resolves is captured at the present generations. -/
theorem captured_of_resolve (hex : exec env op ω sh = some (r, sh')) (hidle : p.stage = .idle)
    {captured : Option RevocationEpochs}
    (h : (p.advance op r).stage = .holding o captured) :
    captured = some (sh'.store.revocationEpochsLocked o.1 o.2) := by
  have hsees := exec_sees hex
  have hkeeps : op.revokes = none → ∀ c u,
      sh.store.revocationEpochsLocked c u = sh'.store.revocationEpochsLocked c u := by
    intro hnone c u
    refine (exec_epochsLocked hex fun f hf => ?_).symm
    rw [hnone] at hf
    cases hf
  obtain heq | henters := Stage.advance_cases p.stage op r
  · rw [hidle] at heq
    rw [Phase.advance, hidle, heq] at h
    cases h
  · rw [show p.stage.advance op r = .holding o captured from h] at henters
    cases henters with
    | code v a e =>
      obtain ⟨_, -, -, rfl⟩ := hsees
      rw [hkeeps rfl]
    | refresh v a e =>
      obtain ⟨t, -, rfl, rfl⟩ := hsees
      rw [hkeeps rfl]
      rfl
    | device c v d e happroved =>
      obtain ⟨d', -, -, -, hclient, hsubject, rfl⟩ := hsees happroved
      rw [hclient, hsubject, hkeeps rfl]

/-! ## Runs -/

/-- A revocation that is for the pair takes place. -/
def RevokesPair (c u : String) (σ : Deployment env) : Event (provider env) → Prop
  | .start _ _ => False
  | .step i _ => ∃ op f, σ.nextOp i = some op ∧ op.revokes = some f ∧ f.matches c u = true

/-- **No revocation names the client or the subject of the pair that is not for the pair.** -/
def Aimed (c u : String) (σ : Deployment env) : Event (provider env) → Prop
  | .start _ _ => True
  | .step i _ => ∀ op f, σ.nextOp i = some op → op.revokes = some f → Names f c u → f.matches c u = true

/-- **What has happened since a grant was resolved**: the generations it was captured at are the present
ones, unless a revocation for the pair took place. -/
structure Holding (c u : String) (e : RevocationEpochs) (j : ℕ) (seen : Prop) (τ : Deployment env) :
    Prop where
  resolved : ∃ p, τ.phase j = some p ∧ p.stage ≠ .idle ∧
    ∀ o e', p.stage = .holding o e' → o = (c, u) ∧ e' = some e
  le : e ≤ τ.sh.store.revocationEpochsLocked c u
  moved : seen ↔ e ≠ τ.sh.store.revocationEpochsLocked c u

/-- The generations after one more step. -/
theorem moved_iff {A : Prop} (hle : e ≤ sh.store.revocationEpochsLocked c u)
    (hmoved : seen ↔ e ≠ sh.store.revocationEpochsLocked c u) (hex : exec env op ω sh = some (r, sh'))
    (hA : A ↔ ∃ f, op.revokes = some f ∧ f.matches c u = true)
    (hok : ∀ f, op.revokes = some f → Names f c u → f.matches c u = true) :
    seen ∨ A ↔ e ≠ sh'.store.revocationEpochsLocked c u := by
  obtain ⟨new, heffect, -⟩ := exec_adds hex
  by_cases h : A
  · obtain ⟨f, hf, hmatches⟩ := hA.1 h
    have hne := (exec_revokes hex hf).moved c u hmatches
    exact iff_of_true (.inr h) (ne_of_moved hle (heffect.epochsLocked_le c u) hne)
  · rw [or_iff_left h, hmoved, exec_epochsLocked hex]
    exact fun f hf hnames => h (hA.2 ⟨f, hf, hok f hf hnames⟩)

/-- **Step lemma**: only a revocation for the pair leaves the captured generations behind. -/
theorem Holding.next {ev : Event (provider env)} {τ' : Deployment env}
    (h : Holding c u e j seen τ) (hconf : τ.Conforming Ends) (hok : Aimed c u τ ev)
    (hn : τ.next ev = some τ') : Holding c u e j (seen ∨ RevokesPair c u τ ev) τ' := by
  obtain ⟨q, hq, hresolved, hcaptured⟩ := h.resolved
  obtain ⟨i, call, rfl, hi, rfl⟩ | ⟨i, ω, call, p, op, m, r, sh, rfl, hi, hex, rfl⟩ := next_cases hn
  · have hij : j ≠ i := by
      rintro rfl
      simp [phase, hi] at hq
    refine ⟨⟨q, ?_, hresolved, hcaptured⟩, h.le, ?_⟩
    · rw [put_phase, update_of_ne hij, hq]
    · rw [show RevokesPair c u τ (.start i call) = False from rfl, or_false]
      exact h.moved
  · obtain ⟨new, heffect, -⟩ := exec_adds hex
    have hop : τ.nextOp i = some op := by simp [nextOp, hi]
    refine ⟨?_, le_trans h.le (heffect.epochsLocked_le c u), ?_⟩
    · rw [put_phase]
      by_cases hij : j = i
      · subst hij
        obtain rfl : p = q := by simpa [phase, hi] using hq
        refine ⟨_, update_self .., fun hidle => hresolved (idle_of_advance hidle), ?_⟩
        exact fun o e' ho => hcaptured o e' (holding_of_advance (hconf j _ hi).1 hresolved ho)
      · exact ⟨q, by rw [update_of_ne hij, hq], hresolved, hcaptured⟩
    · refine moved_iff h.le h.moved hex ?_ fun f hf => hok op f hop hf
      constructor
      · rintro ⟨op', f, hop', hf⟩
        rw [hop] at hop'
        cases hop'
        exact ⟨f, hf⟩
      · rintro ⟨f, hf⟩
        exact ⟨op, f, hop, hf⟩

/-- **Run lemma** since a grant was resolved. -/
theorem Holding.runs (h : Pool.Watched (RevokesPair c u) (Aimed c u) σ₂ seen τ)
    (hconf : σ₂.Conforming Ends) (hσ₂ : Holding c u e j False σ₂) :
    τ.Conforming Ends ∧ Holding c u e j seen τ := by
  induction h with
  | refl => exact ⟨hconf, hσ₂⟩
  | tail _ hok hn ih => exact ⟨ih.1.next provider_follows hn, ih.2.next ih.1 hok hn⟩

/-- The grant is good apart from revocations: the values are drawn, and the refresh token that is
presented is in the store. -/
def OtherwiseValid (env : Env) (sh : Shared) (ω : Choice) (current : String) : Prop :=
  ω.values ≠ none ∧ (current = "" ∨ (sh.store.refreshTokens.get (env.tokenHash current)).isSome)

/-- A refresh token that is in the store is claimed. -/
theorem mintFamily_ok (draws : MintDraws)
    (h : current = "" ∨ (s.refreshTokens.get (env.tokenHash current)).isSome) :
    ∃ familyID s', s.mintFamily env draws current = (.ok familyID, s') := by
  by_cases hcurrent : current = ""
  · exact ⟨draws.familyID, s, if_pos hcurrent⟩
  · obtain ⟨held, hheld⟩ := isSome_iff_exists.1 (h.resolve_left hcurrent)
    rw [mintFamily, if_neg hcurrent, OIDCStore.claimRefresh]
    simp only [hheld]
    exact ⟨_, _, rfl⟩

/-- With a family in hand, a mint compares the generations and does nothing else that can fail. -/
theorem mint_of_family {s' : OIDCStore}
    {familyID : String} (h : s.mintFamily env draws current = (.ok familyID, s')) :
    ((s.createAccessAndRefreshTokens env draws now request captured current).1 =
      .error .grantRevokedInFlight ↔ revocationUnchanged captured
        (s.revocationEpochsLocked request.clientID request.subject) = false) ∧
    ((s.createAccessAndRefreshTokens env draws now request captured current).1.isOk = true ↔
      revocationUnchanged captured (s.revocationEpochsLocked request.clientID request.subject) = true) := by
  have hepochs := (drops_mintFamily env s draws current).revocationEpochsLocked
    request.clientID request.subject
  rw [h] at hepochs
  rw [← hepochs, createAccessAndRefreshTokens]
  simp only [h, mintedAccess]
  split_ifs with hunchanged
  all_goals simp [hunchanged, Except.isOk, Except.toBool]

/-- A mint of a grant that is good apart from revocations. -/
theorem mint_answer {r : Except Err Pair} (hvalid : OtherwiseValid env sh ω current)
    (hex : exec env (.createAccessAndRefreshTokens request captured current) ω sh = some (r, sh')) :
    (r = .error .grantRevokedInFlight ↔ revocationUnchanged captured
      (sh.store.revocationEpochsLocked request.clientID request.subject) = false) ∧
    (r.isOk = true ↔ revocationUnchanged captured
      (sh.store.revocationEpochsLocked request.clientID request.subject) = true) := by
  obtain ⟨vs, hvs⟩ := ne_none_iff_exists'.1 hvalid.1
  obtain ⟨familyID, s', hfamily⟩ := mintFamily_ok (ω.mintDraws vs) hvalid.2
  have hr : (sh.store.createAccessAndRefreshTokens env (ω.mintDraws vs) sh.now request captured
      current).1 = r := by
    rw [exec, Shared.drawing, hvs] at hex
    dsimp only at hex
    split_ifs at hex <;> exact congrArg Prod.fst (some.inj hex)
  rw [← hr]
  exact mint_of_family hfamily

/-- **Precision**: where every revocation that names the client or the subject is for the pair, a mint
whose grant is good apart from revocations is refused as revoked in flight exactly if a revocation for the
pair took place since its grant was resolved, and succeeds otherwise. -/
theorem refused_iff_revoked {p₁ p₂ : Phase} {ω' : Choice} {request : TokenRequest} {current : String}
    {captured' : Option RevocationEpochs} {τ' : Deployment env} (h₀ : Started σ₀) (h₁ : Runs σ₀ σ₁)
    (hp₁ : σ₁.phase j = some p₁) (hunresolved : p₁.stage = .idle)
    (hresolve : σ₁.next (.step j ω) = some σ₂) (hp₂ : σ₂.phase j = some p₂)
    (hheld : p₂.stage = .holding (c, u) captured) (h₂ : Pool.Watched (RevokesPair c u) (Aimed c u) σ₂ seen τ)
    (hop : τ.nextOp j = some (.createAccessAndRefreshTokens request captured' current))
    (hvalid : OtherwiseValid env τ.sh ω' current) (hmint : τ.next (.step j ω') = some τ') :
    ∃ r, exec env (.createAccessAndRefreshTokens request captured' current) ω' τ.sh = some (r, τ'.sh) ∧
      (r = .error .grantRevokedInFlight ↔ seen) ∧ (r.isOk = true ↔ ¬seen) := by
  have hconf₁ := h₁.conforming provider_follows h₀.conforming
  have hconf₂ := hconf₁.next provider_follows hresolve
  -- the generations at the resolve step
  obtain ⟨i, call, he, -⟩ | ⟨i, ω₁, call, p, op, m, r₁, sh₁, he, hi, hex₁, rfl⟩ := next_cases hresolve
  · cases he
  cases he
  obtain rfl : p = p₁ := by simpa [phase, hi] using hp₁
  obtain rfl : p.advance op r₁ = p₂ := by
    rw [put_phase, update_self] at hp₂
    exact some.inj hp₂
  have hcaptured := captured_of_resolve hex₁ hunresolved hheld
  have hσ₂ : Holding c u (sh₁.store.revocationEpochsLocked c u) j False
      (σ₁.put sh₁ j ⟨call, (typestate env).advance p op r₁, m r₁⟩) := by
    refine ⟨⟨_, hp₂, ?_, fun o e ho => ?_⟩, le_refl _, ?_⟩
    · rw [hheld]
      rintro ⟨⟩
    · rw [hheld] at ho
      cases ho
      exact ⟨rfl, hcaptured⟩
    · exact iff_of_false id fun hne => hne rfl
  obtain ⟨hconf, hτ⟩ := Holding.runs h₂ hconf₂ hσ₂
  -- the mint
  obtain ⟨q, r, hq, ha, hex, -⟩ := hconf.next_op hop hmint
  obtain ⟨q', hq', -, hheld'⟩ := hτ.resolved
  obtain rfl : q = q' := some.inj (hq.symm.trans hq')
  obtain ⟨hpair, rfl⟩ := hheld' _ _ ha.1
  obtain ⟨rfl, rfl⟩ := Prod.mk.inj hpair
  have hanswer := mint_answer hvalid hex
  refine ⟨r, hex, ?_, ?_⟩
  · rw [hanswer.1, hτ.moved]
    simp [revocationUnchanged]
  · rw [hanswer.2, hτ.moved]
    simp [revocationUnchanged]

/-! ### Another subject's revocation -/

/-- No revocation for the pair, and none that names it if `aimed`. -/
def spares (aimed : Bool) (c u : String) (σ : Deployment env) : Event (provider env) → Bool
  | .start _ _ => true
  | .step i _ => (σ.nextOp i).all fun op => op.revokes.all fun f =>
    !f.matches c u && (!aimed || !decide (Names f c u))

theorem spares_spec {aimed : Bool} {σ : Deployment env} {e : Event (provider env)}
    (h : spares aimed c u σ e = true) : ¬RevokesPair c u σ e ∧ (aimed = true → Aimed c u σ e) := by
  cases e with
  | start i call => exact ⟨id, fun _ => trivial⟩
  | step i ω =>
    have hall : ∀ op f, σ.nextOp i = some op → op.revokes = some f →
        f.matches c u = false ∧ (aimed = true → ¬Names f c u) := by
      intro op f hop hf
      simpa [spares, hop, hf, Bool.or_eq_true, or_iff_not_imp_left] using h
    constructor
    · rintro ⟨op, f, hop, hf, hmatches⟩
      rw [(hall op f hop hf).1] at hmatches
      cases hmatches
    · exact fun ha op f hop hf hnames => absurd hnames ((hall op f hop hf).2 ha)

/-- The subject `s` has approved the client `c`, and the client presents its code. -/
def presenting : List (Event (provider sampleEnv)) := granting ++ running 3 (.code "c" "code") [[]]

/-- **Another subject's revocation refuses the mint**: the code is resolved for `s`, another subject
withdraws its own grant from the client, and the mint is refused with the text that the grant was
revoked. No revocation was for the pair. -/
theorem refused_by_another : ∃ σ₁ σ₂ τ τ' : Deployment sampleEnv,
    Started sampleStart ∧ Runs sampleStart σ₁ ∧ σ₁.next (.step 3 (draw [])) = some σ₂ ∧
    holds σ₂ 3 ("c", "s") = true ∧
    Pool.Reaches (fun σ e => ¬RevokesPair "c" "s" σ e) σ₂ τ ∧
    OtherwiseValid sampleEnv τ.sh (draw ["at", "rt", "family"]) "" ∧
    τ.next (.step 3 (draw ["at", "rt", "family"])) = some τ' ∧
    τ'.reply 3 = some (.error .grantRevokedInFlight) ∧
    τ.reply 4 = some (.ok none) := by
  have h₁ := reaches_of_run (σ := sampleStart) presenting rfl
  have h₂ : ∀ {σ τ : Deployment sampleEnv} (es), σ.runIf (spares false "c" "s") es = some τ →
      Pool.Reaches (fun σ e => ¬RevokesPair "c" "s" σ e) σ τ := fun es =>
    reaches_of_check es fun _ _ h => (spares_spec h).1
  exact ⟨_, _, _, _, sampleStart_started, h₁, rfl, rfl,
    h₂ (running 4 (.revokeGrant "other" "c") [[]] ++ [.step 3 (draw [])]) rfl, ⟨nofun, .inl rfl⟩, rfl, rfl, rfl⟩

/-- A revocation that has nothing to do with the pair: the mint succeeds. -/
theorem refused_iff_revoked_unrelated : ∃ (τ τ' : Deployment sampleEnv) (op : Op)
    (r : Except Err op.Answer), exec sampleEnv op (draw ["at", "rt", "family"]) τ.sh = some (r, τ'.sh) ∧
      r.isOk = true := by
  have h₁ := reaches_of_run (σ := sampleStart) presenting rfl
  have h₂ : ∀ {σ τ : Deployment sampleEnv} (es), σ.runIf (spares true "c" "s") es = some τ →
      Pool.Reaches (fun σ e => Aimed "c" "s" σ e ∧ ¬RevokesPair "c" "s" σ e) σ τ := fun es =>
    reaches_of_check es fun _ _ h => ⟨(spares_spec h).2 rfl, (spares_spec h).1⟩
  obtain ⟨r, hex, -, hok⟩ := refused_iff_revoked (j := 3) (ω := draw []) (c := "c") (u := "s")
    sampleStart_started h₁ rfl rfl rfl rfl rfl
    (h₂ (running 4 (.revokeGrant "other" "d") [[]] ++ [.step 3 (draw [])]) rfl).watched rfl
    ⟨by nofun, .inl rfl⟩ (show next _ (.step 3 (draw ["at", "rt", "family"])) = some _ from rfl)
  exact ⟨_, _, _, r, hex, hok.2 id⟩

end Re0Auth.Memory

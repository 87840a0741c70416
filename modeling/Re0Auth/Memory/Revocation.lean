import Re0Auth.Memory.Steps

/-!
# No lost revocation in the in-memory store

* **`Sound`**: the invariant of all runs. The indexes miss nothing, a grant in hand was captured at
  generations that are not above the present ones, and no value is drawn twice;
* **`Since`**: what has happened since a revocation. Every token of a revoked owner was minted by a call
  that resolved its grant afterwards.
-/

namespace Re0Auth.Memory

open Lib OAuth Oidc Function Pool Option RevocationEpochs

variable {env : Env} {new : Additions} {s s' : OIDCStore}

/-- The generations were captured, and not above the present ones. -/
def Captured (s : OIDCStore) (owner : String × String) (captured : Option RevocationEpochs) : Prop :=
  ∃ e, captured = some e ∧ e ≤ s.revocationEpochsLocked owner.1 owner.2

theorem Effect.epochsLocked_le (h : Effect new s s')
    (c u : String) : s.revocationEpochsLocked c u ≤ s'.revocationEpochsLocked c u := by
  refine ⟨h.epochs _, ?_, ?_⟩
  all_goals
    dsimp only [OIDCStore.revocationEpochsLocked]
    split_ifs
    · exact Int.le_refl _
    · exact h.epochs _

variable {o : String × String} {captured : Option RevocationEpochs}

theorem Captured.mono (h : Effect new s s') (hc : Captured s o captured) : Captured s' o captured := by
  obtain ⟨e, rfl, he⟩ := hc
  exact ⟨e, rfl, le_trans he (h.epochsLocked_le o.1 o.2)⟩

/-- **Sound**: what holds in every reachable state. -/
structure Sound (sh : Shared) (ph : ℕ → Option Phase) : Prop where
  indexed : Indexed sh.store
  captured : ∀ i p, ph i = some p → ∀ o e, p.stage = .holding o e → Captured sh.store o e
  /-- A device code is redeemed for the client that presented it. -/
  device : ∀ i p, ph i = some p → ∀ c d o e, p.call = .device c d → p.stage = .holding o e →
    p.admitted = some o.1
  drawn : ∀ i p, ph i = some p → ∀ a v, p.stage = .minted a v → a ∈ sh.drawn ∧ v ∈ sh.drawn
  distinct : ∀ i j p q, ph i = some p → ph j = some q → ∀ a v a' v', p.stage = .minted a v →
    q.stage = .minted a' v' → a = a' ∨ v = v' → i = j

section Step

variable {op : Op} {ω : Choice} {sh sh' : Shared} {r : Except Err op.Answer} {p : Phase}
  {new : Additions} {o : String × String} {e : Option RevocationEpochs} {ph : ℕ → Option Phase}
  {i : ℕ}

/-- A stage with a grant in hand: the grant was there, or it has just been resolved. -/
theorem captured_advance (heffect : Effect new sh.store sh'.store) (hsees : Sees env sh sh' op r)
    (hst : ∀ o e, p.stage = .holding o e → Captured sh.store o e) (h : (p.advance op r).stage = .holding o e) :
    Captured sh'.store o e := by
  refine Captured.mono heffect ?_
  obtain heq | henters := Stage.advance_cases p.stage op r
  · exact hst o e (heq.symm.trans h)
  · rw [show p.stage.advance op r = .holding o e from h] at henters
    cases henters with
    | code v a e =>
      obtain ⟨c, -, -, rfl⟩ := hsees
      exact ⟨_, rfl, le_refl _⟩
    | refresh v a e =>
      obtain ⟨t, -, rfl, rfl⟩ := hsees
      exact ⟨_, rfl, le_refl _⟩
    | device c v d e happroved =>
      obtain ⟨d', -, -, -, hclient, hsubject, rfl⟩ := hsees happroved
      rw [hclient, hsubject]
      exact ⟨_, rfl, le_refl _⟩

theorem device_advance (ha : Allowed p op) (hsees : Sees env sh sh' op r)
    (hst : ∀ c d o e, p.call = .device c d → p.stage = .holding o e → p.admitted = some o.1)
    {c d : String} (hcall : p.call = .device c d)
    (h : (p.advance op r).stage = .holding o e) : (p.advance op r).admitted = some o.1 := by
  obtain heq | henters := Stage.advance_cases p.stage op r
  · have hstage : p.stage = .holding o e := heq.symm.trans h
    have hadmitted : (p.advance op r).admitted = p.admitted := by
      cases op with
      | getClientByClientID id => exact absurd hstage (ha o e)
      | _ => rfl
    rw [hadmitted]
    exact hst c d o e hcall hstage
  · rw [show p.stage.advance op r = .holding o e from h] at henters
    cases henters with
    | code v a e =>
      obtain ⟨-, c', hcode, -⟩ := ha
      rw [hcall] at hcode
      cases hcode
    | refresh v a e =>
      obtain ⟨-, c', hrefresh, -⟩ := ha
      rw [hcall] at hrefresh
      cases hrefresh
    | device c v st e happroved =>
      obtain ⟨-, -, hadmitted⟩ := ha
      obtain ⟨d', -, -, -, hclient, -⟩ := hsees happroved
      rw [hclient]
      exact hadmitted

/-- A pair that has been minted: it was there, or it was drawn just now. -/
theorem minted_advance (hadds : Adds env sh sh' op r new) {a v : String}
    (h : (p.advance op r).stage = .minted a v) :
    p.stage = .minted a v ∨ (a ∉ sh.drawn ∧ v ∉ sh.drawn) ∧ (a ∈ sh'.drawn ∧ v ∈ sh'.drawn) := by
  obtain heq | henters := Stage.advance_cases p.stage op r
  · exact .inl (heq.symm.trans h)
  · rw [show p.stage.advance op r = .minted a v from h] at henters
    cases henters with
    | minted request captured current a v t => exact .inr ⟨hadds.1, hadds.2.1⟩

/-- A step that adds tokens is a mint from the grant in hand. -/
theorem mint_of_adds (ha : Allowed p op) (hadds : Adds env sh sh' op r new) :
    (new.access = none ∧ new.refresh = none) ∨ ∃ o captured a v, p.stage = .holding o captured ∧
      (p.admitted = some o.1 ∨ ∃ c d, p.call = .device c d) ∧
      revocationUnchanged captured (sh.store.revocationEpochsLocked o.1 o.2) = true ∧
      (p.advance op r).stage = .minted a v ∧
      new.access = some (env.tokenHash a, o) ∧ new.refresh = some (env.tokenHash v, o) := by
  cases op with
  | createAuthRequest | saveAuthCode | storeDeviceAuthorization =>
    obtain rfl | ⟨v, -, -, rfl⟩ := hadds <;> exact .inl ⟨rfl, rfl⟩
  | createAccessAndRefreshTokens request captured current =>
    rcases r with e | ⟨a, v, t⟩
    · cases hadds
      exact .inl ⟨rfl, rfl⟩
    · obtain ⟨-, -, hunchanged, rfl⟩ := hadds
      refine .inr ⟨(request.clientID, request.subject), captured, a, v, ha.1, ha.2, hunchanged, ?_, rfl, rfl⟩
      rw [Phase.advance, ha.1]
      rfl
  | _ =>
    cases hadds
    exact .inl ⟨rfl, rfl⟩

/-- **Step lemma.** -/
theorem Sound.step (h : Sound sh ph) (hp : ph i = some p) (ha : Allowed p op)
    (hex : exec env op ω sh = some (r, sh')) : Sound sh' (update ph i (some (p.advance op r))) := by
  obtain ⟨new, heffect, hadds⟩ := exec_adds hex
  have hsees := exec_sees hex
  refine ⟨heffect.indexed h.indexed, forall_update ?_ ?_, forall_update ?_ ?_, forall_update ?_ ?_, ?_⟩
  · exact fun o e he => captured_advance heffect hsees (h.captured i p hp) he
  · exact fun j q _ hq o e he => Captured.mono heffect (h.captured j q hq o e he)
  · exact fun c d o e hcall he => device_advance ha hsees (h.device i p hp) hcall he
  · exact fun j q _ hq => h.device j q hq
  · intro a v hav
    obtain hold | hnew := minted_advance hadds hav
    · exact (h.drawn i p hp a v hold).imp (exec_drawn hex) (exec_drawn hex)
    · exact hnew.2
  · exact fun j q _ hq a v hav => (h.drawn j q hq a v hav).imp (exec_drawn hex) (exec_drawn hex)
  · -- a pair drawn now differs from those of the other calls, which were drawn before
    have hother : ∀ j q a v a' v', j ≠ i → ph j = some q → (p.advance op r).stage = .minted a v →
        q.stage = .minted a' v' → ¬ (a = a' ∨ v = v') := by
      intro j q a v a' v' hj hq hav hav' heq
      obtain hold | hnew := minted_advance hadds hav
      · exact hj (h.distinct i j p q hp hq a v a' v' hold hav' heq).symm
      · obtain ⟨ha', hv'⟩ := h.drawn j q hq a' v' hav'
        obtain rfl | rfl := heq
        · exact hnew.1.1 ha'
        · exact hnew.1.2 hv'
    intro j k q q' hq hq' a v a' v' hav hav' heq
    rw [update_apply] at hq hq'
    split_ifs at hq hq' with hj hk hk
    · rw [hj, hk]
    · cases hq
      exact absurd heq (hother k q' a v a' v' hk hq' hav hav')
    · cases hq'
      exact absurd (heq.imp Eq.symm Eq.symm) (hother j q a' v' a v hj hq hav' hav)
    · exact h.distinct j k q q' hq hq' a v a' v' hav hav' heq

theorem Sound.start (h : Sound sh ph) (c : Call) : Sound sh (update ph i (some ⟨c, none, .idle⟩)) := by
  refine ⟨h.indexed, forall_kept nofun h.captured,
    forall_kept nofun h.device,
    forall_kept nofun h.drawn, ?_⟩
  intro j k q q' hq hq' a v a' v' hav hav' heq
  rw [update_apply] at hq hq'
  split_ifs at hq hq' with hj hk hk
  · rw [hj, hk]
  · cases hq
    cases hav
  · cases hq'
    cases hav'
  · exact h.distinct j k q q' hq hq' a v a' v' hav hav' heq

end Step

/-! ## Since a revocation -/

/-- Call `j` has minted the access token under the key. -/
def MintedAccess (env : Env) (ph : ℕ → Option Phase) (j : ℕ) (key : String) : Prop :=
  ∃ p a v, ph j = some p ∧ p.stage = .minted a v ∧ key = env.tokenHash a

/-- Call `j` has minted the refresh token under the key. -/
def MintedRefresh (env : Env) (ph : ℕ → Option Phase) (j : ℕ) (key : String) : Prop :=
  ∃ p a v, ph j = some p ∧ p.stage = .minted a v ∧ key = env.tokenHash v

/-- Call `j` has not resolved a code, a refresh token or a device code. -/
def Unresolved (ph : ℕ → Option Phase) (j : ℕ) : Prop := ∀ p, ph j = some p → p.stage = .idle

/-- **Since** a revocation: `before` are the phases in which it found the calls. Every token of an owner
it was for was minted by a call that had not resolved its grant then, and a grant that was in hand then
carries generations that are left behind. -/
structure Since (env : Env) (f : TokenFilter) (before : ℕ → Option Phase) (sh : Shared)
    (ph : ℕ → Option Phase) : Prop where
  access : ∀ k t, sh.store.accessTokens.get k = some t → f.matches t.clientID t.subject = true →
    ∃ j, MintedAccess env ph j k ∧ Unresolved before j
  refresh : ∀ k t, sh.store.refreshTokens.get k = some t → f.matches t.clientID t.subject = true →
    ∃ j, MintedRefresh env ph j k ∧ Unresolved before j
  stale : ∀ j p, ph j = some p → ∀ o e, p.stage = .holding o (some e) → f.matches o.1 o.2 = true →
    ¬ Unresolved before j → e ≠ sh.store.revocationEpochsLocked o.1 o.2
  idle : ∀ j p, ph j = some p → p.stage = .idle → Unresolved before j
  kept : ∀ j, ph j = none → before j = none

section Since

variable {op : Op} {ω : Choice} {sh sh' : Shared} {r : Except Err op.Answer} {p : Phase}
  {ph before : ℕ → Option Phase} {i : ℕ} {f : TokenFilter} {st : Stage} {j : ℕ} {k : String}

/-- A stage in which nothing has been resolved was so before the step. -/
theorem idle_of_advance (h : st.advance op r = .idle) : st = .idle := by
  obtain heq | henters := Stage.advance_cases st op r
  · exact heq.symm.trans h
  · rw [h] at henters
    cases henters

/-- What has been minted stays minted. -/
theorem minted_update {q : Phase} {a v : String} (hp : ph i = some p) (hq : ph j = some q)
    (h : q.stage = .minted a v) :
    ∃ q', update ph i (some (p.advance op r)) j = some q' ∧ q'.stage = .minted a v := by
  by_cases hij : j = i
  · subst hij
    rw [hp] at hq
    cases hq
    refine ⟨p.advance op r, update_self .., ?_⟩
    rw [Phase.advance, h]
    rfl
  · exact ⟨q, by rw [update_of_ne hij, hq], h⟩

theorem MintedAccess.update (hp : ph i = some p) (h : MintedAccess env ph j k) :
    MintedAccess env (update ph i (some (p.advance op r))) j k := by
  obtain ⟨q, a, v, hq, hav, hk⟩ := h
  obtain ⟨q', hq', hav'⟩ := minted_update hp hq hav
  exact ⟨q', a, v, hq', hav', hk⟩

theorem MintedRefresh.update (hp : ph i = some p) (h : MintedRefresh env ph j k) :
    MintedRefresh env (update ph i (some (p.advance op r))) j k := by
  obtain ⟨q, a, v, hq, hav, hk⟩ := h
  obtain ⟨q', hq', hav'⟩ := minted_update hp hq hav
  exact ⟨q', a, v, hq', hav', hk⟩

variable (h : Since env f before sh ph) (hsound : Sound sh ph) (hp : ph i = some p)

include h hsound hp in
/-- A call that mints for a revoked owner has resolved its grant after the revocation. -/
theorem Since.unresolved_of_mint
    (hstage : p.stage = .holding o captured) (ho : f.matches o.1 o.2 = true)
    (hunchanged : revocationUnchanged captured (sh.store.revocationEpochsLocked o.1 o.2) = true) :
    Unresolved before i := by
  by_contra hresolved
  obtain ⟨e, rfl, -⟩ := hsound.captured i p hp o captured hstage
  exact h.stale i p hp o e hstage ho hresolved (beq_iff_eq.1 hunchanged)

include h hsound hp in
/-- **Step lemma.** -/
theorem Since.step (ha : Allowed p op) (hex : exec env op ω sh = some (r, sh')) :
    Since env f before sh' (update ph i (some (p.advance op r))) := by
  obtain ⟨new, heffect, hadds⟩ := exec_adds hex
  have hmint := mint_of_adds ha hadds
  refine ⟨fun k t ht hm => ?_, fun k t ht hm => ?_, forall_update ?_ ?_, forall_update ?_ ?_, fun j hj => ?_⟩
  · obtain hold | hnew := heffect.accessTokens k t ht
    · obtain ⟨j, hj, hbefore⟩ := h.access k t hold hm
      exact ⟨j, hj.update hp, hbefore⟩
    · obtain ⟨hnone, -⟩ | ⟨o, captured, a, v, hstage, -, hunchanged, hav, ha, -⟩ := hmint
      · rw [hnone] at hnew
        cases hnew
      · rw [ha] at hnew
        cases hnew
        exact ⟨i, ⟨_, a, v, update_self .., hav, rfl⟩, h.unresolved_of_mint hsound hp hstage hm hunchanged⟩
  · obtain hold | hnew := heffect.refreshTokens k t ht
    · obtain ⟨j, hj, hbefore⟩ := h.refresh k t hold hm
      exact ⟨j, hj.update hp, hbefore⟩
    · obtain ⟨-, hnone⟩ | ⟨o, captured, a, v, hstage, -, hunchanged, hav, -, hv⟩ := hmint
      · rw [hnone] at hnew
        cases hnew
      · rw [hv] at hnew
        cases hnew
        exact ⟨i, ⟨_, a, v, update_self .., hav, rfl⟩, h.unresolved_of_mint hsound hp hstage hm hunchanged⟩
  · -- a call that resolves now had resolved nothing at the revocation
    intro o e hstage ho hresolved
    obtain heq | henters := Stage.advance_cases p.stage op r
    · have hheld : p.stage = .holding o (some e) := heq.symm.trans hstage
      obtain ⟨e', he', hle⟩ := hsound.captured i p hp o _ hheld
      cases he'
      exact ne_of_le hle (h.stale i p hp o e hheld ho hresolved) (heffect.epochsLocked_le o.1 o.2)
    · rw [show p.stage.advance op r = .holding o (some e) from hstage] at henters
      refine absurd (h.idle i p hp ?_) hresolved
      cases henters with
      | code v a e => exact ha.1
      | refresh v a e => exact ha.1
      | device c v d e => exact ha.1
  · intro j q _ hq o e hheld ho hresolved
    obtain ⟨e', he', hle⟩ := hsound.captured j q hq o _ hheld
    cases he'
    exact ne_of_le hle (h.stale j q hq o e hheld ho hresolved) (heffect.epochsLocked_le o.1 o.2)
  · exact fun hidle => h.idle i p hp (idle_of_advance hidle)
  · exact fun j q _ hq => h.idle j q hq
  · rw [update_apply] at hj
    split_ifs at hj
    exact h.kept j hj

include h in
theorem Since.start (hi : ph i = none) (c : Call) :
    Since env f before sh (update ph i (some ⟨c, none, .idle⟩)) := by
  have hother : ∀ j q, ph j = some q → update ph i (some ⟨c, none, .idle⟩) j = some q :=
    fun j q hq => update_of_none hi hq
  refine ⟨fun k t ht hm => ?_, fun k t ht hm => ?_,
    forall_kept nofun h.stale,
    forall_kept (fun _ => ?_) h.idle, fun j hj => ?_⟩
  · obtain ⟨j, ⟨q, a, v, hq, hrest⟩, hbefore⟩ := h.access k t ht hm
    exact ⟨j, ⟨q, a, v, hother j q hq, hrest⟩, hbefore⟩
  · obtain ⟨j, ⟨q, a, v, hq, hrest⟩, hbefore⟩ := h.refresh k t ht hm
    exact ⟨j, ⟨q, a, v, hother j q hq, hrest⟩, hbefore⟩
  · intro q hq
    rw [h.kept i hi] at hq
    cases hq
  · rw [update_apply] at hj
    split_ifs at hj
    exact h.kept j hj

/-- A revocation resolves nothing. -/
theorem stage_of_revokes (hf : op.revokes = some f) {st' : Stage} (h : st.advance op r = st')
    (hcleared : ∀ c, st' ≠ .cleared c) : st = st' := by
  obtain heq | henters := Stage.advance_cases st op r
  · exact heq.symm.trans h
  · rw [h] at henters
    cases henters with
    | cleared f n => exact absurd rfl (hcleared f.clientID)
    | _ => cases hf

include hsound hp in
/-- **The revocation itself**: nothing of the owners it is for is left, and the generations of every
grant in hand are left behind. -/
theorem Since.of_revokes (hf : op.revokes = some f) (hex : exec env op ω sh = some (r, sh')) :
    Since env f ph sh' (update ph i (some (p.advance op r))) := by
  have hrevokes := exec_revokes hex hf
  have hcleared := hrevokes.cleared hsound.indexed
  have hstale : ∀ j q, ph j = some q → ∀ o e, q.stage = .holding o (some e) →
      f.matches o.1 o.2 = true → e ≠ sh'.store.revocationEpochsLocked o.1 o.2 := by
    intro j q hq o e hheld ho
    obtain ⟨e', he', hle⟩ := hsound.captured j q hq o _ hheld
    cases he'
    exact ne_of_moved hle (hrevokes.effect.epochsLocked_le o.1 o.2) (hrevokes.moved o.1 o.2 ho)
  have hidle : ∀ j q, ph j = some q → q.stage = .idle → Unresolved ph j := by
    intro j q hq hst q' hq'
    rw [hq] at hq'
    cases hq'
    exact hst
  refine ⟨fun k t ht hm => ?_, fun k t ht hm => ?_, forall_update ?_ ?_, forall_kept ?_ hidle, fun j hj => ?_⟩
  · rw [hcleared.access k t ht] at hm
    cases hm
  · rw [hcleared.refresh k t ht] at hm
    cases hm
  · exact fun o e hheld ho _ => hstale i p hp o e (stage_of_revokes hf hheld nofun) ho
  · exact fun j q _ hq o e hheld ho _ => hstale j q hq o e hheld ho
  · exact fun hst => hidle i p hp (stage_of_revokes hf hst nofun)
  · rw [update_apply] at hj
    split_ifs at hj
    exact hj

end Since

/-! ## Runs -/

/-- The provider with its typestate. -/
abbrev Deployment (env : Env) : Type := Pool (provider env) (typestate env)

/-- A new store, with any registered clients, before any call. -/
structure Started (σ : Deployment env) : Prop where
  store : ∃ opts, σ.sh.store = newOIDCStore opts
  threads : ∀ i, σ.threads i = none

/-- Every run, whatever is called. -/
abbrev Runs (σ τ : Deployment env) : Prop := Pool.Reaches (fun _ _ => True) σ τ

section Runs

variable {σ σ₀ τ : Deployment env} {sh : Shared} {ph : ℕ → Option Phase} {i j : ℕ} {k : String}

theorem Started.conforming (h : Started σ) : σ.Conforming Ends := by
  intro i th hi
  rw [h.threads i] at hi
  cases hi

theorem Started.sound (h : Started σ) : Sound σ.sh σ.phase := by
  have hnone : ∀ i, σ.phase i = none := fun i => by rw [phase, h.threads i]; rfl
  obtain ⟨opts, hstore⟩ := h.store
  have hindexed : Indexed σ.sh.store := by
    rw [hstore]
    exact ⟨.empty, .empty, .empty⟩
  refine ⟨hindexed, fun i p hp => ?_, fun i p hp => ?_, fun i p hp => ?_, fun i j p q hp => ?_⟩
  all_goals
    rw [hnone i] at hp
    cases hp

theorem Sound.runs {ok : Deployment env → Event (provider env) → Prop} (h : Pool.Reaches ok σ τ)
    (hσ : σ.Conforming Ends) (hsound : Sound σ.sh σ.phase) : Sound τ.sh τ.phase :=
  h.invariant (I := Sound) provider_follows (fun _ _ c _ hI _ => hI.start c)
    (fun _ _ _ _ _ _ _ _ hI hp _ ha hex => hI.step hp ha hex) hσ hsound

/-- **Run lemma.** -/
theorem Since.runs {f : TokenFilter} {before : ℕ → Option Phase} (h : Runs σ τ)
    (hσ : σ.Conforming Ends) (hsound : Sound σ.sh σ.phase) (hsince : Since env f before σ.sh σ.phase) :
    Sound τ.sh τ.phase ∧ Since env f before τ.sh τ.phase :=
  h.invariant (I := fun (sh : Shared) (ph : ℕ → Option Phase) => Sound sh ph ∧ Since env f before sh ph)
    provider_follows
    (fun _ _ c _ hI hi => ⟨hI.1.start c, hI.2.start hi c⟩)
    (fun _ _ _ _ _ _ _ _ hI hp _ ha hex =>
      ⟨hI.1.step hp ha hex, hI.2.step hI.1 hp ha hex⟩) hσ ⟨hsound, hsince⟩

/-- A token has one minter. -/
theorem Sound.mintedAccess_unique
    (h : Sound sh ph) (hi : MintedAccess env ph i k) (hj : MintedAccess env ph j k) : i = j := by
  obtain ⟨p, a, v, hp, hav, rfl⟩ := hi
  obtain ⟨q, a', v', hq, hav', hk⟩ := hj
  exact h.distinct i j p q hp hq a v a' v' hav hav' (.inl (env.tokenHash_injective hk))

theorem Sound.mintedRefresh_unique
    (h : Sound sh ph) (hi : MintedRefresh env ph i k) (hj : MintedRefresh env ph j k) : i = j := by
  obtain ⟨p, a, v, hp, hav, rfl⟩ := hi
  obtain ⟨q, a', v', hq, hav', hk⟩ := hj
  exact h.distinct i j p q hp hq a v a' v' hav hav' (.inr (env.tokenHash_injective hk))

/-- **No lost revocation**: once a revocation has taken place, in any state of the run, a stored token of
an owner it was for was minted by one call, and that call had resolved no code, refresh token or device
code when the revocation took place. -/
theorem revocation_complete {σ₁ σ₂ : Deployment env} {i : ℕ} {op : Op} {ω : Choice} {f : TokenFilter}
    {c u : String} (h₀ : Started σ₀) (h₁ : Runs σ₀ σ₁) (hop : σ₁.nextOp i = some op)
    (hf : op.revokes = some f) (h₂ : σ₁.next (.step i ω) = some σ₂) (h₃ : Runs σ₂ τ)
    (hcu : f.matches c u = true) :
    (∀ k t, τ.sh.store.accessTokens.get k = some t → t.clientID = c → t.subject = u →
      ∃ j, Unresolved σ₁.phase j ∧ ∀ i, MintedAccess env τ.phase i k ↔ i = j) ∧
    ∀ k t, τ.sh.store.refreshTokens.get k = some t → t.clientID = c → t.subject = u →
      ∃ j, Unresolved σ₁.phase j ∧ ∀ i, MintedRefresh env τ.phase i k ↔ i = j := by
  have hconf₁ := h₁.conforming provider_follows h₀.conforming
  have hsound₁ := Sound.runs h₁ h₀.conforming h₀.sound
  obtain ⟨p, r, hp, ha, hex, hphase⟩ := hconf₁.next_op hop h₂
  have hsound₂ : Sound σ₂.sh σ₂.phase := by
    rw [hphase]
    exact hsound₁.step hp ha hex
  have hsince₂ : Since env f σ₁.phase σ₂.sh σ₂.phase := by
    rw [hphase]
    exact .of_revokes hsound₁ hp hf hex
  obtain ⟨hsound, hsince⟩ := hsince₂.runs h₃ (hconf₁.next provider_follows h₂) hsound₂
  constructor
  · rintro k t ht rfl rfl
    obtain ⟨j, hj, hbefore⟩ := hsince.access k t ht hcu
    refine ⟨j, hbefore, fun i => ⟨fun hi => hsound.mintedAccess_unique hi hj, ?_⟩⟩
    rintro rfl
    exact hj
  · rintro k t ht rfl rfl
    obtain ⟨j, hj, hbefore⟩ := hsince.refresh k t ht hcu
    refine ⟨j, hbefore, fun i => ⟨fun hi => hsound.mintedRefresh_unique hi hj, ?_⟩⟩
    rintro rfl
    exact hj

/-! ### A grant in hand -/

/-- A registered client. -/
def sampleClient : Client where
  id := "c"
  name := "app"
  type := .public
  status := .active
  createdAt := 0
  redirectURIs := ["https://r"]
  allowedScopes := ["openid"]
  allowMissingPKCE := false
  secretHash := []

/-- The new store, with one client. -/
def sampleStart : Deployment sampleEnv where
  sh :=
    { store := newOIDCStore ⟨600, 8, 8, 8⟩
      clients := Dict.set ∅ "c" sampleClient
      now := 100
      drawn := [] }
  threads _ := none

theorem sampleStart_started : Started sampleStart := ⟨⟨_, rfl⟩, fun _ => rfl⟩

/-- An authorization request of the client. -/
def sampleParams : AuthorizeParams where
  clientID := "c"
  redirectURI := "https://r"
  responseType := "code"
  responseMode := ""
  scopes := ["openid"]
  state := ""
  nonce := ""
  codeChallenge := ""
  codeChallengeMethod := ""
  prompt := []
  maxAge := none

/-- The random source yields these values, and the library has no objection. -/
def draw (vs : List String) : Choice := ⟨some vs, 0, "ABCD", some ["openid"]⟩

/-- A call starts and makes a step for each list of values. -/
def running (i : ℕ) (c : Call) (vs : List (List String)) : List (Event (provider sampleEnv)) :=
  .start i c :: vs.map fun v => .step i (draw v)

/-- The subject `s` approves a request, and the code goes to the client. -/
def granting : List (Event (provider sampleEnv)) :=
  running 0 (.authorize sampleParams "") [[], [], ["id"]] ++
    running 1 (.approveAuthorization "id" "s" none) [[], [], []] ++
    running 2 (.authorizeCallback "id") [[], [], ["code"]]

/-- The request that has resolved the code goes on to its mint. -/
def minting : List (Event (provider sampleEnv)) :=
  [.step 3 (draw []), .step 3 (draw ["at", "rt", "family"])]

/-- The call holds a grant of the owner. -/
def holds (σ : Deployment env) (i : ℕ) (o : String × String) : Bool :=
  (σ.phase i).any fun p => match p.stage with
    | .holding o' _ => o' == o
    | _ => false

theorem not_unresolved_of_holds (h : holds σ i o = true) : ¬ Unresolved σ.phase i := by
  intro hidle
  obtain ⟨p, hp, hst⟩ := (any_eq_true _ _).1 h
  rw [hidle p hp] at hst
  cases hst

/-- A revocation of the client while call 3 has the grant in hand: call 3 is refused, and no token of the
client is its own. -/
theorem revocation_complete_refused : ∃ τ : Deployment sampleEnv,
    (τ.reply 3).any (fun a => !a.isOk) = true ∧
      ∀ k t, τ.sh.store.accessTokens.get k = some t → t.clientID = "c" →
        ∃ j ≠ 3, MintedAccess sampleEnv τ.phase j k := by
  let check : Deployment sampleEnv → Event (provider sampleEnv) → Bool := fun _ e => e.below 5
  have hcheck : ∀ (σ : Deployment sampleEnv) e, σ.Below 5 → check σ e = true →
      e.below 5 = true ∧ True := fun _ _ _ h => ⟨h, trivial⟩
  have hrun : (sampleStart.runIf check (granting ++ running 3 (.code "c" "code") [[], []] ++
      [.start 4 (.revokeTokens ⟨"c", ""⟩)])).any (fun σ₁ => holds σ₁ 3 ("c", "s") &&
        ((σ₁.nextOp 4).bind Op.revokes == some ⟨"c", ""⟩ && (σ₁.next (.step 4 (draw []))).any fun σ₂ =>
          (σ₂.runIf check minting).any fun τ => (τ.reply 3).any fun a => !a.isOk)) = true := by
    decide
  obtain ⟨σ₁, h₁, hb₁, hp₁⟩ := exists_of_runIf hcheck (fun _ _ => rfl) hrun
  simp only [Bool.and_eq_true, beq_iff_eq] at hp₁
  obtain ⟨hheld, hrevokes, hrest⟩ := hp₁
  obtain ⟨op, hop, hf⟩ := bind_eq_some_iff.1 hrevokes
  obtain ⟨σ₂, h₂, hrest⟩ := (any_eq_true _ _).1 hrest
  obtain ⟨τ, h₃, -, herr⟩ := exists_of_runIf hcheck (hb₁.next rfl h₂) hrest
  refine ⟨τ, herr, fun k t ht hc => ?_⟩
  have hcu : (TokenFilter.mk "c" "").matches "c" t.subject = true := by simp [TokenFilter.matches]
  have hfinal := revocation_complete sampleStart_started h₁ hop hf h₂ h₃ hcu
  obtain ⟨j, hbefore, hj⟩ := hfinal.1 k t ht hc rfl
  refine ⟨j, ?_, (hj j).2 rfl⟩
  rintro rfl
  exact not_unresolved_of_holds hheld hbefore

end Runs

end Re0Auth.Memory

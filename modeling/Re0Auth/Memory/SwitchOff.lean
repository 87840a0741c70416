import Re0Auth.Memory.Revocation

/-!
# Switching a client off

`SuspendClient`, `DeleteClient` and `KillSwitch` close the client first and revoke afterwards. A request
that looked the client up in time finds nothing to redeem, or carries generations that are left behind.

* **`Known`**: identifiers of requests are drawn values, so that none is used twice;
* **`Off`**: what holds once the operator call has revoked, until the client is opened again;
* **`switchOff_final`**: no token of the client after the call has returned.
-/

namespace Re0Auth.Memory

open Lib OAuth Oidc Function Pool

variable {env : Env}

/-- The code or device code a call presents. -/
def Call.presents : Call → Option String
  | code _ v | device _ v => some v
  | _ => none

/-- What the call presents stands for a grant of the client. -/
def Redeems (env : Env) (s : OIDCStore) (c : String) : Call → Prop
  | .code _ v => ∃ rec a, s.codes.get (env.tokenHash v) = some rec ∧
    s.authRequests.get rec.requestID = some a ∧ a.clientID = c
  | .refresh _ v => ∃ t, s.refreshTokens.get (env.tokenHash v) = some t ∧ t.clientID = c
  | .device _ v => ∃ d, s.devices.get (env.tokenHash v) = some d ∧ d.denied = false ∧ d.clientID = c
  | _ => False

/-- **Known** identifiers: those of the stored requests, of the codes' requests and of the requests calls
have read were drawn. -/
structure Known (sh : Shared) (ph : ℕ → Option Phase) : Prop where
  request : ∀ id a, sh.store.authRequests.get id = some a → id ∈ sh.drawn
  code : ∀ k rec, sh.store.codes.get k = some rec → rec.requestID ∈ sh.drawn
  found : ∀ i p, ph i = some p → ∀ id, p.stage = .found id → id ∈ sh.drawn

/-- **Off**: the client is closed, has no token, and a request that has looked it up before has nothing
to redeem and no grant that can be minted from. -/
structure Off (env : Env) (c : String) (sh : Shared) (ph : ℕ → Option Phase) : Prop where
  closed : Closed c sh.clients
  access : ∀ k t, sh.store.accessTokens.get k = some t → t.clientID ≠ c
  refresh : ∀ k t, sh.store.refreshTokens.get k = some t → t.clientID ≠ c
  spent : ∀ i p, ph i = some p → p.stage = .idle → p.admitted = some c →
    ¬ Redeems env sh.store c p.call
  stale : ∀ i p, ph i = some p → p.admitted = some c → ∀ u e, p.stage = .holding (c, u) (some e) →
    e ≠ sh.store.revocationEpochsLocked c u

section Step

variable {op : Op} {ω : Choice} {sh sh' : Shared} {r : Except Err op.Answer} {p : Phase}
  {ph : ℕ → Option Phase} {i : ℕ} {new : Additions} {c id k : String} {o : String × String} {j : ℕ}

variable (hex : exec env op ω sh = some (r, sh')) (hadds : Adds env sh sh' op r new)
  (ha : Allowed p op)

include hadds in
theorem request_of_adds
    (h : new.request = some (id, c)) : DrawnNow sh sh' id := by
  obtain rfl | ⟨v, c, hv, rfl⟩ | ⟨v, id, hv, -, rfl⟩ | ⟨v, c, hv, -, rfl⟩ | ⟨_, _, _, -, a, v, rfl⟩ :=
    adds_cases hadds
  all_goals cases h
  exact hv

include hadds in
theorem code_of_adds (h : new.code = some (k, id)) :
    op = .saveAuthCode id ∧ ∃ v, k = env.tokenHash v ∧ DrawnNow sh sh' v := by
  obtain rfl | ⟨v, c, hv, rfl⟩ | ⟨v, id, hv, hop, rfl⟩ | ⟨v, c, hv, -, rfl⟩ | ⟨_, _, _, -, a, v, rfl⟩ :=
    adds_cases hadds
  all_goals cases h
  exact ⟨hop, v, rfl, hv⟩

include hadds in
theorem device_of_adds (h : new.device = some (k, c)) :
    op.handsOut = true ∧ ∃ v, k = env.tokenHash v ∧ DrawnNow sh sh' v := by
  obtain rfl | ⟨v, c, hv, rfl⟩ | ⟨v, id, hv, -, rfl⟩ | ⟨v, c, hv, hop, rfl⟩ | ⟨_, _, _, -, a, v, rfl⟩ :=
    adds_cases hadds
  all_goals cases h
  exact ⟨hop, v, rfl, hv⟩

include hex ha in
/-- **Step lemma.** -/
theorem Known.step (h : Known sh ph) (hp : ph i = some p) : Known sh' (update ph i (some (p.advance op r))) := by
  obtain ⟨new, heffect, hadds⟩ := exec_adds hex
  have hsees := exec_sees hex
  refine ⟨fun id a ha => ?_, fun k rec hrec => ?_, forall_update (fun id hid => ?_) ?_⟩
  · obtain ⟨a', ha', -⟩ | hnew := heffect.authRequests id a ha
    · exact exec_drawn hex (h.request id a' ha')
    · exact (request_of_adds hadds hnew).2
  · obtain hold | hnew := heffect.codes k rec hrec
    · exact exec_drawn hex (h.code k rec hold)
    · -- the request of a new code was read by the call that saves it
      obtain ⟨rfl, -⟩ := code_of_adds hadds hnew
      exact exec_drawn hex (h.found i p hp rec.requestID ha)
  · obtain heq | henters := Stage.advance_cases p.stage op r
    · exact exec_drawn hex (h.found i p hp id (heq.symm.trans hid))
    · rw [show p.stage.advance op r = .found id from hid] at henters
      cases henters with
      | found id a =>
        obtain ⟨a', ha'⟩ := hsees
        exact exec_drawn hex (h.request id a' ha')
  · exact fun j q _ hq id hid => exec_drawn hex (h.found j q hq id hid)

theorem Known.start (h : Known sh ph) (call : Call) : Known sh (update ph i (some ⟨call, none, .idle⟩)) :=
  ⟨h.request, h.code, forall_kept nofun h.found⟩

/-! ## While the client is off -/

include ha in
/-- A grant in hand was there before the step, or the call has redeemed what it presented. -/
theorem held_or_redeems (hsees : Sees env sh sh' op r)
    {e : Option RevocationEpochs} (h : (p.advance op r).stage = .holding o e) :
    p.stage = .holding o e ∨
      p.stage = .idle ∧ (p.advance op r).admitted = p.admitted ∧ Redeems env sh.store o.1 p.call := by
  obtain heq | henters := Stage.advance_cases p.stage op r
  · exact .inl (heq.symm.trans h)
  · rw [show p.stage.advance op r = .holding o e from h] at henters
    right
    cases henters with
    | code v a e =>
      obtain ⟨hidle, c, hcall, -⟩ := ha
      obtain ⟨rec, hrec, ha, -⟩ := hsees
      rw [hcall]
      exact ⟨hidle, rfl, rec, a, hrec, ha, rfl⟩
    | refresh v a e =>
      obtain ⟨hidle, c, hcall, -⟩ := ha
      obtain ⟨t, ht, rfl, -⟩ := hsees
      rw [hcall]
      exact ⟨hidle, rfl, t, ht, rfl⟩
    | device c v d e happroved =>
      obtain ⟨hidle, hcall, -⟩ := ha
      obtain ⟨d', hd', hdenied, hclient', hclient, -⟩ := hsees happroved
      rw [hcall]
      exact ⟨hidle, rfl, d', hd', hdenied, hclient'.trans hclient.symm⟩

/-- A closed client is not looked up. -/
theorem admitted_of_closed (hclosed : Closed c sh.clients) (hsees : Sees env sh sh' op r)
    (h : (p.advance op r).admitted = some c) : p.admitted = some c := by
  cases op with
  | getClientByClientID id =>
    rcases r with e | cl
    · exact h
    · cases h
      obtain ⟨cl', hcl', hstatus⟩ := hsees
      exact absurd (hclosed cl' hcl') hstatus
  | _ => exact h

include hadds in
/-- What a call presents comes to stand for a grant only where it is handed out. -/
theorem Redeems.before (hknown : Known sh ph) (heffect : Effect new sh.store sh'.store) {call : Call}
    (hfirst : op.handsOut = true → ∀ v, call.presents = some v → ¬ DrawnNow sh sh' v)
    (hrefresh : ∀ k t, sh'.store.refreshTokens.get k = some t → t.clientID ≠ c)
    (h : Redeems env sh'.store c call) : Redeems env sh.store c call := by
  cases call with
  | code c' v =>
    obtain ⟨rec, a, hrec, ha, hc⟩ := h
    obtain hrec' | hnew := heffect.codes _ _ hrec
    · obtain ⟨a', ha', hclient⟩ | hnew := heffect.authRequests _ _ ha
      · exact ⟨rec, a', hrec', ha', hclient.trans hc⟩
      · exact absurd (hknown.code _ _ hrec') (request_of_adds hadds hnew).1
    · obtain ⟨rfl, v', hv', hdrawn⟩ := code_of_adds hadds hnew
      cases env.tokenHash_injective hv'
      exact absurd hdrawn (hfirst rfl v rfl)
  | refresh c' v =>
    obtain ⟨t, ht, hc⟩ := h
    exact absurd hc (hrefresh _ t ht)
  | device c' v =>
    obtain ⟨d, hd, hdenied, hc⟩ := h
    obtain ⟨d', hd', hdenied', hclient⟩ | hnew := heffect.devices _ _ hd hdenied
    · exact ⟨d', hd', hdenied', hclient.trans hc⟩
    · obtain ⟨hop, v', hv', hdrawn⟩ := device_of_adds hadds hnew
      cases env.tokenHash_injective hv'
      exact absurd hdrawn (hfirst hop v rfl)
  | _ => exact h

/-- No call mints for the client. -/
theorem Off.not_minted (h : Off env c sh ph) (hsound : Sound sh ph) (hp : ph i = some p)
    {captured : Option RevocationEpochs} (hstage : p.stage = .holding o captured)
    (hadmitted : p.admitted = some o.1 ∨ ∃ c d, p.call = .device c d)
    (hunchanged : revocationUnchanged captured (sh.store.revocationEpochsLocked o.1 o.2) = true) :
    o.1 ≠ c := by
  rintro rfl
  have hadmitted' : p.admitted = some o.1 := by
    obtain h | ⟨c, d, hcall⟩ := hadmitted
    · exact h
    · exact hsound.device i p hp c d o captured hcall hstage
  obtain ⟨e, rfl, -⟩ := hsound.captured i p hp o captured hstage
  exact h.stale i p hp hadmitted' o.2 e hstage (beq_iff_eq.1 hunchanged)

include hex ha in
/-- **Step lemma.** -/
theorem Off.step (h : Off env c sh ph) (hsound : Sound sh ph) (hknown : Known sh ph)
    (hp : ph i = some p) (hopen : ¬ Reopens c op)
    (hfirst : op.handsOut = true → ∀ j q, ph j = some q → ∀ v, q.call.presents = some v →
      ¬ DrawnNow sh sh' v) : Off env c sh' (update ph i (some (p.advance op r))) := by
  obtain ⟨new, heffect, hadds⟩ := exec_adds hex
  have hsees := exec_sees hex
  have hmint := mint_of_adds ha hadds
  have haccess : ∀ k t, sh'.store.accessTokens.get k = some t → t.clientID ≠ c := by
    intro k t ht
    obtain hold | hnew := heffect.accessTokens k t ht
    · exact h.access k t hold
    · obtain ⟨hnone, -⟩ | ⟨o, captured, a, v, hstage, hadmitted, hunchanged, -, ha, -⟩ := hmint
      · rw [hnone] at hnew
        cases hnew
      · rw [ha] at hnew
        cases hnew
        exact h.not_minted hsound hp hstage hadmitted hunchanged
  have hrefresh : ∀ k t, sh'.store.refreshTokens.get k = some t → t.clientID ≠ c := by
    intro k t ht
    obtain hold | hnew := heffect.refreshTokens k t ht
    · exact h.refresh k t hold
    · obtain ⟨-, hnone⟩ | ⟨o, captured, a, v, hstage, hadmitted, hunchanged, -, -, hv⟩ := hmint
      · rw [hnone] at hnew
        cases hnew
      · rw [hv] at hnew
        cases hnew
        exact h.not_minted hsound hp hstage hadmitted hunchanged
  have hspent : ∀ j q, ph j = some q → q.stage = .idle → q.admitted = some c →
      ¬ Redeems env sh'.store c q.call := fun j q hq hidle hadmitted hredeems =>
    h.spent j q hq hidle hadmitted
      (hredeems.before hadds hknown heffect (fun hop v hv => hfirst hop j q hq v hv) hrefresh)
  have hstale : ∀ j q, ph j = some q → q.admitted = some c → ∀ u e,
      q.stage = .holding (c, u) (some e) → e ≠ sh'.store.revocationEpochsLocked c u := by
    intro j q hq hadmitted u e hheld
    obtain ⟨e', he', hle⟩ := hsound.captured j q hq _ _ hheld
    cases he'
    exact RevocationEpochs.ne_of_le hle (h.stale j q hq hadmitted u e hheld) (heffect.epochsLocked_le c u)
  refine ⟨exec_closed hex h.closed hopen, haccess, hrefresh, forall_update ?_ ?_, forall_update ?_ ?_⟩
  · exact fun hidle hadmitted =>
      hspent i p hp (idle_of_advance hidle) (admitted_of_closed h.closed hsees hadmitted)
  · exact fun j q _ hq => hspent j q hq
  · intro hadmitted u e hstage
    obtain hheld | ⟨hidle, hsame, hredeems⟩ := held_or_redeems ha hsees hstage
    · exact hstale i p hp (admitted_of_closed h.closed hsees hadmitted) u e hheld
    · exact absurd hredeems (h.spent i p hp hidle (hsame.symm.trans hadmitted))
  · exact fun j q _ hq => hstale j q hq

theorem Off.start (h : Off env c sh ph) (call : Call) :
    Off env c sh (update ph i (some ⟨call, none, .idle⟩)) :=
  ⟨h.closed, h.access, h.refresh, forall_kept nofun h.spent, forall_kept nofun h.stale⟩

/-- **The revocation** of a client that is closed. -/
theorem Off.of_revokes (hindexed : Indexed sh.store) (hcaptured : ∀ j q, ph j = some q → ∀ o e,
      q.stage = .holding o e → Captured sh.store o e) (hclosed : Closed c sh'.clients)
    (hrevokes : Revokes ⟨c, ""⟩ sh.store sh'.store) : Off env c sh' ph := by
  have hcleared := hrevokes.cleared hindexed
  have hmatches : ∀ u, (TokenFilter.mk c "").matches c u = true := fun u => by
    simp [TokenFilter.matches]
  refine ⟨hclosed, ?_, ?_, ?_, ?_⟩
  · rintro k t ht rfl
    simpa [hmatches] using hcleared.access k t ht
  · rintro k t ht rfl
    simpa [hmatches] using hcleared.refresh k t ht
  · intro j q _ _ _ hredeems
    cases hcall : q.call with
    | code c' v =>
      rw [hcall] at hredeems
      obtain ⟨rec, a, -, ha, rfl⟩ := hredeems
      simpa [hmatches] using hcleared.request _ a ha
    | refresh c' v =>
      rw [hcall] at hredeems
      obtain ⟨t, ht, rfl⟩ := hredeems
      simpa [hmatches] using hcleared.refresh _ t ht
    | device c' v =>
      rw [hcall] at hredeems
      obtain ⟨d, hd, -, rfl⟩ := hredeems
      simpa [hmatches] using hcleared.device _ d hd
    | _ =>
      rw [hcall] at hredeems
      exact hredeems
  · intro j q hq _ u e hheld
    obtain ⟨e', he', hle⟩ := hcaptured j q hq _ _ hheld
    cases he'
    exact RevocationEpochs.ne_of_moved hle (hrevokes.effect.epochsLocked_le c u)
      (hrevokes.moved c u (hmatches u))

/-! ## The operator call -/

/-- **Switching**: how far call `i` has come in switching the client off. -/
structure Switching (env : Env) (i : ℕ) (c : String) (sh : Shared) (ph : ℕ → Option Phase) :
    Prop where
  sound : Sound sh ph
  known : Known sh ph
  closed : ∀ p, ph i = some p → p.stage = .closed c → Closed c sh.clients
  off : ∀ p, ph i = some p → p.stage = .cleared c → Off env c sh ph

include hex in
/-- A call that has closed the client has done so before, or just now. -/
theorem closed_advance (hclosed : p.stage = .closed c → Closed c sh.clients) (hopen : ¬ Reopens c op)
    (h : (p.advance op r).stage = .closed c) : Closed c sh'.clients := by
  have hsees := exec_sees hex
  obtain heq | henters := Stage.advance_cases p.stage op r
  · exact exec_closed hex (hclosed (heq.symm.trans h)) hopen
  · rw [show p.stage.advance op r = .closed c from h] at henters
    cases henters with
    | suspended id => exact hsees
    | removed id =>
      intro cl hcl
      rw [show Dict.get sh'.clients c = none from hsees] at hcl
      cases hcl

include hex ha in
/-- **Step lemma.** -/
theorem Switching.step (h : Switching env i c sh ph) (hp : ph j = some p) (hopen : ¬ Reopens c op)
    (hfirst : op.handsOut = true → ∀ j q, ph j = some q → ∀ v, q.call.presents = some v →
      ¬ DrawnNow sh sh' v) : Switching env i c sh' (update ph j (some (p.advance op r))) := by
  refine ⟨h.sound.step hp ha hex, h.known.step hex ha hp, fun q hq hstage => ?_, fun q hq hstage => ?_⟩
  · rw [update_apply] at hq
    split_ifs at hq with hij
    · cases hq
      subst hij
      exact closed_advance hex (h.closed p hp) hopen hstage
    · exact exec_closed hex (h.closed q hq hstage) hopen
  · rw [update_apply] at hq
    split_ifs at hq with hij
    · cases hq
      subst hij
      obtain heq | henters := Stage.advance_cases p.stage op r
      · exact (h.off p hp (heq.symm.trans hstage)).step hex ha h.sound h.known hp hopen hfirst
      · rw [show p.stage.advance op r = .cleared c from hstage] at henters
        cases henters with
        | cleared f n hst hf =>
          obtain ⟨c, u⟩ := f
          cases hf
          refine .of_revokes h.sound.indexed (forall_update ?_ ?_)
            (exec_closed hex (h.closed p hp hst) hopen) (exec_revokes hex rfl)
          · intro o e hheld
            rw [hstage] at hheld
            cases hheld
          · exact fun l q _ hq => h.sound.captured l q hq
    · exact (h.off q hq hstage).step hex ha h.sound h.known hp hopen hfirst

theorem Switching.start (h : Switching env i c sh ph) (call : Call) :
    Switching env i c sh (update ph j (some ⟨call, none, .idle⟩)) := by
  refine ⟨h.sound.start call, h.known.start call, fun q hq hstage => ?_, fun q hq hstage => ?_⟩
  · rw [update_apply] at hq
    split_ifs at hq
    · cases hq
      cases hstage
    · exact h.closed q hq hstage
  · rw [update_apply] at hq
    split_ifs at hq
    · cases hq
      cases hstage
    · exact (h.off q hq hstage).start call

end Step

/-! ## Runs -/

section Runs

variable {σ₀ σ τ : Deployment env} {i : ℕ} {c : String}

/-- A code or device code is presented only after it was handed out. -/
def HandedOutFirst (σ : Deployment env) : Event (provider env) → Prop
  | .start _ _ => True
  | .step i ω => ∀ op, σ.nextOp i = some op → op.handsOut = true → ∀ vs, ω.values = some vs →
    ∀ v ∈ vs, ∀ j q, σ.phase j = some q → q.call.presents ≠ some v

/-- The client is not activated and not registered. -/
def NotReopened (c : String) (σ : Deployment env) : Event (provider env) → Prop
  | .start _ _ => True
  | .step i _ => ∀ op, σ.nextOp i = some op → ¬ Reopens c op

theorem Started.known (h : Started σ) : Known σ.sh σ.phase := by
  obtain ⟨opts, hstore⟩ := h.store
  refine ⟨fun id a ha => ?_, fun k rec hrec => ?_, fun i p hp => ?_⟩
  · rw [hstore] at ha
    cases ha
  · rw [hstore] at hrec
    cases hrec
  · rw [phase, h.threads i] at hp
    cases hp

theorem Known.runs (h : Runs σ τ) (hσ : σ.Conforming Ends) (hknown : Known σ.sh σ.phase) :
    Known τ.sh τ.phase :=
  h.invariant (I := Known) provider_follows (fun _ _ call _ hI _ => hI.start call)
    (fun _ _ _ _ _ _ _ _ hI hp _ ha hex => hI.step hex ha hp) hσ hknown

/-- **Run lemma.** -/
theorem Switching.runs (h : Pool.Reaches (fun σ e => HandedOutFirst σ e ∧ NotReopened c σ e) σ τ)
    (hσ : σ.Conforming Ends) (hI : Switching env i c σ.sh σ.phase) : Switching env i c τ.sh τ.phase := by
  refine h.invariant (I := Switching env i c) provider_follows (fun _ _ call _ hI _ => hI.start call) ?_ hσ hI
  rintro σ j ω p op r sh' ⟨hfirst, hopen⟩ hI hp hop ha hex
  refine hI.step hex ha hp (hopen op hop) fun hhands l q hq v hv hdrawn => ?_
  obtain hold | ⟨vs, hvs, hmem⟩ := exec_draws hex hdrawn.2
  · exact hdrawn.1 hold
  · exact hfirst op hop hhands vs hvs v hmem l q hq hv

/-- **Switching a client off is final**: after `SuspendClient`, `DeleteClient` or `KillSwitch` has
returned success, no token of the client is stored in any state of the run, until the client is activated
or registered again. -/
theorem switchOff_final {p : Phase} {a : Option Pair} (h₀ : Started σ₀) (h₁ : Runs σ₀ σ)
    (hi : σ.threads i = none) (h₂ : Pool.Reaches (fun σ e => HandedOutFirst σ e ∧ NotReopened c σ e) σ τ)
    (hp : τ.phase i = some p) (hcall : p.call.switchesOff = some c) (hreply : τ.reply i = some (.ok a)) :
    (∀ k t, τ.sh.store.accessTokens.get k = some t → t.clientID ≠ c) ∧
      ∀ k t, τ.sh.store.refreshTokens.get k = some t → t.clientID ≠ c := by
  have hnone : σ.phase i = none := by rw [phase, hi]; rfl
  have hconf := h₁.conforming provider_follows h₀.conforming
  have hI : Switching env i c σ.sh σ.phase := by
    refine ⟨Sound.runs h₁ h₀.conforming h₀.sound, Known.runs h₁ h₀.conforming h₀.known,
      fun p hp => ?_, fun p hp => ?_⟩
    all_goals
      rw [hnone] at hp
      cases hp
  have hends : Ends (.ok a) p :=
    Conforming.done (h₂.conforming provider_follows hconf) hp hreply
  have hstage : p.stage = .cleared c := hends rfl c hcall
  have hoff := (hI.runs h₂ hconf).off p hp hstage
  exact ⟨hoff.access, hoff.refresh⟩

instance {c : String} : DecidablePred (Reopens c) := fun op => by
  cases op with
  | createClient cl => exact inferInstanceAs (Decidable (cl.id = c))
  | setStatus id status =>
    cases status with
    | active => exact inferInstanceAs (Decidable (id = c))
    | suspended => exact inferInstanceAs (Decidable False)
  | _ => exact inferInstanceAs (Decidable False)

/-- The event hands nothing out and does not reopen the client, and starts only the first `m` calls. -/
def quiet (m : ℕ) (c : String) (σ : Deployment env) (e : Event (provider env)) : Bool :=
  e.below m && match e with
    | .start _ _ => true
    | .step i _ => (σ.nextOp i).all fun op => !op.handsOut && !decide (Reopens c op)

theorem quiet_spec {m : ℕ} {e : Event (provider env)} (h : quiet m c σ e = true) :
    e.below m = true ∧ HandedOutFirst σ e ∧ NotReopened c σ e := by
  obtain ⟨hbelow, hquiet⟩ := Bool.and_eq_true_iff.1 h
  refine ⟨hbelow, ?_⟩
  cases e with
  | start i call => exact ⟨trivial, trivial⟩
  | step i ω =>
    have hop : ∀ op, σ.nextOp i = some op → op.handsOut = false ∧ ¬ Reopens c op := by
      intro op hop
      simpa [hop] using hquiet
    refine ⟨fun op h hhands => ?_, fun op h => (hop op h).2⟩
    rw [(hop op h).1] at hhands
    cases hhands

/-- A suspension while call 3 has the grant in hand: call 3 is refused. -/
theorem switchOff_final_refused : ∃ σ τ : Deployment sampleEnv, holds σ 3 ("c", "s") = true ∧
    (τ.reply 3).any (fun a => !a.isOk) = true ∧ (τ.reply 4).any (·.isOk) = true ∧
      ∀ k t, τ.sh.store.refreshTokens.get k = some t → t.clientID ≠ "c" := by
  let es := granting ++ running 3 (.code "c" "code") [[], []]
  have h₁ := reaches_of_run (σ := sampleStart) es rfl
  have hfinal := switchOff_final (i := 4) (c := "c") sampleStart_started h₁ rfl
    (reaches_of_check (running 4 (.suspendClient "c") [[], []] ++ minting)
      (fun _ _ h => (quiet_spec (m := 5) h).2) (show runIf (quiet 5 "c") _ _ = some _ from rfl))
    rfl rfl rfl
  exact ⟨(sampleStart.runIf (fun _ _ => true) es).get rfl, _, rfl, by exact rfl, by exact rfl, hfinal.2⟩

end Runs

end Re0Auth.Memory

import Re0Auth.OAuth.Evidence
import Re0Auth.OAuth.Revocation

/-!
# Authorization codes are redeemed once

`Exchange` reads a code, checks it, claims it and checks it again; reading, checking and claiming are
steps of their own.

* **`Spent`**: a claimed code is gone for good, and one call has claimed it;
* **`code_single_use`**: who redeems a code, what the tokens carry, and what it takes to remove one;
* **`code_removed_expired`**: the check that is repeated after the claim can fail.
-/

namespace Re0Auth.OAuth

open Lib Pool MemoryStore

variable {cfg : Config} {op : Op} {ω : String} {sh sh' : Shared} {r : op.Res} {p : Phase}
  {x : Evidence} {ph : ℕ → Option (Phase × Evidence)} {i : ℕ} {v k : String}
  {req : CodeExchangeRequest} {code : AuthorizationCode} {σ₀ σ σ' : Observed cfg}

/-- The call has claimed the code with this record, and on the record it had read before all checks
had passed. -/
structure Redeems (cfg : Config) (x : Evidence) (req : CodeExchangeRequest) (code : AuthorizationCode) :
    Prop where
  call : x.call = .exchange req
  claimed : x.claimedCode = some (req.code, code)
  checked : ∃ c n, x.Authenticated cfg.env req.clientID req.clientSecret c ∧
    CodeBound cfg.env n c req code

/-- **Spent** codes: one call has claimed a code, and it does not come back. -/
structure Spent (cfg : Config) (sh : Shared) (ph : ℕ → Option (Phase × Evidence)) : Prop where
  gone : ∀ i q, ph i = some q → ∀ v c, q.2.claimedCode = some (v, c) →
    v ∈ q.1.presented ∧ sh.tokens.codes.get (cfg.env.tokenHash v) = none
  once : ∀ i q, ph i = some q → ∀ j q', ph j = some q' → ∀ v c c', q.2.claimedCode = some (v, c) →
    q'.2.claimedCode = some (v, c') → i = j
  redeems : ∀ i q, ph i = some q → ∀ v c, q.2.claimedCode = some (v, c) →
    ∃ req, req.code = v ∧ Redeems cfg q.2 req c

variable (hex : exec cfg op ω sh = some (r, sh')) (ha : Allowed cfg.env p op)

include hex in
/-- A claimed code is one that was claimed before, or it has just left the store. -/
theorem claimedCode_advance {c : AuthorizationCode} (h : (x.advance op r).claimedCode = some (v, c)) :
    x.claimedCode = some (v, c) ∨ op = .consumeCode v ∧
      sh.tokens.codes.get (cfg.env.tokenHash v) = some c ∧
      sh'.tokens.codes.get (cfg.env.tokenHash v) = none := by
  cases op with
  | consumeCode value =>
    obtain ⟨c', hc', heq⟩ := Option.map_eq_some_iff.1 h
    cases heq
    cases hex
    have hok : (sh.tokens.consumeCode cfg.env v).1 = .ok c := by
      cases hres : (sh.tokens.consumeCode cfg.env v).1 with
      | error e =>
        rw [hres] at hc'
        cases hc'
      | ok c' =>
        rw [hres] at hc'
        cases hc'
        rfl
    have hget := get_of_consumeCode hok
    refine .inr ⟨rfl, hget, ?_⟩
    rw [consumeCode, hget]
    exact Dict.get_del_self ..
  | recordDecision hash d =>
    dsimp only [Evidence.advance] at h
    split at h <;> exact .inl h
  | _ => exact .inl h

include ha in
/-- What a call presented stays presented. -/
theorem presented_advance (hv : v ∈ p.presented) :
    v ∈ (p.advance op r).presented := by
  cases op with
  | receive values =>
    rw [ha.2.1] at hv
    exact absurd hv List.not_mem_nil
  | grantEpoch => exact readEpoch_cases fun _ _ => hv
  | _ => exact hv

include hex ha in
/-- A code that was presented is not stored again. -/
theorem codes_none_of_presented {q : Phase} (hp : TidyAt cfg.env sh p) (hq : TidyAt cfg.env sh q)
    (hv : v ∈ q.presented) (h : sh.tokens.codes.get (cfg.env.tokenHash v) = none) :
    sh'.tokens.codes.get (cfg.env.tokenHash v) = none := by
  cases hc : sh'.tokens.codes.get (cfg.env.tokenHash v) with
  | none => rfl
  | some c =>
    obtain hold | ⟨value, rfl, hk⟩ := exec_codes hex hc
    · rw [h] at hold
      cases hold
    · have hne := hp.ne_presented hq (by rw [ha.2.1]; nofun) ha.1 hv
      exact absurd (cfg.env.tokenHash_injective hk) hne

theorem Redeems.kept {y : Evidence}
    (h : Redeems cfg x req code) (hk : x.Kept y) : Redeems cfg y req code := by
  obtain ⟨c, n, hclient, hbound⟩ := h.checked
  exact ⟨hk.call.trans h.call, hk.claimedCode _ h.claimed, c, n, ⟨hk.client _ hclient.1, hclient.2⟩, hbound⟩

include hex ha in
/-- **Step lemma.** -/
theorem Spent.step (h : Spent cfg sh ph) (hO : Observes cfg.env sh ph) (hi : ph i = some (p, x))
    (he : Entitled cfg x op) :
    Spent cfg sh' (Function.update ph i (some (p.advance op r, x.advance op r))) := by
  have htidy : ∀ j q, ph j = some q → TidyAt cfg.env sh q.1 := fun j q hj =>
    hO.tidy.each j q.1 (phases_some hj)
  -- another call has not claimed what this call claims
  have hother : ∀ j q, ph j = some q → ∀ v c c', (x.advance op r).claimedCode = some (v, c) →
      q.2.claimedCode = some (v, c') → i = j := by
    intro j q hj v c c' hc hc'
    obtain hold | ⟨-, hget, -⟩ := claimedCode_advance hex hc
    · exact h.once i _ hi j q hj v c c' hold hc'
    · rw [(h.gone j q hj v c' hc').2] at hget
      cases hget
  refine ⟨forall_kept (fun v c hc => ?_) fun j q hj v c hc => ?_,
    forall_kept (forall_kept (fun _ _ _ _ _ => rfl) hother)
      fun j q hj => forall_kept (fun v c c' hc hc' => (hother j q hj v c' c hc' hc).symm) (h.once j q hj),
    forall_kept (fun v c hc => ?_) h.redeems⟩
  · obtain hold | ⟨rfl, -, hnone⟩ := claimedCode_advance hex hc
    · obtain ⟨hpres, hnone⟩ := h.gone i _ hi v c hold
      exact ⟨presented_advance ha hpres,
        codes_none_of_presented hex ha (htidy i _ hi) (htidy i _ hi) hpres hnone⟩
    · exact ⟨presented_advance ha ha.2.2.1, hnone⟩
  · obtain ⟨hpres, hnone⟩ := h.gone j q hj v c hc
    exact ⟨hpres, codes_none_of_presented hex ha (htidy i _ hi) (htidy j q hj) hpres hnone⟩
  · obtain hold | ⟨rfl, hget, -⟩ := claimedCode_advance hex hc
    · obtain ⟨req, hv, hredeems⟩ := h.redeems i _ hi v c hold
      exact ⟨req, hv, hredeems.kept (Evidence.kept_advance he)⟩
    · -- the record that was claimed is the one that was read and checked
      obtain ⟨-, req, cl, code, n, hcall, rfl, hclient, hread, -, hbound⟩ := he
      have hread' : p.readCode = some (req.code, code) := (hO.agrees i _ hi).code.symm.trans hread
      obtain rfl := ((htidy i _ hi).readCode hread').2 c hget
      exact ⟨req, rfl, hcall, hc, cl, n, hclient, hbound⟩

theorem Spent.start (h : Spent cfg sh ph) (c : Call) :
    Spent cfg sh (Function.update ph i (some (Phase.start c, Evidence.start c))) :=
  ⟨forall_kept nofun h.gone,
    forall_kept (fun _ _ _ _ _ _ hc => (by cases hc)) fun j q hj =>
      forall_kept (fun _ _ _ _ hc => (by cases hc)) (h.once j q hj),
    forall_kept nofun h.redeems⟩

/-! ## Runs -/

/-- Call `i` is an `Exchange` with this request, and this is what it has been shown. -/
def Exchanging (σ : Observed cfg) (i : ℕ) (req : CodeExchangeRequest) (x : Evidence) : Prop :=
  ∃ p, σ.phase i = some (p, x) ∧ x.call = .exchange req

/-- The call issues tokens: it is about to write a record, or it has answered with tokens. -/
def Issuing (σ : Observed cfg) (i : ℕ) : Prop :=
  (∃ v t, σ.nextOp i = some (.saveAccess v t)) ∨ (∃ v t, σ.nextOp i = some (.saveRefresh v t)) ∨
    ∃ resp, σ.reply i = some (.ok (.token resp))

theorem Spent.runs (h : Pool.Reaches (fun _ _ => True) σ₀ σ) (hσ : σ₀.Sound)
    (hspent : Spent cfg σ₀.sh σ₀.phase) : σ.Sound ∧ Spent cfg σ.sh σ.phase :=
  Observed.invariant (I := Spent cfg) h hσ (fun _ _ c _ hI _ => hI.start c)
    (fun _ _ _ _ _ _ _ _ _ hO hI hi _ ha he hex => hI.step hex ha hO hi he) hspent

theorem spent_of_idle (h : ∀ i, σ₀.threads i = none) : Spent cfg σ₀.sh σ₀.phase := by
  have hnone : ∀ i q, σ₀.phase i ≠ some q := fun i q hq => by
    rw [phase, h i] at hq
    cases hq
  exact ⟨fun i q hq => absurd hq (hnone i q), fun i q hq => absurd hq (hnone i q),
    fun i q hq => absurd hq (hnone i q)⟩

/-- What an `Exchange` that has claimed its code may write. -/
theorem Evidence.Claims.of_exchange {clientID subject familyID : String}
    {scopes : List Scope} (h : x.Claims cfg clientID subject scopes familyID)
    (hcall : x.call = .exchange req) :
    ∃ c code n, x.Authenticated cfg.env req.clientID req.clientSecret c ∧
      x.claimedCode = some (req.code, code) ∧ n ∈ x.clocks ∧ CodeBound cfg.env n c req code ∧
      clientID = code.clientID ∧ subject = code.subject ∧ scopes = code.scopes := by
  cases h with
  | code hcall' hclient hclaimed hclock hbound =>
    cases hcall.symm.trans hcall'
    exact ⟨_, _, _, hclient, hclaimed, hclock, hbound, hbound.client.symm, rfl, rfl⟩
  | refresh hcall' =>
    rw [hcall] at hcall'
    cases hcall'
  | device hcall' =>
    rw [hcall] at hcall'
    cases hcall'

/-- The grant an `Exchange` issues tokens for. -/
theorem Observed.Sound.claims (hσ : σ.Sound) (hi : σ.phase i = some (p, x)) (h : Issuing σ i) :
    ∃ clientID subject scopes family, x.Claims cfg clientID subject scopes family := by
  obtain ⟨v, t, hop⟩ | ⟨v, t, hop⟩ | ⟨resp, hreply⟩ := h
  · obtain ⟨-, -, family, hclaims, -⟩ := hσ.conforming.allowed hop hi
    exact ⟨_, _, _, _, hclaims⟩
  · obtain ⟨-, -, family, hclaims, -⟩ := hσ.conforming.allowed hop hi
    exact ⟨_, _, _, _, hclaims⟩
  · have hconcluded : Concluded cfg _ (p, x) := hσ.conforming.done hi hreply
    exact hconcluded.2 resp rfl

include hex ha in
/-- The code a step of an `Exchange` removes is the one that it claims. -/
theorem consumeCode_of_removed
    (hcall : p.call = .exchange req) (hcode : sh.tokens.codes.get k = some code)
    (hgone : sh'.tokens.codes.get k = none) : ∃ v, op = .consumeCode v ∧ k = cfg.env.tokenHash v := by
  have hkeeps : sh'.tokens.codes = sh.tokens.codes → False := fun hsame => by
    rw [hsame, hcode] at hgone
    cases hgone
  cases op with
  | consumeCode v =>
    refine ⟨v, rfl, ?_⟩
    cases hex
    by_contra hne
    rw [consumeCode] at hgone
    split at hgone
    · rw [hcode] at hgone
      cases hgone
    · rw [Dict.get_del, if_neg hne, hcode] at hgone
      cases hgone
  | saveCode v c =>
    obtain ⟨-, -, req', hcall', -⟩ := ha
    rw [hcall] at hcall'
    cases hcall'
  | consumeRefresh v =>
    cases hex
    exact (hkeeps consumeRefresh_codes).elim
  | revokeRefreshFamily familyID =>
    cases hex
    refine (hkeeps ?_).elim
    rw [revokeRefreshFamily]
    split <;> rfl
  | deleteBySubjectClient subject clientID =>
    obtain ⟨-, -, hcall'⟩ := ha
    rw [hcall] at hcall'
    cases hcall'
  | revokeTokens f =>
    obtain ⟨-, hcall' | ⟨id, hcall', -⟩⟩ := ha <;> rw [hcall] at hcall' <;> cases hcall'
  | sweepTokens now =>
    rw [show p.call = .sweepTokens now from ha] at hcall
    cases hcall
  | _ =>
    dsimp only [exec] at hex
    try split at hex
    all_goals cases hex
    all_goals exact (hkeeps rfl).elim

/-- An `Exchange` that issues tokens has claimed its code. -/
theorem Exchanging.redeems (h : Exchanging σ i req x) (hσ : σ.Sound) (hissues : Issuing σ i) :
    ∃ c code n, x.Authenticated cfg.env req.clientID req.clientSecret c ∧
      x.claimedCode = some (req.code, code) ∧ n ∈ x.clocks ∧ CodeBound cfg.env n c req code := by
  obtain ⟨p, hi, hcall⟩ := h
  obtain ⟨_, _, _, _, hclaims⟩ := hσ.claims hi hissues
  obtain ⟨c, code, n, hclient, hclaimed, hclock, hbound, -⟩ := hclaims.of_exchange hcall
  exact ⟨c, code, n, hclient, hclaimed, hclock, hbound⟩

/-- An `Exchange` that removes a code has checked the record. -/
theorem Exchanging.removes (h : Exchanging σ i req x) (hσ : σ.Sound) (hnext : σ.next (.step i ω) = some σ')
    (hcode : σ.sh.tokens.codes.get k = some code) (hgone : σ'.sh.tokens.codes.get k = none) :
    k = cfg.env.tokenHash req.code ∧ ∃ c, ∃ n ∈ x.clocks,
      x.Authenticated cfg.env req.clientID req.clientSecret c ∧ CodeBound cfg.env n c req code := by
  obtain ⟨p, hi, hcall⟩ := h
  obtain ⟨j, c, hstart, -⟩ | ⟨j, ω', c, q, op, k', r, sh, hstep, hj, hex, rfl⟩ :=
    next_cases hnext
  · cases hstart
  cases hstep
  obtain rfl : q = (p, x) := by
    rw [phase, hj] at hi
    exact Option.some.inj hi
  have ha : Allowed cfg.env p op ∧ Entitled cfg x op := (hσ.conforming i _ hj).1
  have hagrees := hσ.observes.agrees i _ hi
  obtain ⟨v, rfl, rfl⟩ := consumeCode_of_removed hex ha.1 (hagrees.call.symm.trans hcall) hcode hgone
  obtain ⟨-, req', cl, code', n, hcall', rfl, hclient, hread, hclock, hbound⟩ := ha.2
  cases hcall.symm.trans hcall'
  -- the record in the store is the one that was read
  have hread' : p.readCode = some (req.code, code') := hagrees.code.symm.trans hread
  obtain rfl := ((hσ.observes.tidy.each i p (phases_some hi)).readCode hread').2 code hcode
  exact ⟨rfl, cl, n, hclock, hclient, hbound⟩

/-- What `verifyPKCE` accepts: the verifier of the recorded challenge. -/
theorem CodeBound.s256 {env : Env} {now : Time} {c : Client} (h : CodeBound env now c req code) :
    code.codeChallengeMethod = "S256" ∧ env.s256 req.codeVerifier = code.codeChallenge := by
  have hpkce := h.pkce
  rw [verifyPKCE] at hpkce
  split_ifs at hpkce with hshape
  simp only [Bool.or_eq_true, bne_iff_ne, not_or, not_not] at hshape
  exact ⟨hshape.2, beq_iff_eq.1 hpkce⟩

/-- The service of `sampleStart`, under observation. -/
def sampleObserved : Observed sampleConfig where
  sh := sampleStart.sh
  threads _ := none

/-- The request of `sampleExchange`. -/
def sampleRequest : CodeExchangeRequest := ⟨"c", "", "code", "https://r", sampleChallenge⟩

/-- The exchange has claimed its code, drawn its values and read the clock. -/
def redeemed : List (Event (service sampleConfig)) :=
  [.start 0 sampleExchange] ++ steps 0 7 ++
    [.step 0 "at", .step 0 "rt", .step 0 "family"] ++ steps 0 1

/-- The code expires when the exchange has claimed it. -/
def expired : List (Event (service sampleConfig)) :=
  [.start 0 sampleExchange] ++ steps 0 6 ++ [.start 1 (.advanceClock 5)] ++ steps 1 3 ++ steps 0 2

/-- Only exchanges of the sample code are made, and the clock goes on. -/
def redeemsOnly : Event (service sampleConfig) → Bool
  | .start _ (.exchange req) => decide (req = sampleRequest)
  | .start _ (.advanceClock _) => true
  | .start _ _ => false
  | .step _ _ => true

end Re0Auth.OAuth

import Re0Auth.OAuth.Conformance

/-!
# Drawn and presented values

What every run of the service keeps about the values it draws and the callers present, whatever the
stores held at its start:

* a value a caller presented is none that is still to be handed out;
* the values two calls have drawn are different, and a call's own are secret until it answers;
* a record a call has read does not change under it: while it is stored at all, it is the record
  that was read.

* **`exec_within`**: which operations can add to the token store;
* **`Tidy`**: the invariant, and **`System.invariant`**, the rule by which the other invariants of a
  run are proved.
-/

namespace Re0Auth.OAuth

open Lib Function Pool MemoryStore List Option

variable {cfg : Config} {op : Op} {ω : String} {sh sh' : Shared} {r : op.Res} {p q : Phase}
  {env : Env} {v k : String} {c : Call} {ph : ℕ → Option Phase} {i : ℕ}

/-! ## What an operation does to the shared state -/

/-- The values seen only grow. -/
theorem exec_seen (h : exec cfg op ω sh = some (r, sh')) : sh.seen ⊆ sh'.seen := by
  cases op <;> dsimp only [exec] at h <;> (try split at h) <;> cases h <;> simp

/-- A value that is drawn is one nobody has seen. -/
theorem exec_newToken (h : exec cfg .newToken ω sh = some (v, sh')) :
    (v ≠ "" ∧ v ∉ sh.seen ∧ sh.tokens.tombstones.get (cfg.env.tokenHash v) = none) ∧
      sh' = { sh with seen := v :: sh.seen, secret := v :: sh.secret } := by
  dsimp only [exec] at h
  split_ifs at h with hfresh
  cases h
  simp only [Shared.fresh, Bool.and_eq_true, Bool.not_eq_true', contains_eq_mem, decide_eq_false_iff_not,
    bne_iff_ne, isNone_iff_eq_none] at hfresh
  exact ⟨⟨hfresh.1.1.1.1.1.1, hfresh.1.1.1.1.1.2, hfresh.1.2⟩, rfl⟩

/-- A value that is presented is one that was handed out, if it was drawn. -/
theorem exec_receive {values : List String} {u : Unit} (h : exec cfg (.receive values) ω sh = some (u, sh')) :
    (∀ v ∈ values, v ∉ sh.secret) ∧ sh' = { sh with seen := values ++ sh.seen } := by
  dsimp only [exec] at h
  split_ifs at h with hall
  cases h
  exact ⟨by simpa using hall, rfl⟩

section

variable (h : exec cfg op ω sh = some (r, sh'))
include h

/-- Only a draw adds a secret value, and it adds one nobody has seen. -/
theorem exec_secret (hv : v ∈ sh'.secret) : v ∈ sh.secret ∨ v ∉ sh.seen := by
  cases op with
  | newToken =>
    obtain ⟨⟨-, hseen, -⟩, rfl⟩ := exec_newToken h
    rcases mem_cons.1 hv with rfl | hv
    · exact .inr hseen
    · exact .inl hv
  | respond values =>
    cases h
    exact .inl (mem_filter.1 hv).1
  | _ =>
    dsimp only [exec] at h
    try split at h
    all_goals cases h
    all_goals exact .inl hv

/-- Only an answer makes a value known, and only one it hands out. -/
theorem exec_secret_keep
    (hv : v ∈ sh.secret) : v ∈ sh'.secret ∨ ∃ values, op = .respond values ∧ v ∈ values := by
  cases op with
  | newToken =>
    obtain ⟨-, rfl⟩ := exec_newToken h
    exact .inl (mem_cons_of_mem _ hv)
  | respond values =>
    cases h
    by_cases hmem : v ∈ values
    · exact .inr ⟨values, rfl, hmem⟩
    · exact .inl (mem_filter.2 ⟨hv, by simpa using hmem⟩)
  | _ =>
    dsimp only [exec] at h
    try split at h
    all_goals cases h
    all_goals exact .inl hv

/-- Only the three saves and a claimed refresh value add to the token store. -/
theorem exec_within
    (hcode : ∀ value c, op ≠ .saveCode value c) (haccess : ∀ value t, op ≠ .saveAccess value t)
    (hrefresh : ∀ value t, op ≠ .saveRefresh value t)
    (hconsume : ∀ value, op ≠ .consumeRefresh value) : sh'.tokens.Within sh.tokens := by
  cases op with
  | saveCode value c => exact absurd rfl (hcode value c)
  | saveAccess value t => exact absurd rfl (haccess value t)
  | saveRefresh value t => exact absurd rfl (hrefresh value t)
  | consumeRefresh value => exact absurd rfl (hconsume value)
  | consumeCode value => cases h; exact consumeCode_within
  | deleteAccess value => cases h; exact deleteAccess_within
  | deleteRefresh value => cases h; exact deleteRefresh_within
  | revokeRefreshFamily familyID => cases h; exact revokeRefreshFamily_within
  | deleteBySubjectClient subject clientID => cases h; exact deleteBySubjectClient_within
  | revokeTokens f => cases h; exact dropOwned_within
  | sweepTokens now => cases h; exact sweepExpired_within
  | _ =>
    dsimp only [exec] at h
    try split at h
    all_goals cases h
    all_goals exact .refl _

/-- A code is stored only by `SaveCode`. -/
theorem exec_codes {c : AuthorizationCode} (hc : sh'.tokens.codes.get k = some c) :
    sh.tokens.codes.get k = some c ∨ ∃ value, op = .saveCode value c ∧
      k = cfg.env.tokenHash value := by
  cases op with
  | saveCode value c' =>
    cases h
    rcases Dict.get_of_get_set hc with hc | ⟨hk, rfl⟩
    · exact .inl hc
    · exact .inr ⟨value, rfl, hk⟩
  | saveAccess | saveRefresh => cases h; exact .inl hc
  | consumeRefresh value =>
    cases h
    rw [consumeRefresh_codes] at hc
    exact .inl hc
  | _ => exact .inl ((exec_within h nofun nofun nofun nofun).codes hc)

/-- An access record is stored only by `SaveAccess`. -/
theorem exec_access {t : AccessToken} (ht : sh'.tokens.access.get k = some t) :
    sh.tokens.access.get k = some t ∨ ∃ value, op = .saveAccess value t ∧
      k = cfg.env.tokenHash value := by
  cases op with
  | saveAccess value t' =>
    cases h
    rcases Dict.get_of_get_set ht with ht | ⟨hk, rfl⟩
    · exact .inl ht
    · exact .inr ⟨value, rfl, hk⟩
  | saveCode | saveRefresh => cases h; exact .inl ht
  | consumeRefresh value =>
    cases h
    rw [consumeRefresh_access] at ht
    exact .inl ht
  | _ => exact .inl ((exec_within h nofun nofun nofun nofun).access ht)

/-- A refresh record is stored only by `SaveRefresh`. -/
theorem exec_refresh {t : RefreshToken} (ht : sh'.tokens.refresh.get k = some t) :
    sh.tokens.refresh.get k = some t ∨ ∃ value, op = .saveRefresh value t ∧
      k = cfg.env.tokenHash value := by
  cases op with
  | saveRefresh value t' =>
    cases h
    rcases Dict.get_of_get_set ht with ht | ⟨hk, rfl⟩
    · exact .inl ht
    · exact .inr ⟨value, rfl, hk⟩
  | saveCode | saveAccess => cases h; exact .inl ht
  | consumeRefresh value =>
    cases h
    exact .inl (consumeRefresh_refresh ht)
  | _ => exact .inl ((exec_within h nofun nofun nofun nofun).refresh ht)

end

/-! ## The invariant -/

/-- What holds of one call. -/
structure TidyAt (env : Env) (sh : Shared) (p : Phase) : Prop where
  presented : ∀ v ∈ p.presented, v ∈ sh.seen ∧ v ∉ sh.secret
  drawn : ∀ v ∈ p.drawn, v ∈ sh.seen
  secret : p.stage ≠ .settled → ∀ v ∈ p.drawn, v ∈ sh.secret
  readCode : ∀ {v c}, p.readCode = some (v, c) → v ∈ p.presented ∧
    ∀ c', sh.tokens.codes.get (env.tokenHash v) = some c' → c' = c
  readRefresh : ∀ {v o}, p.readRefresh = some (v, o) → v ∈ p.presented ∧
    ∀ t, sh.tokens.refresh.get (env.tokenHash v) = some t → o = some t

/-- **Tidy**: what holds of the calls in progress. -/
structure Tidy (env : Env) (sh : Shared) (ph : ℕ → Option Phase) : Prop where
  each : ∀ i p, ph i = some p → TidyAt env sh p
  disjoint : ∀ i p, ph i = some p → ∀ j q, ph j = some q → j ≠ i → ∀ v ∈ p.drawn, v ∉ q.drawn

/-- A value a call has drawn and not handed out is none that another call was given. -/
theorem TidyAt.ne_presented (hp : TidyAt cfg.env sh p) (hq : TidyAt cfg.env sh q) {w : String}
    (hs : p.stage ≠ .settled) (hw : w ∈ p.drawn) (hv : v ∈ q.presented) : v ≠ w := by
  rintro rfl
  exact (hq.presented v hv).2 (hp.secret hs v hw)

/-- What holds of a call is not disturbed by an operation that does not hand out its values. -/
theorem TidyAt.stable (hq : TidyAt cfg.env sh q) (hp : TidyAt cfg.env sh p)
    (ha : Allowed cfg.env p op) (h : exec cfg op ω sh = some (r, sh'))
    (hresp : ∀ values, op = .respond values → ∀ v ∈ values, v ∉ q.drawn) : TidyAt cfg.env sh' q where
  presented v hv := by
    refine ⟨exec_seen h (hq.presented v hv).1, fun hs => ?_⟩
    rcases exec_secret h hs with hs | hs
    · exact (hq.presented v hv).2 hs
    · exact hs (hq.presented v hv).1
  drawn v hv := exec_seen h (hq.drawn v hv)
  secret hs v hv := by
    rcases exec_secret_keep h (hq.secret hs v hv) with hk | ⟨values, rfl, hk⟩
    · exact hk
    · exact absurd hv (hresp values rfl v hk)
  readCode := by
    intro v c hc
    refine ⟨(hq.readCode hc).1, fun c' hc' => ?_⟩
    rcases exec_codes h hc' with hc' | ⟨value, rfl, hk⟩
    · exact (hq.readCode hc).2 c' hc'
    · have hne := hp.ne_presented hq (by rw [ha.2.1]; nofun) ha.1 (hq.readCode hc).1
      exact absurd (cfg.env.tokenHash_injective hk) hne
  readRefresh := by
    intro v o ho
    refine ⟨(hq.readRefresh ho).1, fun t ht => ?_⟩
    rcases exec_refresh h ht with ht | ⟨value, rfl, hk⟩
    · exact (hq.readRefresh ho).2 t ht
    · obtain ⟨hw, c, at_, hstage, -⟩ := ha
      have hne := hp.ne_presented hq (by rw [hstage]; nofun) hw (hq.readRefresh ho).1
      exact absurd (cfg.env.tokenHash_injective hk) hne

/-- The facts about a call survive a change of its phase that reads and draws nothing. -/
theorem TidyAt.of_eq {p' : Phase} (hp : TidyAt env sh p)
    (hpres : p'.presented = p.presented) (hdrawn : p'.drawn = p.drawn)
    (hcode : p'.readCode = p.readCode) (hrefresh : p'.readRefresh = p.readRefresh)
    (hstage : p.stage = .settled → p'.stage = .settled) : TidyAt env sh p' where
  presented := by rw [hpres]; exact hp.presented
  drawn := by rw [hdrawn]; exact hp.drawn
  secret hs := by rw [hdrawn]; exact hp.secret fun h => hs (hstage h)
  readCode := by rw [hcode, hpres]; exact hp.readCode
  readRefresh := by rw [hrefresh, hpres]; exact hp.readRefresh

/-- What holds of a call is kept by its own operations. -/
theorem TidyAt.self (hp : TidyAt cfg.env sh p) (ha : Allowed cfg.env p op)
    (h : exec cfg op ω sh = some (r, sh')) : TidyAt cfg.env sh' (p.advance op r) := by
  cases op with
  | receive values =>
    -- nothing was presented before, so nothing was read either
    obtain ⟨hknown, rfl⟩ := exec_receive h
    refine ⟨fun v hv => ⟨mem_append_left _ hv, hknown v hv⟩, fun v hv => ?_, hp.secret, ?_, ?_⟩
    · exact mem_append_right _ (hp.drawn v hv)
    · intro v c hc
      exact absurd (hp.readCode hc).1 (by rw [ha.2.1]; exact not_mem_nil)
    · intro v o ho
      exact absurd (hp.readRefresh ho).1 (by rw [ha.2.1]; exact not_mem_nil)
  | respond values =>
    cases h
    refine ⟨fun v hv => ⟨(hp.presented v hv).1, fun hs => ?_⟩, hp.drawn, fun hs => ?_, hp.readCode,
      hp.readRefresh⟩
    · exact (hp.presented v hv).2 (mem_filter.1 hs).1
    · exact absurd rfl hs
  | newToken =>
    have hs := hp.stable hp ha h nofun
    obtain ⟨-, rfl⟩ := exec_newToken h
    refine ⟨hs.presented, fun v hv => ?_, fun hst v hv => ?_, hs.readCode, hs.readRefresh⟩
    · rcases mem_cons.1 hv with rfl | hv
      · exact mem_cons_self
      · exact hs.drawn v hv
    · rcases mem_cons.1 hv with rfl | hv
      · exact mem_cons_self
      · exact hs.secret hst v hv
  | getCode value =>
    cases h
    refine ⟨hp.presented, hp.drawn, hp.secret, ?_, hp.readRefresh⟩
    intro v c hc
    obtain ⟨c', hread, h⟩ := map_eq_some_iff.1 hc
    cases h
    refine ⟨ha.2.2, fun c' hc' => ?_⟩
    rw [getCode, hc'] at hread
    exact some.inj hread
  | getRefresh value =>
    cases h
    refine ⟨hp.presented, hp.drawn, hp.secret, hp.readCode, ?_⟩
    intro v o ho
    cases ho
    refine ⟨ha.2.2, fun t ht => ?_⟩
    rw [getRefresh, ht]
    rfl
  | grantEpoch =>
    refine (hp.stable hp ha h nofun).of_eq ?_ ?_ ?_ ?_ fun hs => advance_settled ha hs
    all_goals exact readEpoch_cases fun _ _ => rfl
  | _ =>
    exact (hp.stable hp ha h nofun).of_eq rfl rfl rfl rfl fun hs => advance_settled ha hs

/-- What a call has drawn grows by a value nobody has seen. -/
theorem exec_drawn (h : exec cfg op ω sh = some (r, sh'))
    (hv : v ∈ (p.advance op r).drawn) : v ∈ p.drawn ∨ v ∉ sh.seen := by
  cases op with
  | newToken =>
    obtain ⟨⟨-, hseen, -⟩, rfl⟩ := exec_newToken h
    rcases mem_cons.1 hv with rfl | hv
    · exact .inr hseen
    · exact .inl hv
  | grantEpoch =>
    revert hv
    exact readEpoch_cases fun _ _ => .inl
  | _ => exact .inl hv

/-! ## Runs -/

/-- The calls of one service in progress. -/
abbrev System (cfg : Config) := Pool (service cfg) (typestate cfg)

/-- No call is in progress. -/
def System.Idle (σ : System cfg) : Prop := ∀ i, σ.threads i = none

theorem TidyAt.start : TidyAt env sh (Phase.start c) where
  presented _ hv := absurd hv not_mem_nil
  drawn _ hv := absurd hv not_mem_nil
  secret _ _ hv := absurd hv not_mem_nil
  readCode h := absurd h (some_ne_none _).symm
  readRefresh h := absurd h (some_ne_none _).symm

theorem Tidy.start (hT : Tidy env sh ph) : Tidy env sh (update ph i (some (Phase.start c))) := by
  refine ⟨forall_kept .start hT.each, ?_⟩
  refine forall_update (fun j q _ _ v hv => absurd hv not_mem_nil) fun j q hj hq => ?_
  refine forall_kept (fun _ v _ => not_mem_nil) fun l q' hq' hlj => ?_
  exact hT.disjoint j q hq l q' hq' hlj

/-- **Step lemma**: an operation that is in order keeps the invariant. -/
theorem Tidy.step (hT : Tidy cfg.env sh ph)
    (hi : ph i = some p) (ha : Allowed cfg.env p op) (h : exec cfg op ω sh = some (r, sh')) :
    Tidy cfg.env sh' (update ph i (some (p.advance op r))) := by
  have hp := hT.each i p hi
  -- the answer of one call hands out none of another call's values
  have hresp : ∀ j q, j ≠ i → ph j = some q → ∀ values, op = .respond values →
      ∀ v ∈ values, v ∉ q.drawn := by
    rintro j q hj hq values rfl v hv
    exact hT.disjoint i p hi j q hq hj v (ha.2.2 hv)
  -- a value drawn now is none another call has drawn before
  have hfresh : ∀ j q, j ≠ i → ph j = some q → ∀ v ∈ (p.advance op r).drawn, v ∉ q.drawn := by
    intro j q hj hq v hv hvq
    rcases exec_drawn h hv with hv | hv
    · exact hT.disjoint i p hi j q hq hj v hv hvq
    · exact hv ((hT.each j q hq).drawn v hvq)
  refine ⟨forall_update (hp.self ha h) fun j q hj hq => ?_, ?_⟩
  · exact (hT.each j q hq).stable hp ha h (hresp j q hj hq)
  · refine forall_update ?_ fun j q hj hq => ?_
    · exact forall_update (fun hne => absurd rfl hne) fun j q hj hq _ => hfresh j q hj hq
    · refine forall_update (fun _ v hvq hv => hfresh j q hj hq v hv hvq) ?_
      exact fun l q' _ hq' hlj => hT.disjoint j q hq l q' hq' hlj

/-- **Sound**: what is left of each call keeps to the order of operations, and the values are
tidy. -/
structure System.Sound (σ : System cfg) : Prop where
  conforming : σ.Conforming Closed
  tidy : Tidy cfg.env σ.sh σ.phase

variable {σ : System cfg}

theorem System.Idle.phase (hσ : σ.Idle) (i : ℕ) : σ.phase i = none := by
  simp [Pool.phase, hσ i]

/-- A service without a call in progress is sound, whatever its stores hold. -/
theorem System.Idle.sound (hσ : σ.Idle) : σ.Sound where
  conforming i th hi := by
    rw [hσ i] at hi
    cases hi
  tidy :=
    ⟨fun i p hi => absurd (hσ.phase i) (by rw [hi]; nofun),
      fun i p hi => absurd (hσ.phase i) (by rw [hi]; nofun)⟩

/-- **Invariant rule** for runs of the service: an invariant of the shared state and the phases
holds along every run from a sound state, when a starting call keeps it and, in a tidy state, every
operation that is in order keeps it. -/
theorem System.invariant {ok : System cfg → Event (service cfg) → Prop}
    {I : Shared → (ℕ → Option Phase) → Prop} {τ : System cfg} (h : Pool.Reaches ok σ τ) (hσ : σ.Sound)
    (hstart : ∀ σ : System cfg, ∀ i c, ok σ (.start i c) → I σ.sh σ.phase → σ.phase i = none →
      I σ.sh (update σ.phase i (some (Phase.start c))))
    (hstep : ∀ (σ : System cfg) i ω p op (r : op.Res) sh, ok σ (.step i ω) →
      Tidy cfg.env σ.sh σ.phase → I σ.sh σ.phase → σ.phase i = some p → σ.nextOp i = some op →
      Allowed cfg.env p op → exec cfg op ω σ.sh = some (r, sh) →
      I sh (update σ.phase i (some (p.advance op r))))
    (hI : I σ.sh σ.phase) : τ.Sound ∧ I τ.sh τ.phase := by
  have hTI : Tidy cfg.env τ.sh τ.phase ∧ I τ.sh τ.phase := by
    refine Reaches.invariant (I := fun sh ph => Tidy cfg.env sh ph ∧ I sh ph)
      (body_follows cfg) ?_ ?_ h hσ.conforming ⟨hσ.tidy, hI⟩
    · exact fun σ i c hok hTI hi => ⟨hTI.1.start, hstart σ i c hok hTI.2 hi⟩
    · exact fun σ i ω p op r sh hok hTI hi hop ha hex =>
        ⟨hTI.1.step hi ha hex, hstep σ i ω p op r sh hok hTI.1 hTI.2 hi hop ha hex⟩
  exact ⟨⟨Reaches.conforming (body_follows cfg) h hσ.conforming, hTI.1⟩, hTI.2⟩

end Re0Auth.OAuth

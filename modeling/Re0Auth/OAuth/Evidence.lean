import Re0Auth.OAuth.Values

/-!
# Calls under observation

Runs of the service in which every call carries its phase and its evidence side by side.

* **`Evidence.Kept`**: nothing that was shown is taken back;
* **`exec_devices`**: what an operation does to the device requests;
* **`Observed.Sound`**: the invariant of these runs, from which those of the following modules start.
-/

namespace Re0Auth.OAuth

open Lib Function Pool Dict List

variable {cfg : Config} {env : Env} {v : String} {x y : Evidence} {op : Op} {r : op.Res} {p : Phase} {ω : String}
  {sh sh' : Shared} {ph : ℕ → Option (Phase × Evidence)} {i : ℕ} {q : Phase × Evidence}

/-! ## What stays shown -/

/-- Nothing that was shown is taken back. -/
structure Evidence.Kept (x y : Evidence) : Prop where
  call : y.call = x.call
  client : ∀ c, x.client = some c → y.client = some c
  claimedCode : ∀ c, x.claimedCode = some c → y.claimedCode = some c
  claimedDevice : ∀ d, x.claimedDevice = some d → y.claimedDevice = some d
  decided : ∀ d, x.decided = some d → y.decided = some d
  drawn : x.drawn <+: y.drawn
  saved : x.saved = true → y.saved = true

theorem Evidence.Kept.refl (x : Evidence) : x.Kept x :=
  ⟨rfl, fun _ => id, fun _ => id, fun _ => id, fun _ => id, prefix_rfl, id⟩

theorem Evidence.Kept.trans {z : Evidence} (h : x.Kept y) (h' : y.Kept z) : x.Kept z :=
  ⟨h'.call.trans h.call, fun c hc => h'.client c (h.client c hc),
    fun c hc => h'.claimedCode c (h.claimedCode c hc),
    fun d hd => h'.claimedDevice d (h.claimedDevice d hd), fun d hd => h'.decided d (h.decided d hd),
    h.drawn.trans h'.drawn, fun hs => h'.saved (h.saved hs)⟩

theorem Evidence.kept_advance (he : Entitled cfg x op) : x.Kept (x.advance op r) := by
  have hnone : ∀ {X : Type} {o : Option X} {a : X}, o = none → o ≠ some a := by
    rintro X o a rfl
    nofun
  cases op with
  | getClient id => exact { Kept.refl x with client := fun _ h => absurd h (hnone he.1) }
  | consumeCode v => exact { Kept.refl x with claimedCode := fun _ h => absurd h (hnone he.1) }
  | consumeDevice h => exact { Kept.refl x with claimedDevice := fun _ h => absurd h (hnone he.1) }
  | recordDecision h d =>
    dsimp only [Evidence.advance]
    split
    · exact { Kept.refl x with decided := fun _ h => absurd h (hnone he.1) }
    · exact .refl x
  | newToken => exact { Kept.refl x with drawn := prefix_append .. }
  | saveDevice v d =>
    refine { Kept.refl x with saved := fun h => ?_ }
    simp [Evidence.advance, h]
  | now | tokenOwner | spentRefreshOwner | getCode | getDevice | getDeviceByUserCode
  | consumeRefresh => exact { Kept.refl x with }
  | _ => exact .refl x

theorem Evidence.Kept.getElem (h : x.Kept y) {n : ℕ} (hv : x.drawn[n]? = some v) : y.drawn[n]? = some v := by
  obtain ⟨rest, hrest⟩ := h.drawn
  rw [← hrest]
  obtain ⟨hlt, hget⟩ := List.getElem?_eq_some_iff.1 hv
  rw [getElem?_append_left hlt, hv]

/-! ## Device requests -/

/-- The request with a decision recorded. -/
def DeviceAuthorizationRecord.decide (d : DeviceAuthorizationRecord) (dec : DeviceDecision) :
    DeviceAuthorizationRecord :=
  { d with status := dec.status, subject := dec.subject, scopes := dec.scopes, explicit := dec.explicit }

/-- A device request is stored by `SaveDevice`; a poll stamps it, and a decision changes a pending
one. -/
theorem exec_devices (h : exec cfg op ω sh = some (r, sh')) {k : String}
    {d : DeviceAuthorizationRecord} (hd : sh'.devices.byDev.get k = some d) :
    sh.devices.byDev.get k = some d ∨ (∃ v d₀, op = .saveDevice v d₀ ∧ k = cfg.env.tokenHash v ∧
        d = { d₀ with deviceCodeHash := k }) ∨
      (∃ at_ d₀, op = .recordPoll k at_ ∧ sh.devices.byDev.get k = some d₀ ∧
        d = { d₀ with lastPoll := at_ }) ∨
      ∃ dec d₀, op = .recordDecision k dec ∧
        (∀ x : Evidence, (x.advance op r).decided = some (k, dec)) ∧
        sh.devices.byDev.get k = some d₀ ∧ d₀.status = .pending ∧ d = d₀.decide dec := by
  cases op with
  | saveDevice v d₀ =>
    cases h
    rw [MemoryDeviceStore.saveDevice] at hd
    split at hd
    · exact .inl hd
    · split at hd
      · exact .inl hd
      · rcases get_of_get_set hd with hd | ⟨rfl, rfl⟩
        · exact .inl hd
        · exact .inr (.inl ⟨v, d₀, rfl, rfl, rfl⟩)
  | recordPoll hash at_ =>
    cases h
    rw [MemoryDeviceStore.recordPoll] at hd
    split at hd
    · exact .inl hd
    · rename_i d₀ hget
      rcases get_of_get_set hd with hd | ⟨rfl, rfl⟩
      · exact .inl hd
      · exact .inr (.inr (.inl ⟨at_, d₀, rfl, hget, rfl⟩))
  | recordDecision hash dec =>
    cases h
    cases hget : sh.devices.byDev.get hash with
    | none =>
      rw [MemoryDeviceStore.recordDecision, hget] at hd
      exact .inl hd
    | some d₀ =>
      by_cases hpending : d₀.status = .pending
      · have hrec : sh.devices.recordDecision hash dec =
            (true, { sh.devices with byDev := sh.devices.byDev.set hash (d₀.decide dec) }) := by
          rw [MemoryDeviceStore.recordDecision, hget]
          exact if_pos hpending
        rw [hrec] at hd
        rcases get_of_get_set hd with hd | ⟨rfl, rfl⟩
        · exact .inl hd
        · refine .inr (.inr (.inr ⟨dec, d₀, rfl, fun x => ?_, hget, hpending, rfl⟩))
          dsimp only [Evidence.advance]
          rw [hrec, if_pos rfl]
      · rw [MemoryDeviceStore.recordDecision, hget] at hd
        dsimp only at hd
        rw [if_neg hpending] at hd
        exact .inl hd
  | consumeDevice hash =>
    cases h
    rw [MemoryDeviceStore.consumeDevice] at hd
    split at hd
    · exact .inl hd
    · split at hd
      · exact .inl (get_of_get_del hd).1
      · exact .inl hd
  | sweepDevices now =>
    cases h
    exact .inl (get_of_get_filter hd)
  | _ =>
    dsimp only [exec] at h
    try split at h
    all_goals cases h
    all_goals exact .inl hd

/-! ## Calls under observation -/

/-- What the order of operations and the evidence have in common. -/
structure Agrees (p : Phase) (x : Evidence) : Prop where
  call : x.call = p.call
  drawn : x.drawn = p.drawn.reverse
  code : x.code = p.readCode
  device : x.device = p.readDevice

theorem Agrees.advance (h : Agrees p x) : Agrees (p.advance op r) (x.advance op r) := by
  cases op with
  | newToken => exact { h with drawn := by simp [Phase.advance, Evidence.advance, h.drawn] }
  | getCode v => exact { h with code := rfl }
  | getDevice v => exact { h with device := rfl }
  | grantEpoch => exact readEpoch_cases fun _ _ => { h with }
  | recordDecision hash d =>
    dsimp only [Evidence.advance]
    split <;> exact { h with }
  | _ => exact { h with }

/-- The calls of one service in progress, with what they have been shown. -/
abbrev Observed (cfg : Config) := Pool (service cfg) ((typestate cfg).prod (evidence cfg))

/-- The phases of the calls, without the evidence. -/
def phases (ph : ℕ → Option (Phase × Evidence)) : ℕ → Option Phase := fun i => (ph i).map (·.1)

theorem phases_some (h : ph i = some (p, x)) : phases ph i = some p := by rw [phases, h]; rfl

theorem phases_update : phases (update ph i (some q)) = update (phases ph) i (some q.1) := by
  funext j
  rw [phases, update_apply, update_apply]
  split_ifs <;> rfl

/-- The values are tidy, and the evidence is that of the calls. -/
structure Observes (env : Env) (sh : Shared) (ph : ℕ → Option (Phase × Evidence)) : Prop where
  tidy : Tidy env sh (phases ph)
  agrees : ∀ i q, ph i = some q → Agrees q.1 q.2

/-- **Sound**, under observation. -/
structure Observed.Sound (σ : Observed cfg) : Prop where
  conforming : σ.Conforming (Concluded cfg)
  observes : Observes cfg.env σ.sh σ.phase

/-- No call is in progress, nothing has been issued and no turnstile is held; the registry of clients is as
it is. -/
structure Observed.Started (σ : Observed cfg) : Prop where
  idle : ∀ i, σ.threads i = none
  tokens : σ.sh.tokens = .empty
  devices : σ.sh.devices = .empty
  locked : σ.sh.locked = []

variable {σ τ : Observed cfg} {ok : Observed cfg → Event (service cfg) → Prop}

/-- A service without a call in progress. -/
theorem Observed.sound_of_idle (h : ∀ i, σ.threads i = none) : σ.Sound := by
  have hphase : ∀ i, σ.phase i = none := fun i => by rw [phase, h i]; rfl
  refine ⟨fun i th hi => ?_, ⟨?_, ?_⟩, fun i q hi => ?_⟩
  · rw [h i] at hi
    cases hi
  all_goals
    first
    | intro i p hi
      rw [phases, hphase i] at hi
      cases hi
    | rw [hphase i] at hi
      cases hi

theorem Observes.start (h : Observes env sh ph) (c : Call) :
    Observes env sh (update ph i (some (Phase.start c, Evidence.start c))) := by
  refine ⟨?_, forall_kept ⟨rfl, rfl, rfl, rfl⟩ h.agrees⟩
  rw [phases_update]
  exact h.tidy.start

theorem Observes.step (h : Observes cfg.env sh ph)
    (hi : ph i = some (p, x)) (ha : Allowed cfg.env p op) (hex : exec cfg op ω sh = some (r, sh')) :
    Observes cfg.env sh' (update ph i (some (p.advance op r, x.advance op r))) := by
  refine ⟨?_, forall_kept ((h.agrees i _ hi).advance) h.agrees⟩
  rw [phases_update]
  exact h.tidy.step (phases_some hi) ha hex

/-- What a call has drawn, it has drawn alone. -/
theorem Observes.eq_of_drawn (hO : Observes cfg.env sh ph) {j l : ℕ} {z : Phase × Evidence}
    (hj : ph j = some q) (hl : ph l = some z) (hv : v ∈ q.2.drawn) (hv' : v ∈ z.2.drawn) : q = z := by
  have hjl : l = j := by
    by_contra hne
    rw [(hO.agrees j q hj).drawn, mem_reverse] at hv
    rw [(hO.agrees l z hl).drawn, mem_reverse] at hv'
    exact hO.tidy.disjoint j q.1 (phases_some hj) l z.1 (phases_some hl) hne v hv hv'
  subst hjl
  exact Option.some.inj (hj.symm.trans hl)

/-- **Invariant rule** for runs under observation. -/
theorem Observed.invariant {I : Shared → (ℕ → Option (Phase × Evidence)) → Prop}
    (h : Pool.Reaches ok σ τ) (hσ : σ.Sound)
    (hstart : ∀ σ : Observed cfg, ∀ i c, ok σ (.start i c) → I σ.sh σ.phase → σ.phase i = none →
      I σ.sh (update σ.phase i (some (Phase.start c, Evidence.start c))))
    (hstep : ∀ (σ : Observed cfg) i ω p x op (r : op.Res) sh, ok σ (.step i ω) →
      Observes cfg.env σ.sh σ.phase → I σ.sh σ.phase → σ.phase i = some (p, x) →
      σ.nextOp i = some op → Allowed cfg.env p op → Entitled cfg x op →
      exec cfg op ω σ.sh = some (r, sh) →
      I sh (update σ.phase i (some (p.advance op r, x.advance op r))))
    (hI : I σ.sh σ.phase) : τ.Sound ∧ I τ.sh τ.phase := by
  have key : Observes cfg.env τ.sh τ.phase ∧ I τ.sh τ.phase := by
    refine Pool.Reaches.invariant
      (I := fun (sh : Shared) (ph : ℕ → Option (Phase × Evidence)) => Observes cfg.env sh ph ∧ I sh ph)
      (observed_follows cfg) ?_ ?_ h hσ.conforming ⟨hσ.observes, hI⟩
    · exact fun σ i c hok hOI hi => ⟨hOI.1.start c, hstart σ i c hok hOI.2 hi⟩
    · rintro σ i ω ⟨p, x⟩ op r sh hok hOI hi hop ⟨ha, he⟩ hex
      exact ⟨hOI.1.step hi ha hex, hstep σ i ω p x op r sh hok hOI.1 hOI.2 hi hop ha he hex⟩
  exact ⟨⟨Pool.Reaches.conforming (observed_follows cfg) h hσ.conforming, key.1⟩, key.2⟩

/-- What a call has been shown stays shown. -/
theorem Observed.kept (h : Pool.Reaches ok σ τ) (hσ : σ.Sound) (hi : σ.phase i = some (p, x)) :
    ∃ q y, τ.phase i = some (q, y) ∧ x.Kept y := by
  refine (Observed.invariant (I := fun _ (ph : ℕ → Option (Phase × Evidence)) =>
    ∃ q y, ph i = some (q, y) ∧ x.Kept y) h hσ ?_ ?_ ⟨p, x, hi, .refl x⟩).2
  · rintro σ j c - ⟨q, y, hq, hk⟩ hj
    exact ⟨q, y, update_of_none hj hq, hk⟩
  · rintro σ j ω p' x' op r sh - - ⟨q, y, hq, hk⟩ hj - - he -
    by_cases hij : i = j
    · subst hij
      cases hj.symm.trans hq
      exact ⟨_, _, update_self .., hk.trans (Evidence.kept_advance he)⟩
    · exact ⟨q, y, by rw [update_of_ne hij, hq], hk⟩

end Re0Auth.OAuth

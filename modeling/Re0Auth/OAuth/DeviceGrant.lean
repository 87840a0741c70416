import Re0Auth.OAuth.Scopes

/-!
# The device grant

A device polls with its device code while a subject decides on the request through its user code. Polls
and decisions read the record, judge it and write it in steps of their own; what holds them together is
which writes of the store are conditional: `RecordDecision` takes the first decision only, `RecordPoll`
stamps the poll and nothing else, and `ConsumeDevice` hands an approved request to one caller.

* **`Placed`**: one call has stored the request of a device code, and it does not store it again;
* **`Ledger`**: what the calls have read and claimed, beside what is stored;
* **`device_grant`**: decisions are final, an approval is redeemed once, and by whom;
* **`device_redeemed_expired`**: the deadline may pass between the check of a poll and its claim.
-/

namespace Re0Auth.OAuth

open Lib Function Pool List Evidence MemoryDeviceStore

variable {cfg : Config} {op : Op} {ω : String} {sh sh' : Shared} {r : op.Res} {p : Phase}
  {x : Evidence} {ph ph' : ℕ → Option (Phase × Evidence)} {i : ℕ} {k : String}
  {d : DeviceAuthorizationRecord} {q : Phase} {y : Evidence} {dec : DeviceDecision}
  {deadline : Time} {l : ℕ} {σ₀ σ τ : Observed cfg} {req : DeviceCodeExchangeRequest}

/-! ## The record of a request -/

/-- The decision a request carries. -/
def DeviceAuthorizationRecord.decision (d : DeviceAuthorizationRecord) : DeviceDecision :=
  ⟨d.status, d.subject, d.scopes, d.explicit⟩

/-- The same request, later: its deadline stays, and so does its decision once there is one. -/
structure DeviceAuthorizationRecord.Continues (d d' : DeviceAuthorizationRecord) : Prop where
  deadline : d'.expiresAt = d.expiresAt
  decision : d.status ≠ .pending → d'.decision = d.decision

/-- A request was stored under the key, by the call that drew its device code. -/
def Placed (cfg : Config) (ph : ℕ → Option (Phase × Evidence)) (k : String) : Prop :=
  ∃ j q v, ph j = some q ∧ v ∈ q.2.drawn ∧ k = cfg.env.tokenHash v ∧ q.2.saved = true

theorem Placed.mono (h : Placed cfg ph k) (hg : Grows ph ph') : Placed cfg ph' k := by
  obtain ⟨j, q, v, hj, hv, hk, hsaved⟩ := h
  obtain ⟨q', hj', hkept⟩ := hg j q hj
  exact ⟨j, q', v, hj', hkept.drawn.subset hv, hk, hkept.saved hsaved⟩

/-- A request that is stored anew was saved. -/
theorem saved_of_saveDevice {v : String} {d₀ : DeviceAuthorizationRecord}
    {r : (Op.saveDevice v d₀).Res} (hex : exec cfg (.saveDevice v d₀) ω sh = some (r, sh'))
    (hnone : sh.devices.byDev.get (cfg.env.tokenHash v) = none)
    (hd : sh'.devices.byDev.get (cfg.env.tokenHash v) = some d) :
    (x.advance (.saveDevice v d₀) r).saved = true := by
  cases hex
  cases hres : sh.devices.saveDevice cfg.env v d₀ with
  | error e =>
    rw [hres] at hd
    rw [show (settle sh.devices (.error e : Except Error MemoryDeviceStore)).2 = sh.devices from rfl,
      hnone] at hd
    cases hd
  | ok s =>
    show (x.saved || _) = true
    rw [Bool.or_eq_true]
    exact .inr rfl

variable (hO : Observes cfg.env sh ph) (hi : ph i = some (p, x)) (ha : Allowed cfg.env p op)
  (he : Entitled cfg x op) (hex : exec cfg op ω sh = some (r, sh'))

include hi he hex in
/-- A request that is stored was stored before, or the call that drew its code has saved it. -/
theorem placed_of_stored (hstored : ∀ d, sh.devices.byDev.get k = some d → Placed cfg ph k)
    (hd : sh'.devices.byDev.get k = some d) :
    Placed cfg (update ph i (some (p.advance op r, x.advance op r))) k := by
  cases hget : sh.devices.byDev.get k with
  | some d₀ => exact (hstored d₀ hget).mono (Grows.step hi he)
  | none =>
    obtain hold | ⟨v, d₀, rfl, rfl, -⟩ | ⟨at_, d₀, -, hold, -⟩ | ⟨dec, d₀, -, -, hold, -⟩ :=
      exec_devices hex hd
    · rw [hget] at hold
      cases hold
    · have hsaved := saved_of_saveDevice (x := x) hex hget hd
      obtain ⟨req, c, -, hdrawn, -⟩ := he
      refine ⟨i, _, v, update_self .., ?_, rfl, hsaved⟩
      rw [show (x.advance (.saveDevice v d₀) r).drawn = x.drawn from rfl, hdrawn]
      exact mem_singleton_self _
    all_goals
      rw [hget] at hold
      cases hold

include hO hi he hex in
/-- **Step lemma**: a request that was stored is not stored again, so the record under its key is the
one of before. -/
theorem Placed.continues (h : Placed cfg ph k) (hd : sh'.devices.byDev.get k = some d) :
    ∃ d₀, sh.devices.byDev.get k = some d₀ ∧ d₀.Continues d := by
  obtain hold | ⟨v, d₀, rfl, rfl, -⟩ | ⟨at_, d₀, rfl, hold, rfl⟩ |
    ⟨dec, d₀, rfl, -, hold, hpending, rfl⟩ := exec_devices hex hd
  · exact ⟨d, hold, rfl, fun _ => rfl⟩
  · obtain ⟨j, q, v', hj, hv', hk, hsaved⟩ := h
    obtain rfl := cfg.env.tokenHash_injective hk
    obtain ⟨req, c, -, hdrawn, -, -, -, -, -, hunsaved⟩ := he
    have hv : v ∈ x.drawn := by rw [hdrawn]; exact mem_singleton_self _
    obtain rfl := hO.eq_of_drawn hj hi hv' hv
    rw [hunsaved] at hsaved
    cases hsaved
  · exact ⟨d₀, hold, rfl, fun _ => rfl⟩
  · exact ⟨d₀, hold, rfl, fun hdecided => absurd hpending hdecided⟩

/-! ## What the calls have read and claimed -/

include ha in
/-- What a call presents is what it was given. -/
theorem presented_subset (h : p.presented ⊆ p.call.presents) :
    (p.advance op r).presented ⊆ (p.advance op r).call.presents := by
  cases op with
  | receive values => exact ha.1 ▸ Subset.refl _
  | grantEpoch => exact readEpoch_cases fun _ _ => h
  | _ => exact h

/-- **The ledger** of a call: a request it has read by a device code is the one of the code it was
given, and one it has claimed is gone. -/
structure LedgerAt (cfg : Config) (sh : Shared) (ph : ℕ → Option (Phase × Evidence)) (p : Phase)
    (x : Evidence) : Prop where
  given : p.presented ⊆ p.call.presents
  code : ∀ d, x.device = some d → ∃ v ∈ p.presented, d.deviceCodeHash = cfg.env.tokenHash v
  read : ∀ d, x.device = some d → Placed cfg ph d.deviceCodeHash ∧
    ∀ d', sh.devices.byDev.get d.deviceCodeHash = some d' → d'.expiresAt = d.expiresAt
  claimed : ∀ k d, x.claimedDevice = some (k, d) →
    Placed cfg ph k ∧ sh.devices.byDev.get k = none

/-- **The ledger** of the requests: one call has claimed a request. -/
structure Ledger (cfg : Config) (sh : Shared) (ph : ℕ → Option (Phase × Evidence)) : Prop where
  stored : ∀ k d, sh.devices.byDev.get k = some d → Placed cfg ph k
  calls : ∀ i q, ph i = some q → LedgerAt cfg sh ph q.1 q.2
  once : ∀ i q, ph i = some q → ∀ j q', ph j = some q' → ∀ k d d', q.2.claimedDevice = some (k, d) →
    q'.2.claimedDevice = some (k, d') → i = j

/-- A request that was claimed has left the store. -/
theorem gone_of_claimed {r : (Op.consumeDevice k).Res}
    (hex : exec cfg (.consumeDevice k) ω sh = some (r, sh'))
    (hget : sh.devices.byDev.get k = some d) (happroved : d.status = .approved) :
    sh'.devices.byDev.get k = none := by
  cases hex
  rw [consumeDevice, hget]
  dsimp only
  rw [if_pos happroved]
  exact Dict.get_del_self ..

theorem LedgerAt.start (c : Call) : LedgerAt cfg sh ph (Phase.start c) (start c) :=
  ⟨nil_subset _, nofun, nofun, nofun⟩

include hO hi he hex in
/-- The ledger of a call that waits. -/
theorem LedgerAt.other (h : LedgerAt cfg sh ph q y) :
    LedgerAt cfg sh' (update ph i (some (p.advance op r, x.advance op r))) q y := by
  refine ⟨h.given, h.code, fun d hd => ?_, fun k d hd => ?_⟩
  · obtain ⟨hplaced, hdeadline⟩ := h.read d hd
    refine ⟨hplaced.mono (Grows.step hi he), fun d' hd' => ?_⟩
    obtain ⟨d₀, hget, hcont⟩ := hplaced.continues hO hi he hex hd'
    rw [hcont.deadline, hdeadline d₀ hget]
  · obtain ⟨hplaced, hnone⟩ := h.claimed k d hd
    refine ⟨hplaced.mono (Grows.step hi he), Option.eq_none_iff_forall_ne_some.2 fun d' hd' => ?_⟩
    obtain ⟨d₀, hget, -⟩ := hplaced.continues hO hi he hex hd'
    rw [hnone] at hget
    cases hget

include hO hi ha he hex in
/-- The ledger of a call after its operation. -/
theorem LedgerAt.step (h : LedgerAt cfg sh ph p x) (hP : Provenance cfg sh ph)
    (hstored : ∀ k d, sh.devices.byDev.get k = some d → Placed cfg ph k) :
    LedgerAt cfg sh' (update ph i (some (p.advance op r, x.advance op r)))
      (p.advance op r) (x.advance op r) := by
  have hwait := h.other hO hi he hex
  refine ⟨presented_subset ha h.given, fun d hd => ?_, fun d hd => ?_, fun k d hd => ?_⟩
  · obtain hold | ⟨v, rfl, hget⟩ := readDevice_advance hex hd
    · obtain ⟨v, hv, hcode⟩ := h.code d hold
      exact ⟨v, presented_advance ha hv, hcode⟩
    · exact ⟨v, presented_advance ha ha.2.2, (hP.devices _ d hget).1⟩
  · obtain hold | ⟨v, rfl, hget⟩ := readDevice_advance hex hd
    · exact hwait.read d hold
    · -- the record that is read stays as it is
      cases hex
      rw [(hP.devices _ d hget).1]
      refine ⟨(hstored _ d hget).mono (Grows.step hi he), fun d' hd' => ?_⟩
      cases hget.symm.trans hd'
      rfl
  · obtain hold | ⟨rfl, hget, happroved⟩ := claimedDevice_advance hex hd
    · exact hwait.claimed k d hold
    · exact ⟨(hstored k d hget).mono (Grows.step hi he), gone_of_claimed hex hget happroved⟩

include hO hi ha he hex in
/-- **Step lemma.** -/
theorem Ledger.step (h : Ledger cfg sh ph) (hP : Provenance cfg sh ph) :
    Ledger cfg sh' (update ph i (some (p.advance op r, x.advance op r))) := by
  -- another call has not claimed what this call claims
  have hother : ∀ j q, ph j = some q → ∀ k d d', (x.advance op r).claimedDevice = some (k, d) →
      q.2.claimedDevice = some (k, d') → i = j := by
    intro j q hj k d d' hd hd'
    obtain hold | ⟨-, hget, -⟩ := claimedDevice_advance hex hd
    · exact h.once i _ hi j q hj k d d' hold hd'
    · rw [((h.calls j q hj).claimed k d' hd').2] at hget
      cases hget
  refine ⟨fun k d hd => placed_of_stored hi he hex (h.stored k) hd,
    forall_kept ((h.calls i _ hi).step hO hi ha he hex hP h.stored)
      fun j q hj => (h.calls j q hj).other hO hi he hex,
    forall_kept (forall_kept (fun _ _ _ _ _ => rfl) hother)
      fun j q hj => forall_kept (fun k d d' hd hd' => (hother j q hj k d' d hd' hd).symm) (h.once j q hj)⟩

theorem LedgerAt.mono (h : LedgerAt cfg sh ph q y) (hg : Grows ph ph') : LedgerAt cfg sh ph' q y :=
  ⟨h.given, h.code, fun d hd => ⟨(h.read d hd).1.mono hg, (h.read d hd).2⟩,
    fun k d hd => ⟨(h.claimed k d hd).1.mono hg, (h.claimed k d hd).2⟩⟩

theorem Ledger.start (h : Ledger cfg sh ph) (hi : ph i = none) (c : Call) :
    Ledger cfg sh (update ph i (some (Phase.start c, start c))) := by
  have hg := Grows.start hi (Phase.start c, Evidence.start c)
  exact ⟨fun k d hd => (h.stored k d hd).mono hg,
    forall_kept (.start c) fun j q hj => (h.calls j q hj).mono hg,
    forall_kept (fun _ _ _ _ _ _ hd => (by cases hd)) fun j q hj =>
      forall_kept (fun _ _ _ _ hd => (by cases hd)) (h.once j q hj)⟩

/-! ## Decisions and deadlines -/

/-- The request under the key was decided: what is stored of it and what was claimed of it carries that
decision. -/
structure Decided (cfg : Config) (k : String) (dec : DeviceDecision) (sh : Shared)
    (ph : ℕ → Option (Phase × Evidence)) : Prop where
  placed : Placed cfg ph k
  stored : ∀ d, sh.devices.byDev.get k = some d → d.decision = dec
  claimed : ∀ j q, ph j = some q → ∀ d, q.2.claimedDevice = some (k, d) → d.decision = dec

include hO hi he hex in
theorem Decided.step (h : Decided cfg k dec sh ph) (hdec : dec.status ≠ .pending) :
    Decided cfg k dec sh' (update ph i (some (p.advance op r, x.advance op r))) := by
  refine ⟨h.placed.mono (Grows.step hi he), fun d hd => ?_, forall_kept (fun d hd => ?_) h.claimed⟩
  · obtain ⟨d₀, hget, hcont⟩ := h.placed.continues hO hi he hex hd
    have hd₀ := h.stored d₀ hget
    rw [← hd₀] at hdec
    exact (hcont.decision hdec).trans hd₀
  · obtain hold | ⟨-, hget, -⟩ := claimedDevice_advance hex hd
    · exact h.claimed i _ hi d hold
    · exact h.stored d hget

include hex in
/-- A reading of the clock is the time of the step. -/
theorem clocks_advance {n : Time} (h : n ∈ (x.advance op r).clocks) : n ∈ x.clocks ∨ n = sh.now := by
  cases op with
  | now =>
    cases hex
    exact (mem_cons.1 h).symm
  | consumeCode | consumeRefresh | consumeDevice => exact absurd h not_mem_nil
  | recordDecision hash dec =>
    dsimp only [advance] at h
    split at h <;> exact .inl h
  | _ => exact .inl h

/-- The deadline of the request under the key has passed, and call `l` has seen no earlier time. -/
structure Overdue (cfg : Config) (k : String) (deadline : Time) (l : ℕ) (sh : Shared)
    (ph : ℕ → Option (Phase × Evidence)) : Prop where
  due : deadline ≤ sh.now
  placed : Placed cfg ph k
  stored : ∀ d, sh.devices.byDev.get k = some d → d.expiresAt = deadline
  clocks : ∀ j q, ph j = some q → j = l → ∀ n ∈ q.2.clocks, deadline ≤ n
  unclaimed : ∀ j q, ph j = some q → j = l → ∀ d, q.2.claimedDevice ≠ some (k, d)

include hO hi he hex in
theorem Overdue.step (h : Overdue cfg k deadline l sh ph) (hL : Ledger cfg sh ph) :
    Overdue cfg k deadline l sh' (update ph i (some (p.advance op r, x.advance op r))) := by
  refine ⟨Int.le_trans h.due (exec_now hex), h.placed.mono (Grows.step hi he), fun d hd => ?_,
    forall_kept (fun hl n hn => ?_) h.clocks,
    forall_kept (fun hl d hd => ?_) h.unclaimed⟩
  · obtain ⟨d₀, hget, hcont⟩ := h.placed.continues hO hi he hex hd
    rw [hcont.deadline, h.stored d₀ hget]
  · obtain hold | rfl := clocks_advance hex hn
    · exact h.clocks i _ hi hl n hold
    · exact h.due
  · obtain hold | ⟨rfl, hget, -⟩ := claimedDevice_advance hex hd
    · exact h.unclaimed i _ hi hl d hold
    · -- the record that was read has the same deadline, and the clock was read before it
      obtain ⟨-, req, c, d', n, -, -, hread, rfl, -, -, hn, hlt⟩ := he
      have hsame := ((hL.calls i _ hi).read d' hread).2 d hget
      rw [← hsame, h.stored d hget] at hlt
      exact absurd (h.clocks i _ hi hl n hn) (Int.not_le.2 hlt)

theorem Overdue.start (h : Overdue cfg k deadline l sh ph) (hi : ph i = none) (c : Call) :
    Overdue cfg k deadline l sh (update ph i (some (Phase.start c, start c))) :=
  ⟨h.due, h.placed.mono (Grows.start hi _), h.stored,
    forall_kept (fun _ _ hn => absurd hn not_mem_nil) h.clocks,
    forall_kept nofun h.unclaimed⟩

theorem Decided.start (h : Decided cfg k dec sh ph) (hi : ph i = none) (c : Call) :
    Decided cfg k dec sh (update ph i (some (Phase.start c, start c))) :=
  ⟨h.placed.mono (Grows.start hi _), h.stored, forall_kept nofun h.claimed⟩

/-! ## Runs -/

/-- What holds of the device requests in every state a service reaches. -/
structure Observed.Devices (σ : Observed cfg) : Prop where
  sound : σ.Sound
  provenance : Provenance cfg σ.sh σ.phase
  ledger : Ledger cfg σ.sh σ.phase

theorem Observed.Started.deviceLedger (h : σ₀.Started) : Ledger cfg σ₀.sh σ₀.phase := by
  have hnone : ∀ i q, σ₀.phase i ≠ some q := fun i q hq => by
    rw [phase, h.idle i] at hq
    cases hq
  refine ⟨?_, fun i q hq => absurd hq (hnone i q), fun i q hq => absurd hq (hnone i q)⟩
  rw [h.devices]
  rintro _ _ ⟨⟩

variable (hσ : σ.Devices) (h : Pool.Reaches (fun _ _ => True) σ τ)

include h in
/-- **Run lemma**: the ledger is kept, and beside it whatever one step keeps. -/
theorem Observed.Devices.invariant {I : Shared → (ℕ → Option (Phase × Evidence)) → Prop} (hσ : σ.Devices)
    (hstart : ∀ {sh ph i} (c : Call), I sh ph → ph i = none → I sh (update ph i (some (Phase.start c, start c))))
    (hstep : ∀ {sh sh' ph i p x ω op} {r : op.Res}, I sh ph → Ledger cfg sh ph → Observes cfg.env sh ph →
      ph i = some (p, x) → Entitled cfg x op → exec cfg op ω sh = some (r, sh') → I sh' (update ph i (some (p.advance op r, x.advance op r))))
    (hI : I σ.sh σ.phase) : τ.Devices ∧ I τ.sh τ.phase := by
  obtain ⟨hsound, hprov, hledger, hI⟩ := Observed.invariant
    (I := fun (sh : Shared) (ph : ℕ → Option (Phase × Evidence)) =>
      Provenance cfg sh ph ∧ Ledger cfg sh ph ∧ I sh ph) h hσ.sound
    (fun _ _ c _ hI hi => ⟨hI.1.start hi c, hI.2.1.start hi c, hstart c hI.2.2 hi⟩)
    (fun _ _ _ _ _ _ _ _ _ hO hI hi _ ha he hex => ⟨hI.1.step hO hi he hex,
      hI.2.1.step hO hi ha he hex hI.1, hstep hI.2.2 hI.2.1 hO hi he hex⟩)
    ⟨hσ.provenance, hσ.ledger, hI⟩
  exact ⟨⟨hsound, hprov, hledger⟩, hI⟩

include h in
theorem Observed.Devices.runs (hσ : σ.Devices) : τ.Devices :=
  (Observed.Devices.invariant (I := fun _ _ => True) h hσ (fun _ _ _ => trivial)
    (fun _ _ _ _ _ _ => trivial) trivial).1

theorem Observed.Started.deviceRuns (h₀ : σ₀.Started) (h : Pool.Reaches (fun _ _ => True) σ₀ σ) : σ.Devices :=
  Observed.Devices.runs h ⟨Observed.sound_of_idle h₀.idle, h₀.provenance, h₀.deviceLedger⟩

/-- Call `i` is a poll with this request, and this is what it has been shown. -/
def Polling (σ : Observed cfg) (i : ℕ) (req : DeviceCodeExchangeRequest) (x : Evidence) : Prop :=
  ∃ p, σ.phase i = some (p, x) ∧ x.call = .pollDevice req

/-- What a poll hands out is a grant of its request: it goes to the client that began the request, and
the subject has approved these scopes of those that were requested. -/
def Granted (cfg : Config) (ph : ℕ → Option (Phase × Evidence)) (req : DeviceCodeExchangeRequest)
    (x : Evidence) (clientID subject : String) (scopes : List Scope) : Prop :=
  ∃ c, x.Authenticated cfg.env req.clientID req.clientSecret c ∧ clientID = c.id ∧
    ∃ j q begun c' l z explicit, ph j = some q ∧
      q.2.Begins cfg (cfg.env.tokenHash req.deviceCode) begun c' ∧ clientID = c'.id ∧ ph l = some z ∧
      z.2.Approves cfg (cfg.env.tokenHash req.deviceCode) begun.scopes subject scopes explicit ∧
      scopes ⊆ begun.scopes

/-- The request a poll has claimed is the one of its device code. -/
theorem Observed.Devices.claims (hσ : σ.Devices)
    (hi : σ.phase i = some (p, x)) (hcall : x.call = .pollDevice req) {clientID subject family : String}
    {scopes : List Scope} (h : x.Claims cfg clientID subject scopes family) :
    ∃ d, x.claimedDevice = some (cfg.env.tokenHash req.deviceCode, d) ∧ d.status = .approved ∧
      d.clientID = clientID ∧ d.subject = subject ∧ d.scopes = scopes ∧
      Granted cfg σ.phase req x clientID subject scopes := by
  cases h with
  | code hcall' =>
    rw [hcall] at hcall'
    cases hcall'
  | refresh hcall' =>
    rw [hcall] at hcall'
    cases hcall'
  | device hcall' hclient hread howner hclaimed =>
    cases hcall.symm.trans hcall'
    rename_i c d d'
    have hledger := hσ.ledger.calls i _ hi
    obtain ⟨v, hv, hcode⟩ := hledger.code d' hread
    have hgiven := hledger.given hv
    rw [← (hσ.sound.observes.agrees i _ hi).call, hcall] at hgiven
    obtain rfl := mem_singleton.1 hgiven
    rw [hcode] at hclaimed
    obtain ⟨hhash, happroved, j, q, begun, c', hj, hbegins, hid, -, hdecided⟩ :=
      (hσ.provenance.calls i _ hi).claimedDevice _ d hclaimed
    obtain ⟨l, z, hl, happroves⟩ := hdecided happroved
    -- the request that was read and the one that was claimed are one
    obtain ⟨j', q', begun', c₁, hj', hbegins', hid', -⟩ :=
      (hσ.provenance.calls i _ hi).device d' (.inl hread)
    rw [hhash] at hbegins happroves
    rw [hcode] at hbegins'
    obtain ⟨rfl, rfl⟩ := begins_unique hσ.sound.observes hj hj' hbegins hbegins'
    obtain ⟨userCode, chosen, -, hgranted⟩ := happroves.call
    have howns : c.id = c'.id := howner.symm.trans hid'
    exact ⟨d, hclaimed, happroved, hid.trans howns.symm, rfl, rfl, c, hclient, rfl, j, q, begun, c', l, z,
      d.explicit, hj, hbegins, howns, hl, happroves, grantedScopes_subset hgranted⟩

/-- A poll that issues tokens has claimed the request of its device code. -/
theorem Polling.claimed (hσ : σ.Devices) (h : Polling σ i req x) (hissues : Issuing σ i) :
    ∃ d, x.claimedDevice = some (cfg.env.tokenHash req.deviceCode, d) ∧ d.status = .approved ∧
      Granted cfg σ.phase req x d.clientID d.subject d.scopes := by
  obtain ⟨p, hi, hcall⟩ := h
  obtain ⟨clientID, subject, scopes, family, hclaims⟩ := hσ.sound.claims hi hissues
  obtain ⟨d, hclaimed, happroved, rfl, rfl, rfl, hgranted⟩ := hσ.claims hi hcall hclaims
  exact ⟨d, hclaimed, happroved, hgranted⟩

/-- While a request is stored no poll issues tokens for it. -/
theorem Polling.not_issuing_of_stored (hσ : σ.Devices) (h : Polling σ i req x)
    (hd : σ.sh.devices.byDev.get (cfg.env.tokenHash req.deviceCode) = some d) : ¬ Issuing σ i := by
  intro hissues
  obtain ⟨d', hclaimed, -⟩ := h.claimed hσ hissues
  obtain ⟨p, hi, -⟩ := h
  rw [((hσ.ledger.calls i _ hi).claimed _ d' hclaimed).2] at hd
  cases hd

include hσ h in
/-- **A decision is final.** -/
theorem Observed.Devices.decided (hd : σ.sh.devices.byDev.get k = some d)
    (hdecided : d.status ≠ .pending) : Decided cfg k d.decision τ.sh τ.phase := by
  refine (Observed.Devices.invariant (I := Decided cfg k d.decision) h hσ
    (fun c hI hi => hI.start hi c) (fun hI _ hO hi he hex => hI.step hO hi he hex hdecided)
    ⟨hσ.ledger.stored k d hd, fun d' hd' => ?_, fun j q hj d' hd' => ?_⟩).2
  · cases hd.symm.trans hd'
    rfl
  · rw [((hσ.ledger.calls j q hj).claimed k d' hd').2] at hd
    cases hd

include hσ h in
/-- **A deadline is kept** by the calls that start after it. -/
theorem Observed.Devices.overdue (hd : σ.sh.devices.byDev.get k = some d)
    (hdue : d.expiresAt ≤ σ.sh.now) (hi : σ.phase i = none) : Overdue cfg k d.expiresAt i τ.sh τ.phase := by
  have hnone : ∀ j q, σ.phase j = some q → j ≠ i := by
    rintro j q hj rfl
    rw [hi] at hj
    cases hj
  refine (Observed.Devices.invariant (I := Overdue cfg k d.expiresAt i) h hσ
    (fun c hI hj => hI.start hj c) (fun hI hL hO hj he hex => hI.step hO hj he hex hL)
    ⟨hdue, hσ.ledger.stored k d hd, fun d' hd' => ?_, fun j q hj hl => absurd hl (hnone j q hj),
      fun j q hj hl => absurd hl (hnone j q hj)⟩).2
  cases hd.symm.trans hd'
  rfl

/-- The poll of the sample device code. -/
def samplePoll : DeviceCodeExchangeRequest := ⟨"c", "", "dev"⟩

/-- A device request is begun and approved, and a poll of it has read the clock. -/
def deviceChecked : List (Event (service sampleConfig)) :=
  making 0 (.beginDevice ⟨"c", "", ["a.b"]⟩) ["", "", "dev", "", "BCDF-GHJK", "", "", ""] ++
  making 1 (.decideDevice "BCDF-GHJK" "s" true none []) ["", "", "", "", "", ""] ++
  making 2 (.pollDevice samplePoll) ["", "", "", "", ""]

/-- The poll claims the request, draws its values and reads the clock. -/
def deviceClaimed : List (Event (service sampleConfig)) :=
  ["", "at", "rt", "family", ""].map (.step 2)

end Re0Auth.OAuth

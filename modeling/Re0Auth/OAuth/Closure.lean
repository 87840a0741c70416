import Re0Auth.OAuth.Isolation

/-!
# What a revoked grant can still be redeemed for

`RevokeGrant` deletes the codes, tokens and tombstones of a grant. An approved device request is a
grant as well, and it is kept in the other store, which `RevokeGrant` does not reach.

* **`Shut`**: nothing of the grant is stored and nothing redeemable is left, kept by every operation
  that does not renew the grant (**`Shut.step`**);
* **`revocation_closure`**: what was revoked stays so until the subject renews it, when no approved
  device request of the grant was stored;
* **`revocation_bypassed`**: a run in which one was.
-/

namespace Re0Auth.OAuth

open Lib Function Pool Bool

variable {cfg : Config} {op : Op} {ω : String} {sh sh' : Shared} {r : op.Res} {p : Phase}
  {x : Evidence} {ph : ℕ → Option (Phase × Evidence)} {i n : ℕ} {s c : String} {σ₀ τ : Observed cfg}

/-- No approved device request of the subject and the client is stored. -/
def NoneApproved (s c : String) (sh : Shared) : Prop :=
  ∀ k d, sh.devices.byDev.get k = some d → d.status = .approved → ¬ (d.subject = s ∧ d.clientID = c)

/-- The operation grants the client something of the subject anew: it stores the code of an
`Authorize`, or it records that a device request of the client was approved. -/
def Renews (s c : String) (sh : Shared) : Op → Prop
  | .saveCode _ code => code.subject = s ∧ code.clientID = c
  | .recordDecision hash d => d.status = .approved ∧ d.subject = s ∧
    ∃ rec, sh.devices.byDev.get hash = some rec ∧ rec.clientID = c
  | _ => False

variable (hO : Observes cfg.env sh ph) (hi : ph i = some (p, x)) (ha : Allowed cfg.env p op)
  (he : Entitled cfg x op) (hex : exec cfg op ω sh = some (r, sh'))

include he hex in
/-- An approved request comes from a decision that renews. -/
theorem NoneApproved.step (h : NoneApproved s c sh) (hrenew : ¬ Renews s c sh op) : NoneApproved s c sh' := by
  rintro k d hd happroved ⟨hs, hc⟩
  rcases exec_devices hex hd with
    hold | ⟨v, d₀, rfl, -, rfl⟩ | ⟨at_, d₀, rfl, hold, rfl⟩ | ⟨dec, d₀, rfl, -, hold, -, rfl⟩
  · exact h k d hold happroved ⟨hs, hc⟩
  · obtain ⟨req, cl, -, -, -, -, -, -, hpending, -⟩ := he
    rw [hpending] at happroved
    cases happroved
  · exact h k d₀ hold happroved ⟨hs, hc⟩
  · exact hrenew ⟨happroved, hs, d₀, hold, hc⟩

/-- **Shut**: no record or code of the grant is stored, no call has claimed one, and no device request
of it is approved. -/
structure Shut (cfg : Config) (s c : String) (sh : Shared) (ph : ℕ → Option (Phase × Evidence)) :
    Prop where
  purged : Purged cfg.env (ownedBy s c) (fun _ => False) sh (phases ph)
  devices : NoneApproved s c sh

theorem Shut.start (h : Shut cfg s c sh ph) (hi : ph i = none) (call : Call) :
    Shut cfg s c sh (update ph i (some (Phase.start call, Evidence.start call))) := by
  refine ⟨?_, h.devices⟩
  rw [phases_update]
  exact h.purged.start (by rw [phases, hi]; rfl) call

include hO hi in
/-- The device request a poll consumes is of the client it read, so it is not one of the grant. -/
theorem NoneApproved.not_claimed (h : NoneApproved s c sh) (hprov : Provenance cfg sh ph) {hash : String}
    {r : (Op.consumeDevice hash).Res} (he : Entitled cfg x (.consumeDevice hash))
    (hex : exec cfg (.consumeDevice hash) ω sh = some (r, sh')) {cl : Claim}
    (hcl : (p.advance (.consumeDevice hash) r).Pending cl) : ownedBy s c cl.clientID cl.subject = false := by
  obtain ⟨-, req, client, d, now, -, -, hread, rfl, -⟩ := he
  cases hex
  obtain ⟨d', hd', rfl⟩ := pending_ofDevice hcl
  obtain ⟨hstored, happroved⟩ := MemoryDeviceStore.get_of_consumeDevice hd'
  have hclient := hprov.device_client hO hi hread hstored
  have hseen : p.readDevice = some d := (hO.agrees i _ hi).device.symm.trans hread
  have hnot := h _ d' hstored happroved
  rw [hclient] at hnot
  simpa [ownedBy, hseen] using hnot

include hO hi ha he hex in
/-- **Step lemma**: what is shut stays shut, unless the operation renews the grant. -/
theorem Shut.step (h : Shut cfg s c sh ph) (hprov : Provenance cfg sh ph) (hrenew : ¬ Renews s c sh op) :
    Shut cfg s c sh' (update ph i (some (p.advance op r, x.advance op r))) := by
  refine ⟨?_, h.devices.step he hex hrenew⟩
  rw [phases_update]
  refine h.purged.step hO.tidy (phases_some hi) ha hex ?_ ?_ (fun ⟨_, hS⟩ => hS.elim)
  · rintro value code rfl
    by_contra hsel
    simp only [ownedBy, not_eq_false, and_eq_true, beq_iff_eq] at hsel
    exact hrenew hsel
  · rintro hash rfl cl hcl
    exact h.devices.not_claimed hO hi hprov he hex hcl

/-! ## Runs with a revocation -/

/-- The events of a run in which the call `n` is a `RevokeGrant`: when it deletes, no call has claimed a
grant of the owner without having written its records, and after that nothing renews the grant. -/
def Revoking (s c : String) (n : ℕ) (σ : Observed cfg) : Event (service cfg) → Prop
  | .start i call => i = n → call = .revokeGrant s c
  | .step i _ => ∀ op, σ.nextOp i = some op →
    (i = n → op.selects.isSome → ∀ j p x, σ.phase j = some (p, x) →
      p.issuing (ownedBy s c) = false) ∧
    ((∃ p x, σ.phase n = some (p, x) ∧ p.purged = true) → ¬ Renews s c σ.sh op)

/-- When the call `n` deletes, no approved device request of the owner is stored. -/
def DevicesClear (s c : String) (n : ℕ) (σ : Observed cfg) : Event (service cfg) → Prop
  | .start _ _ => True
  | .step i _ => ∀ op, σ.nextOp i = some op → i = n → op.selects.isSome → NoneApproved s c σ.sh

/-- What holds along such a run: once the revocation has deleted, the grant is shut. -/
structure ShutBy (cfg : Config) (s c : String) (n : ℕ) (sh : Shared)
    (ph : ℕ → Option (Phase × Evidence)) : Prop where
  provenance : Provenance cfg sh ph
  call : ∀ p x, ph n = some (p, x) → p.call = .revokeGrant s c
  shut : ∀ p x, ph n = some (p, x) → p.purged = true → Shut cfg s c sh ph

theorem ShutBy.start (h : ShutBy cfg s c n sh ph) (hi : ph i = none) {call : Call}
    (hcall : i = n → call = .revokeGrant s c) :
    ShutBy cfg s c n sh (update ph i (some (Phase.start call, Evidence.start call))) := by
  refine ⟨h.provenance.start hi call, fun p x hp => ?_, fun p x hp hpurged => ?_⟩
  all_goals
    obtain ⟨rfl, ⟨⟩⟩ | ⟨hni, hp⟩ := update_cases hp
    · first
      | exact hcall rfl
      | cases hpurged
    · first
      | exact h.call p x hp
      | exact (h.shut p x hp hpurged).start hi call

include ha he hex in
/-- The deletion shuts the grant. -/
theorem ShutBy.deletes (h : ShutBy cfg s c n sh ph) (hn : ph n = some (p, x)) (hop : op.selects.isSome)
    (hflight : ∀ j p x, ph j = some (p, x) → p.issuing (ownedBy s c) = false) (hclear : NoneApproved s c sh) :
    Shut cfg s c sh' (update ph n (some (p.advance op r, x.advance op r))) := by
  have hsel : op.selects = some (ownedBy s c) := by
    rw [← (selects_of_allowed ha hop).1, h.call p x hn]
    rfl
  have hnone : ∀ j q, phases ph j = some q → ∀ cl, q.Pending cl →
      ownedBy s c cl.clientID cl.subject = true → False ∧ q.Stale sh cl := by
    intro j q hj cl hcl hown
    obtain ⟨⟨q, y⟩, hqy, rfl⟩ := Option.map_eq_some_iff.1 hj
    have hnot := hflight j q y hqy
    rw [hcl.issuing, hown] at hnot
    cases hnot
  have hrenew : ¬ Renews s c sh op := by
    cases op <;> first | exact id | cases hsel
  refine ⟨?_, hclear.step he hex hrenew⟩
  rw [phases_update]
  exact purged_of_selects (phases_some hn) ha hex hnone hsel

include hO hi ha he hex in
/-- **Step lemma** for a run with a revocation. -/
theorem ShutBy.step (h : ShutBy cfg s c n sh ph)
    (hflight : i = n → op.selects.isSome → ∀ j p x, ph j = some (p, x) →
      p.issuing (ownedBy s c) = false)
    (hrenew : (∃ p x, ph n = some (p, x) ∧ p.purged = true) → ¬ Renews s c sh op)
    (hclear : i = n → op.selects.isSome → NoneApproved s c sh) :
    ShutBy cfg s c n sh' (update ph i (some (p.advance op r, x.advance op r))) := by
  refine ⟨h.provenance.step hO hi he hex, fun q y hq => ?_, fun q y hq hpurged => ?_⟩
  · obtain ⟨rfl, ⟨⟩⟩ | ⟨hni, hq⟩ := update_cases hq
    · rw [advance_call]
      exact h.call p x hi
    · exact h.call q y hq
  · obtain ⟨rfl, ⟨⟩⟩ | ⟨hni, hq⟩ := update_cases hq
    · cases hsel : op.selects with
      | some sel =>
        have hop : op.selects.isSome := by rw [hsel]; rfl
        exact h.deletes ha he hex hi hop (hflight rfl hop) (hclear rfl hop)
      | none =>
        rw [advance_purged_of hsel] at hpurged
        exact (h.shut p x hi hpurged).step hO hi ha he hex h.provenance (hrenew ⟨p, x, hi, hpurged⟩)
    · exact (h.shut q y hq hpurged).step hO hi ha he hex h.provenance (hrenew ⟨q, y, hq, hpurged⟩)

/-- **A revocation closes the grant**: in every run in which the call `n` is a `RevokeGrant` that
deletes while no request of the grant is caught between its claim and its writes and no approved device
request of the grant is stored, no record of the grant is stored at any time after the revocation has
returned, until the subject authorizes the client or approves a device request of it anew. -/
theorem revocation_closure (h₀ : σ₀.Started)
    (h : Pool.Reaches (fun σ e => Revoking s c n σ e ∧ DevicesClear s c n σ e) σ₀ τ) {a : Reply}
    (hr : τ.reply n = some (.ok a)) :
    (∀ k t, τ.sh.tokens.access.get k = some t → ¬ (t.subject = s ∧ t.clientID = c)) ∧
      ∀ k t, τ.sh.tokens.refresh.get k = some t → ¬ (t.subject = s ∧ t.clientID = c) := by
  have hphase : ∀ j, σ₀.phase j = none := fun j => by rw [phase, h₀.idle j]; rfl
  have hrun : τ.Sound ∧ ShutBy cfg s c n τ.sh τ.phase := by
    refine Observed.invariant h (Observed.sound_of_idle h₀.idle) ?_ ?_ ⟨h₀.provenance, ?_, ?_⟩
    · exact fun σ i call hok hI hi => hI.start hi hok.1
    · intro σ i ω p x op r sh hok hO hI hi hop ha he hex
      obtain ⟨hflight, hrenew⟩ := hok.1 op hop
      exact hI.step hO hi ha he hex hflight hrenew (hok.2 op hop)
    all_goals
      intro p x hp
      rw [hphase n] at hp
      cases hp
  obtain ⟨hsound, hI⟩ := hrun
  obtain ⟨⟨p, x⟩, hp⟩ := phase_of_reply hr
  obtain ⟨⟨-, -, hdone⟩, -⟩ := hsound.conforming.done hp hr
  have hpurged : p.purged = true := hdone (by rw [hI.call p x hp]; rfl) rfl
  obtain ⟨haccess, hrefresh⟩ := (hI.shut p x hp hpurged).purged.none_left (fun _ _ hS => hS.elim)
  constructor
  · rintro k t ht ⟨rfl, rfl⟩
    simpa [ownedBy] using haccess k t ht
  · rintro k t ht ⟨rfl, rfl⟩
    simpa [ownedBy] using hrefresh k t ht

/-! ### A grant that was revoked, and a device request approved before -/

/-- The operation could renew a grant. -/
def Op.grants : Op → Bool
  | .saveCode _ _ | .recordDecision _ _ => true
  | _ => false

/-- The events of the first `m` calls, of which the call `n` revokes the grant of `s` to `c`. -/
def revokes (m n : ℕ) (σ : Observed cfg) : Event (service cfg) → Bool
  | .start i (.revokeGrant u d) => decide (i < m) && (i != n || (u == "s" && d == "c"))
  | .start i _ => decide (i < m) && i != n
  | .step i _ => (σ.nextOp i).all fun op =>
    (i != n || !op.selects.isSome ||
      (List.range m).all fun j => (σ.phase j).all fun q => !q.1.issuing (ownedBy "s" "c")) &&
    (!op.grants || !(σ.phase n).any fun q => q.1.purged)

theorem revokes_spec {m : ℕ} {σ : Observed cfg} {e : Event (service cfg)} (hσ : σ.Below m)
    (h : revokes m n σ e = true) : e.below m = true ∧ Revoking "s" "c" n σ e := by
  cases e with
  | start i call =>
    cases call with
    | revokeGrant u d =>
      simp only [revokes, and_eq_true, or_eq_true, bne_iff_ne, beq_iff_eq] at h
      refine ⟨h.1, fun hin => ?_⟩
      obtain ⟨rfl, rfl⟩ := h.2.resolve_left (not_not.2 hin)
      rfl
    | _ =>
      simp only [revokes, and_eq_true, bne_iff_ne] at h
      exact ⟨h.1, fun hin => absurd hin h.2⟩
  | step i ω =>
    refine ⟨rfl, fun op hop => ?_⟩
    rw [revokes, hop, Option.all_some, and_eq_true] at h
    refine ⟨fun hin hsel j p x hj => ?_, ?_⟩
    · have hall := h.1
      rw [hin, hsel, bne_self_eq_false, Bool.not_true, Bool.false_or, Bool.false_or] at hall
      simpa using hσ.forall_phase hall hj
    · rintro ⟨p, x, hp, hpurged⟩ hrenew
      have hgrants : op.grants = true := by
        cases op <;> first | rfl | exact hrenew.elim
      simp [hgrants, hp, hpurged] at h

/-- A device request of the client is approved by the subject, who then revokes the grant. -/
def approvedThenRevoked : List (Event (service sampleConfig)) :=
  making 0 (.beginDevice ⟨"c", "", ["a.b"]⟩) ["", "", "dev", "", "BCDF-GHJK", "", "", ""] ++
  making 1 (.decideDevice "BCDF-GHJK" "s" true none []) ["", "", "", "", "", ""] ++
  making 2 (.revokeGrant "s" "c") ["", "", "", ""]

/-- The device polls. -/
def polling : List (Event (service sampleConfig)) :=
  making 3 (.pollDevice ⟨"c", "", "dev"⟩)
    ["", "", "", "", "", "", "at", "rt", "family", "", "", "", "", ""]

/-- No call but polls of device requests is started. -/
def pollsOnly : Event (service cfg) → Bool
  | .start _ (.pollDevice _) => true
  | .start _ _ => false
  | .step _ _ => true

/-- An access token of `s` and `c` is stored under the key. -/
def holdsAccess (σ : Observed cfg) (k : String) : Bool :=
  (σ.sh.tokens.access.get k).any fun t => t.subject == "s" && t.clientID == "c"

/-- **A revocation bypassed**: nothing is in progress when the revocation has returned, and the device
request that was approved before it is redeemed after it. -/
theorem revocation_bypassed : observedNew.Started ∧ ∃ σ τ : Observed sampleConfig,
    Pool.Reaches (Revoking "s" "c" 2) observedNew σ ∧ (∃ a, σ.reply 2 = some (.ok a)) ∧
      (∀ i, ¬ σ.InFlight i) ∧
      Pool.Reaches (fun σ e => Revoking "s" "c" 2 σ e ∧ pollsOnly e = true) σ τ ∧
      (∃ resp, τ.reply 3 = some (.ok (.token resp))) ∧ holdsAccess τ "h:at" = true := by
  obtain ⟨h₁, hb₁⟩ := reaches_of_runIf approvedThenRevoked (fun _ _ => revokes_spec) (fun _ _ => rfl)
    (show observedNew.runIf (revokes 4 2) _ = some _ from rfl)
  have hcheck : ∀ (σ : Observed sampleConfig) e, σ.Below 4 →
      (revokes 4 2 σ e && pollsOnly e) = true →
      e.below 4 = true ∧ Revoking "s" "c" 2 σ e ∧ pollsOnly e = true := by
    intro σ e hσ h
    obtain ⟨hrevokes, hpolls⟩ := and_eq_true_iff.1 h
    obtain ⟨hbelow, hrevoking⟩ := revokes_spec hσ hrevokes
    exact ⟨hbelow, hrevoking, hpolls⟩
  obtain ⟨h₂, -⟩ := reaches_of_runIf polling hcheck hb₁ rfl
  exact ⟨observedNew_started, _, _, h₁, ⟨_, rfl⟩, hb₁.not_inFlight (by decide), h₂, ⟨_, rfl⟩, rfl⟩

/-- The revoked grant is one that was rotated; the value in the client's hands is refused. -/
def rotatedThenRevoked : List (Event (service sampleConfig)) :=
  rotating ++ making 3 (.revokeGrant "s" "c") ["", "", "", ""] ++
  making 4 (.refresh ⟨"c", "", "rt2", []⟩) ["", "", "", "", "", ""]

theorem revocation_closure_refused : ∃ τ : Observed sampleConfig,
    (∃ a, τ.reply 3 = some (.ok a)) ∧
      (∀ k t, τ.sh.tokens.access.get k = some t → ¬ (t.subject = "s" ∧ t.clientID = "c")) ∧
      ∀ k t, τ.sh.tokens.refresh.get k = some t → ¬ (t.subject = "s" ∧ t.clientID = "c") := by
  let check : Observed sampleConfig → Event (service sampleConfig) → Bool := fun σ e =>
    revokes 5 3 σ e && σ.sh.devices.byDev.keys.isEmpty
  have hcheck : ∀ (σ : Observed sampleConfig) e, σ.Below 5 → check σ e = true →
      e.below 5 = true ∧ Revoking "s" "c" 3 σ e ∧ DevicesClear "s" "c" 3 σ e := by
    intro σ e hσ h
    obtain ⟨hrevokes, hempty⟩ := and_eq_true_iff.1 h
    obtain ⟨hbelow, hrevoking⟩ := revokes_spec hσ hrevokes
    refine ⟨hbelow, hrevoking, ?_⟩
    cases e with
    | start i call => trivial
    | step i ω =>
      intro op _ _ _ k d hd
      have hk : k ∈ σ.sh.devices.byDev.keys := Dict.mem_keys_iff.2 ⟨d, hd⟩
      rw [List.isEmpty_iff.1 hempty] at hk
      cases hk
  obtain ⟨h, -⟩ := reaches_of_runIf rotatedThenRevoked hcheck (fun _ _ => rfl)
    (show observedNew.runIf check _ = some _ from rfl)
  exact ⟨_, ⟨_, by exact rfl⟩, revocation_closure observedNew_started h rfl⟩

end Re0Auth.OAuth

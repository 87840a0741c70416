import Re0Auth.Postgres.Effects

/-!
# What the calls in progress have in hand

Invariants of every run of the provider, each transaction one step: no transaction is left open, the
generations a call has captured are not above the present ones, the row of a presented refresh token
keeps its owner for as long as it is there, and a value that has been drawn is nobody else's.

* **`Shared.Grows`**: values and keys are not forgotten, so that a fresh value is new to the whole run;
* **`Stage.Sound`**, **`Tidy`**: the invariant, with **`Tidy.step`**.
-/

namespace Re0Auth.Postgres

open Lib OAuth Oidc Pool Prog List

variable {env : Env}

/-- The committed rows. -/
def Shared.rows (sh : Shared) : View Row := sh.db.committed

/-- Drawn values and the keys of the tables are not forgotten. -/
structure Shared.Grows (sh sh' : Shared) : Prop where
  drawn : sh.drawn ⊆ sh'.drawn
  keys : ∀ i, (sh.db.table i).keys ⊆ (sh'.db.table i).keys

namespace Shared.Grows

variable {sh sh₁ sh' : Shared}

theorem refl : sh.Grows sh := ⟨fun _ h => h, fun _ _ h => h⟩

theorem trans (h : sh.Grows sh₁) (h' : sh₁.Grows sh') : sh.Grows sh' :=
  ⟨fun _ hv => h'.drawn (h.drawn hv), fun i _ hk => h'.keys i (h.keys i hk)⟩

theorem modify {i : Tbl} {k : String} {f : Cell (Row i) → Cell (Row i)} :
    sh.Grows { sh with db := sh.db.modify i k f } := ⟨fun _ h => h, fun _ => Db.keys_modify⟩

theorem change {t : ℕ} {i : Tbl} {k : String} {f : Row i → Option (Row i)}
    {r : Except Err (Option (Row i))} (h : Postgres.change t i k f sh = some (r, sh')) : sh.Grows sh' := by
  rw [Postgres.change] at h
  split at h
  · split at h <;> cases h
    exact .refl
  · rw [Db.write] at h
    split at h <;> cases h
    exact .modify

theorem exec {op : Op} {ω : Option String} {r : op.Res}
    (h : Postgres.exec env op ω sh = some (r, sh')) : sh.Grows sh' := by
  cases op with
  | random =>
    dsimp only [Postgres.exec] at h
    split at h
    · cases h
      exact .refl
    · split at h <;> cases h
      exact ⟨fun _ hv => mem_cons_of_mem _ hv, fun _ _ hk => hk⟩
  | begin | commit | rollback =>
    dsimp only [Postgres.exec] at h
    try split at h
    all_goals
      cases h
      exact ⟨fun _ hv => hv, fun _ _ hk => hk⟩
  | delete | update =>
    dsimp only [Postgres.exec] at h
    split at h
    · cases h
      exact .refl
    · exact .change h
  | insert t i k row =>
    dsimp only [Postgres.exec] at h
    split at h
    · cases h
      exact .refl
    · split at h
      · split at h <;> cases h
        · exact .refl
        · exact .modify
      · cases h
  | upsert t i k row f =>
    dsimp only [Postgres.exec, Db.write] at h
    split at h
    · cases h
      exact .refl
    · split at h <;> cases h
      exact .modify
  | share t i k =>
    dsimp only [Postgres.exec, Db.share] at h
    split at h
    · cases h
      exact .refl
    · split at h <;> cases h
      exact .modify
  | now | advanceClock =>
    cases h
    exact ⟨fun _ hv => hv, fun _ _ hk => hk⟩
  | select | scan =>
    dsimp only [Postgres.exec] at h
    split at h <;> cases h <;> exact .refl
  | spin => cases h

/-- A transaction forgets nothing. -/
theorem txExec {op : TxOp} {ω : TxChoice} {r : Except Err op.Answer}
    (h : (txMachine env).exec op ω sh = some (r, sh')) : sh.Grows sh' := by
  have hwp : wp (M := machine env) (op.statements env ω.verdict).run (fun _ => sh.Grows) sh :=
    wp_of_exec (fun _ _ _ _ _ hex hI => hI.trans (.exec hex)) .refl
  exact wp_perform hwp h

end Shared.Grows

/-- A drawn value is new. -/
theorem fresh_of_random {ω : TxChoice} {v : String} {sh sh' : Shared}
    (h : (txMachine env).exec .random ω sh = some (.ok v, sh')) :
    sh.Fresh env v ∧ sh' = { sh with drawn := v :: sh.drawn } := by
  have hwp : wp (M := machine env) (randomValue : Sql env String).run (fun r sh' =>
      ∀ v, r = .ok v → sh.Fresh env v ∧ sh' = { sh with drawn := v :: sh.drawn }) sh := by
    rintro (_ | w) r sh₁ hex
    · cases hex
      exact nofun
    · dsimp only [exec] at hex
      split at hex
      · cases hex
        rintro v hv
        cases hv
        exact ⟨‹_›, rfl⟩
      · cases hex
  exact wp_perform hwp h v rfl

theorem epochsAt_mono {C C' : View Row} (h : ∀ key, epoch C key ≤ epoch C' key) {c s : String} :
    epochsAt C c s ≤ epochsAt C' c s := by
  refine ⟨?_, ?_, ?_⟩ <;> simp only [epochsAt] <;> split_ifs <;> first | exact h _ | exact Int.le_refl _

/-! ## Stages -/

/-- **What holds of a stage**, in terms of the committed rows. -/
def Stage.Sound (env : Env) (sh : Shared) : Stage → Prop
  | holding o captured => ∃ e, captured = some e ∧ e ≤ epochsAt sh.rows o.1 o.2
  | presenting v o => env.tokenHash v ∈ (sh.db.table .refreshTokens).keys ∧
    ∀ row, sh.rows .refreshTokens (env.tokenHash v) = some row → (row.clientID, row.subject) = o
  | unredeemable now c d =>
    ∀ row, sh.rows .devices (env.tokenHash d) = some row → row.redeemable now c = false
  | pending _ d => ∀ row, sh.rows .devices (env.tokenHash d) = some row → row.done = false
  | _ => True

section

variable {sh sh' : Shared} {st : Stage} {op : TxOp} {ω : TxChoice} {r : Except Err op.Answer}

/-- The stage of a call survives what others do, unless they store the value it presents. -/
theorem Stage.Sound.stable (h : st.Sound env sh) (hgrows : sh.Grows sh')
    (heffect : Narrows sh.rows sh'.rows ∨ ∃ m, Mints env m sh.rows sh'.rows ∧
      ∀ o, st ≠ .presenting m.value o) : st.Sound env sh' := by
  have hepochs : ∀ key, epoch sh.rows key ≤ epoch sh'.rows key := by
    rcases heffect with hn | ⟨m, hm, -⟩
    · exact hn.epochs
    · intro key
      exact Int.le_of_eq (by rw [epoch, epoch, hm.rest _ (by decide) (by decide) (by decide)])
  have hdevices : ∀ k d, sh'.rows .devices k = some d →
      ∃ d₀, sh.rows .devices k = some d₀ ∧ d₀.decision = d.decision := by
    rcases heffect with hn | ⟨m, hm, -⟩
    · exact hn.devices
    · intro k d hd
      rw [hm.rest _ (by decide) (by decide) (by decide)] at hd
      exact ⟨d, hd, rfl⟩
  cases st with
  | holding o captured =>
    obtain ⟨e, rfl, he⟩ := h
    exact ⟨e, rfl, RevocationEpochs.le_trans he (epochsAt_mono hepochs)⟩
  | presenting v o =>
    refine ⟨hgrows.keys _ h.1, fun row hrow => h.2 row ?_⟩
    rcases heffect with hn | ⟨m, hm, hne⟩
    · exact hn.rows _ _ _ (by decide) (by decide) hrow
    · rcases hm.refresh _ _ hrow with hold | ⟨hk, -⟩
      · exact hold
      · exact absurd (by rw [env.tokenHash_injective hk]) (hne o)
  | unredeemable now c d =>
    intro row hrow
    obtain ⟨d₀, hd₀, heq⟩ := hdevices _ _ hrow
    have hold : d₀.decision.redeemable now c = false := h d₀ hd₀
    rw [heq] at hold
    exact hold
  | pending c d =>
    intro row hrow
    obtain ⟨d₀, hd₀, heq⟩ := hdevices _ _ hrow
    have hold : d₀.decision.done = false := h d₀ hd₀
    rw [heq] at hold
    exact hold
  | idle | settled | revoked | deleted => trivial

/-- In a run without approvals, a device request that was found not to be redeemable is not seen
approved. -/
theorem Stage.Sound.not_seenApproved {c d : String} {row : DeviceRow} (h : st.Sound env sh)
    (hst : (∃ now, st = .unredeemable now c d) ∨ st = .pending c d)
    (hrow : sh.rows .devices (env.tokenHash d) = some row) (hc : row.clientID = c) :
    st.seenApproved row.state = false := by
  obtain ⟨now, rfl⟩ | rfl := hst
  · have hnot := h row hrow
    rw [DeviceRow.redeemable, hc, BEq.rfl, Bool.true_and] at hnot
    exact hnot
  · have hnot : row.done = false := h row hrow
    simp [Stage.seenApproved, DeviceRow.state, hnot]

/-- The stage of the call that makes a transaction. -/
theorem Stage.Sound.advance {p : TxPhase} (h : p.stage.Sound env sh) (ha : TxAllowed p op)
    (hgrows : sh.Grows sh') (heffect : TxEffect env op r sh.rows sh'.rows) :
    (p.stage.advance op r).Sound env sh' := by
  have hkeep : Narrows sh.rows sh'.rows → p.stage.Sound env sh' := fun hn => h.stable hgrows (.inl hn)
  cases op with
  | authRequestByCode code =>
    rcases r with e | ⟨request, e⟩
    · exact hkeep heffect
    · obtain ⟨hn, id, row, -, rfl, rfl⟩ := heffect
      exact ⟨_, rfl, epochsAt_mono hn.epochs⟩
  | loadRefresh value now =>
    rcases r with e | _ | row
    · exact hkeep heffect
    · exact hkeep heffect
    · obtain ⟨heq, hrow⟩ := heffect
      refine ⟨hgrows.keys _ (sh.db.mem_keys hrow), fun row' hrow' => ?_⟩
      rw [heq, hrow] at hrow'
      cases hrow'
      rfl
  | consumeDevice now c d =>
    rcases r with e | _ | ⟨state, e⟩
    · exact hkeep heffect
    · obtain ⟨heq, hrow⟩ := heffect
      rw [← heq] at hrow
      exact hrow
    · obtain ⟨hn, row, -, rfl, rfl⟩ := heffect
      exact ⟨_, rfl, epochsAt_mono hn.epochs⟩
  | recordDevicePoll now c d =>
    rcases r with e | _ | last
    · exact hkeep heffect
    · exact hkeep heffect
    · exact heffect.2
  | deviceState c d =>
    rcases r with e | state
    · exact hkeep heffect
    · obtain ⟨heq, row, hrow, hc, rfl⟩ := heffect
      rw [Stage.advance, h.not_seenApproved ha hrow hc]
      exact hkeep (heq ▸ .refl)
  | captureEpochs | judge | random =>
    rcases r with e | _
    · trivial
    · exact hkeep heffect
  | mint m => trivial
  | revokeGrant | revokeTokens | deleteClient =>
    rcases r with e | _
    · exact hkeep heffect
    · trivial
  | now | advanceClock | replayed | expireDevice => exact hkeep heffect

theorem mem_drawnAfter {drawn : List String} {v : String}
    (hex : (txMachine env).exec op ω sh = some (r, sh')) (hv : v ∈ drawnAfter drawn op r) :
    (v ∈ drawn ∧ ∀ m, op ≠ .mint m) ∨ (sh.Fresh env v ∧ v ∈ sh'.drawn ∧ sh'.rows = sh.rows) := by
  cases op with
  | random =>
    rcases r with e | w
    · exact .inl ⟨hv, nofun⟩
    · obtain ⟨hfresh, rfl⟩ := fresh_of_random hex
      rcases mem_cons.1 hv with rfl | hv
      · exact .inr ⟨hfresh, mem_cons_self, rfl⟩
      · exact .inl ⟨hv, nofun⟩
  | mint m => exact absurd hv not_mem_nil
  | _ => exact .inl ⟨hv, nofun⟩

/-- What it takes to come to a stage. -/
def Stage.Entered (env : Env) (op : TxOp) (C C' : View Row) : Stage → Prop
  | presenting v _ => (C .refreshTokens (env.tokenHash v)).isSome
  | holding o (some _) =>
    ∃ i ∈ grantTables, ∃ k row, C i k = some row ∧ owner i row = some o
  | revoked f => Revokes f C C' ∧ BumpedFor f C C' ∧
    (f.subject ≠ "" ∨ ∃ fuel, op = .revokeTokens fuel f)
  | deleted id => Revokes ⟨id, ""⟩ C C' ∧
    (∀ r k row, C' (.retired r) k = some row → ownedBy ⟨id, ""⟩ (.retired r) row = false) ∧
    ∃ fuel, op = .deleteClient fuel id
  | _ => True

/-- A transaction leaves the stage as it is or brings the call to another. -/
theorem Stage.advance_cases {C C' : View Row} (heffect : TxEffect env op r C C') :
    st.advance op r = st ∨ (st.advance op r).Entered env op C C' := by
  cases op with
  | authRequestByCode code =>
    rcases r with e | ⟨request, e⟩
    · exact .inl rfl
    · obtain ⟨-, id, row, hrow, rfl, -⟩ := heffect
      exact .inr ⟨.authRequests, by decide, id, row, hrow, rfl⟩
  | loadRefresh value now =>
    rcases r with e | _ | row
    · exact .inl rfl
    · exact .inl rfl
    · refine .inr ?_
      rw [Stage.advance, Entered, heffect.2]
      rfl
  | consumeDevice now c d =>
    rcases r with e | _ | ⟨state, e⟩
    · exact .inl rfl
    · exact .inr trivial
    · obtain ⟨-, row, hrow, rfl, -⟩ := heffect
      exact .inr ⟨.devices, by decide, _, row, hrow, rfl⟩
  | recordDevicePoll now c d =>
    rcases r with e | _ | last
    · exact .inl rfl
    · exact .inl rfl
    · exact .inr trivial
  | deviceState c d =>
    rcases r with e | state
    · exact .inl rfl
    · rw [Stage.advance]
      split
      · exact .inr trivial
      · exact .inl rfl
  | captureEpochs | judge | random =>
    rcases r with e | _
    · exact .inr trivial
    · exact .inl rfl
  | mint m => exact .inr trivial
  | revokeGrant s c =>
    rcases r with e | _
    · exact .inl rfl
    · exact .inr ⟨heffect.2.1, heffect.2.2, .inl heffect.1⟩
  | revokeTokens fuel f =>
    rcases r with e | _
    · exact .inl rfl
    · exact .inr ⟨heffect.1, heffect.2, .inr ⟨fuel, rfl⟩⟩
  | deleteClient fuel id =>
    rcases r with e | _
    · exact .inl rfl
    · exact .inr ⟨heffect.1, heffect.2, fuel, rfl⟩
  | now | advanceClock | replayed | expireDevice => exact .inl rfl

theorem Stage.entered_of_advance {C C' : View Row} (heffect : TxEffect env op r C C') {st' : Stage}
    (h : st.advance op r = st') : st = st' ∨ st'.Entered env op C C' := by
  subst h
  rcases Stage.advance_cases heffect with h | h
  · exact .inl h.symm
  · exact .inr h

end

/-! ## All calls -/

/-- **Tidy**: no transaction is open, the stages are sound, and the values drawn and not stored belong
to one call each. -/
structure Tidy (env : Env) (sh : Shared) (ph : ℕ → Option TxPhase) : Prop where
  clean : sh.db.Clean sh.rows
  seeded : (sh.rows .revocationEpochs "*").isSome
  stage : ∀ i p, ph i = some p → p.stage.Sound env sh
  drawn : ∀ i p, ph i = some p → ∀ v ∈ p.drawn,
    v ∈ sh.drawn ∧ sh.rows .refreshTokens (env.tokenHash v) = none
  apart : ∀ i p, ph i = some p → ∀ j q, ph j = some q → ∀ v ∈ p.drawn, v ∈ q.drawn → i = j
  unseen : ∀ i p, ph i = some p → ∀ j q, ph j = some q → ∀ v ∈ p.drawn,
    ∀ o, q.stage ≠ .presenting v o

section

variable {sh sh' : Shared} {ph : ℕ → Option TxPhase} {i : ℕ} {p : TxPhase} {op : TxOp}
  {ω : TxChoice} {r : Except Err op.Answer}

section

variable (h : Tidy env sh ph) (hp : ph i = some p) (ha : TxAllowed p op)
  (hex : (txMachine env).exec op ω sh = some (r, sh'))
include h

include hex in
/-- What a transaction does while no other is open. -/
theorem Tidy.effect : sh'.db.Clean sh'.rows ∧ TxEffect env op r sh.rows sh'.rows := by
  obtain ⟨C', hC', heffect⟩ := effect_of_exec hex h.clean
  obtain rfl : C' = sh'.rows := hC'.eq
  exact ⟨hC', heffect⟩

include ha hex in
/-- What a step of call `i` adds: nothing, or the pair of a mint under values that it has drawn. -/
theorem Tidy.kind :
    Narrows sh.rows sh'.rows ∨
      ∃ m, op = .mint m ∧ Mints env m sh.rows sh'.rows ∧ m.value ∈ p.drawn := by
  rcases (h.effect hex).2.narrows with hn | ⟨m, rfl, hm⟩
  · exact .inl hn
  · exact .inr ⟨m, rfl, hm, ha.1⟩

include hp ha hex in
/-- A drawn value of another call, or of one that does not mint, stays unstored. -/
theorem Tidy.drawn_step {j : ℕ} {q : TxPhase} (hq : ph j = some q)
    {v : String} (hv : v ∈ q.drawn) (hj : j ≠ i ∨ ∀ m, op ≠ .mint m) :
    v ∈ sh'.drawn ∧ sh'.rows .refreshTokens (env.tokenHash v) = none := by
  obtain ⟨hmem, hnone⟩ := h.drawn j q hq v hv
  refine ⟨(Shared.Grows.txExec hex).drawn hmem, ?_⟩
  by_contra hsome
  obtain ⟨row, hrow⟩ := Option.ne_none_iff_exists'.1 hsome
  rcases h.kind ha hex with hn | ⟨m, hop, hm, hvalue⟩
  · rw [hn.rows _ _ _ (by decide) (by decide) hrow] at hnone
    cases hnone
  · rcases hm.refresh _ _ hrow with hold | ⟨hk, -⟩
    · rw [hold] at hnone
      cases hnone
    · rw [env.tokenHash_injective hk] at hv
      rcases hj with hj | hnot
      · exact hj (h.apart j q hq i p hp m.value hv hvalue)
      · exact hnot m hop

include hp ha hex in
/-- **Step lemma.** -/
theorem Tidy.step : Tidy env sh' (Function.update ph i (some (p.advance op r))) := by
  obtain ⟨hclean, heffect⟩ := h.effect hex
  have hgrows : sh.Grows sh' := .txExec hex
  -- a value the moving call has drawn is an old one or new to the run
  have hmine : ∀ v ∈ (p.advance op r).drawn, (v ∈ p.drawn ∧ ∀ m, op ≠ .mint m) ∨
      (sh.Fresh env v ∧ v ∈ sh'.drawn ∧ sh'.rows = sh.rows) := fun v hv => mem_drawnAfter hex hv
  have hfresh : ∀ v, sh.Fresh env v → sh.rows .refreshTokens (env.tokenHash v) = none := by
    intro v hv
    by_contra hsome
    obtain ⟨row, hrow⟩ := Option.ne_none_iff_exists'.1 hsome
    exact hv.2.2.1 (sh.db.mem_keys hrow)
  have hpresents : ∀ j q, ph j = some q → ∀ v o, q.stage = .presenting v o → ¬ sh.Fresh env v := by
    intro j q hq v o hst hv
    have hsound := h.stage j q hq
    rw [hst] at hsound
    exact hv.2.2.1 hsound.1
  have hnew : ∀ v o, (p.advance op r).stage = .presenting v o → p.stage = .presenting v o ∨
      (sh.rows .refreshTokens (env.tokenHash v)).isSome :=
    fun v o hst => Stage.entered_of_advance heffect hst
  refine ⟨hclean, ?_, ?_, ?_, ?_, ?_⟩
  · rcases h.kind ha hex with hn | ⟨m, -, hm, -⟩
    · exact hn.seeded h.seeded
    · rw [hm.rest _ (by decide) (by decide) (by decide)]
      exact h.seeded
  · refine forall_update ((h.stage i p hp).advance ha hgrows heffect) fun j q hj hq => ?_
    refine (h.stage j q hq).stable hgrows ?_
    rcases h.kind ha hex with hn | ⟨m, -, hm, hvalue⟩
    · exact .inl hn
    · exact .inr ⟨m, hm, h.unseen i p hp j q hq m.value hvalue⟩
  · refine forall_update (fun v hv => ?_) fun j q hj hq v hv => ?_
    · rcases hmine v hv with ⟨hv, hop⟩ | ⟨hv, hmem, heq⟩
      · exact h.drawn_step hp ha hex hp hv (.inr hop)
      · exact ⟨hmem, heq ▸ hfresh v hv⟩
    · exact h.drawn_step hp ha hex hq hv (.inl hj)
  · have hapart : ∀ j q, j ≠ i → ph j = some q → ∀ v ∈ (p.advance op r).drawn, v ∉ q.drawn := by
      intro j q hj hq v hv hvq
      rcases hmine v hv with ⟨hv, -⟩ | ⟨hv, -⟩
      · exact hj (h.apart j q hq i p hp v hvq hv)
      · exact hv.1 (h.drawn j q hq v hvq).1
    refine forall_update ?_ fun j q hj hq => ?_
    · exact forall_update (fun _ _ _ => rfl) fun j q hj hq v hv hvq =>
        absurd hvq (hapart j q hj hq v hv)
    · exact forall_kept (fun v hv hvp => absurd hv (hapart j q hj hq v hvp)) (h.apart j q hq)
  · refine forall_update ?_ fun j q hj hq => ?_
    · refine forall_update (fun v hv o hst => ?_) fun j q hj hq v hv o hst => ?_
      · rcases hmine v hv with ⟨hv, -⟩ | ⟨hv, -⟩
        · rcases hnew v o hst with hst | hsome
          · exact h.unseen i p hp i p hp v hv o hst
          · rw [(h.drawn i p hp v hv).2] at hsome
            cases hsome
        · rcases hnew v o hst with hst | hsome
          · exact hpresents i p hp v o hst hv
          · rw [hfresh v hv] at hsome
            cases hsome
      · rcases hmine v hv with ⟨hv, -⟩ | ⟨hv, -⟩
        · exact h.unseen i p hp j q hq v hv o hst
        · exact hpresents j q hq v o hst hv
    · refine forall_kept (fun v hv o hst => ?_) (h.unseen j q hq)
      rcases hnew v o hst with hst | hsome
      · exact h.unseen j q hq i p hp v hv o hst
      · rw [(h.drawn j q hq v hv).2] at hsome
        cases hsome

/-- A call that starts has nothing in hand. -/
theorem Tidy.start {c : Call} : Tidy env sh (Function.update ph i (some ⟨c, .idle, []⟩)) where
  clean := h.clean
  seeded := h.seeded
  stage := forall_kept trivial h.stage
  drawn := forall_kept nofun h.drawn
  apart := forall_kept (fun _ _ _ => nofun) fun j q hq =>
    forall_kept (fun _ _ => nofun) (h.apart j q hq)
  unseen := forall_kept (fun _ _ _ => nofun) fun j q hq =>
    forall_kept (fun _ _ _ => nofun) (h.unseen j q hq)

end

end

end Re0Auth.Postgres

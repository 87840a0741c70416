import Re0Auth.OAuth.Values

/-!
# Bulk revocation against issuing calls

`RevokeGrant`, `RevokeTokens` and the deletion of a client remove every record of the owners they
select in one step, while an issuing call claims its grant in one step and writes the pair in two
later ones. A deletion is final when every call whose claim it selects and whose records are not
written yet has captured an epoch that has moved since: such a call deletes its pair again.

* **`Purged`**: what holds after the deletion, kept by every operation (**`Purged.step`**);
* **`revokeGrant_final`**, **`revokeTokens_final`**: the condition under which a revocation is final.
-/

namespace Re0Auth.OAuth

open Lib Function Pool MemoryStore Bool

variable {cfg : Config} {op : Op} {ω : String} {sh sh' : Shared} {r : op.Res} {p q : Phase}
  {ph : ℕ → Option Phase} {i : ℕ} {sel : String → String → Bool} {S : ℕ → Prop} {k : String}
  {c : Claim} {env : Env} {n : ℕ} {σ : System cfg} {e : Event (service cfg)}

/-! ## Calls that will delete what they wrote -/

/-- The grant epoch has moved since the call captured it. -/
def Phase.Stale (sh : Shared) (p : Phase) (c : Claim) : Prop :=
  p.captured ≠ sh.grantEpoch c.subject c.clientID

/-- The call will delete the access record stored under `k`. -/
def Phase.OwesAccess (env : Env) (sel : String → String → Bool) (sh : Shared) (p : Phase)
    (k : String) : Prop :=
  ∃ c familyID at_, env.tokenHash at_ = k ∧ sel c.clientID c.subject = true ∧
    ((p.stage = .minting c familyID at_ ∧ p.Stale sh c) ∨
      (∃ rt, p.stage = .minted c familyID at_ rt ∧ p.Stale sh c) ∨
      ∃ rt, p.stage = .undo c familyID at_ rt)

/-- The call will delete the refresh record stored under `k`. -/
def Phase.OwesRefresh (env : Env) (sel : String → String → Bool) (sh : Shared) (p : Phase)
    (k : String) : Prop :=
  ∃ c familyID rt, env.tokenHash rt = k ∧ rt ∈ p.drawn ∧ sel c.clientID c.subject = true ∧
    ((∃ at_, p.stage = .minted c familyID at_ rt ∧ p.Stale sh c) ∨
      (∃ at_, p.stage = .undo c familyID at_ rt) ∨ p.stage = .undoRefresh c familyID rt)

/-- The epochs of the selected owners are the same. -/
def SameEpochs (sel : String → String → Bool) (sh sh' : Shared) : Prop :=
  ∀ c u, sel c u = true → sh'.grantEpoch u c = sh.grantEpoch u c

theorem Phase.Stale.of_same (h : p.Stale sh c) (hE : SameEpochs sel sh sh')
    (hsel : sel c.clientID c.subject = true) (hcap : q.captured = p.captured) : q.Stale sh' c := by
  rw [Phase.Stale, hE _ _ hsel, hcap]
  exact h

theorem Phase.OwesAccess.of_still (h : p.OwesAccess env sel sh k)
    (hE : SameEpochs sel sh sh') (hq : p.Still q) : q.OwesAccess env sel sh' k := by
  obtain ⟨c, familyID, at_, hk, hsel, hst⟩ := h
  refine ⟨c, familyID, at_, hk, hsel, ?_⟩
  rw [hq.stage]
  rcases hst with ⟨hs, hst⟩ | ⟨rt, hs, hst⟩ | ⟨rt, hs⟩
  · exact .inl ⟨hs, hst.of_same hE hsel hq.captured⟩
  · exact .inr (.inl ⟨rt, hs, hst.of_same hE hsel hq.captured⟩)
  · exact .inr (.inr ⟨rt, hs⟩)

theorem Phase.OwesRefresh.of_still (h : p.OwesRefresh env sel sh k)
    (hE : SameEpochs sel sh sh') (hq : p.Still q) : q.OwesRefresh env sel sh' k := by
  obtain ⟨c, familyID, rt, hk, hrt, hsel, hst⟩ := h
  refine ⟨c, familyID, rt, hk, hq.drawn hrt, hsel, ?_⟩
  rw [hq.stage]
  rcases hst with ⟨at_, hs, hst⟩ | hst
  · exact .inl ⟨at_, hs, hst.of_same hE hsel hq.captured⟩
  · exact .inr hst

theorem Phase.OwesAccess.busy (h : p.OwesAccess env sel sh k) : p.stage.Busy := by
  obtain ⟨c, familyID, at_, -, -, ⟨hs, -⟩ | ⟨rt, hs, -⟩ | ⟨rt, hs⟩⟩ := h <;> rw [hs] <;> trivial

theorem Phase.OwesRefresh.busy (h : p.OwesRefresh env sel sh k) : p.stage.Busy := by
  obtain ⟨c, familyID, rt, -, -, -, ⟨at_, hs, -⟩ | ⟨at_, hs⟩ | hs⟩ := h <;> rw [hs] <;> trivial

variable (hT : Tidy cfg.env sh ph) (hi : ph i = some p) (ha : Allowed cfg.env p op)
  (hex : exec cfg op ω sh = some (r, sh'))

include ha hex in
/-- A call that owes the deletion of an access record goes on owing it until it is gone. -/
theorem Phase.OwesAccess.advance (h : p.OwesAccess cfg.env sel sh k) (hE : SameEpochs sel sh sh') :
    (p.advance op r).OwesAccess cfg.env sel sh' k ∨ sh'.tokens.access.get k = none := by
  have hgoes := advance_busy (r := r) ha h.busy
  generalize p.advance op r = q at hgoes ⊢
  cases hgoes with
  | still hstill => exact .inl (h.of_still hE hstill)
  | mints hs =>
    obtain ⟨c, familyID, at_, hk, hsel, ⟨hs', hst⟩ | ⟨rt, hs', -⟩ | ⟨rt, hs'⟩⟩ := h <;>
      cases hs'.symm.trans hs
    exact .inl ⟨_, _, _, hk, hsel, .inr (.inl ⟨_, rfl, hst.of_same hE hsel rfl⟩)⟩
  | rereads hs =>
    obtain ⟨c, familyID, at_, hk, hsel, ⟨hs', -⟩ | ⟨rt, hs', hst⟩ | ⟨rt, hs'⟩⟩ := h <;>
      cases hs'.symm.trans hs
    -- the epoch read is the current one, which is not the one captured
    cases hex
    exact .inl ⟨_, _, _, hk, hsel, .inr (.inr ⟨_, if_neg hst.symm⟩)⟩
  | undoes hs =>
    obtain ⟨c, familyID, at_, hk, -, ⟨hs', -⟩ | ⟨rt, hs', -⟩ | ⟨rt, hs'⟩⟩ := h <;> cases hs'.symm.trans hs
    cases hex
    right
    rw [← hk]
    exact Dict.get_del_self ..
  | settles hs =>
    obtain ⟨c, familyID, at_, -, -, ⟨hs', -⟩ | ⟨rt, hs', -⟩ | ⟨rt, hs'⟩⟩ := h <;> cases hs'.symm.trans hs

include ha hex in
/-- The same for a refresh record. -/
theorem Phase.OwesRefresh.advance (h : p.OwesRefresh cfg.env sel sh k) (hE : SameEpochs sel sh sh') :
    (p.advance op r).OwesRefresh cfg.env sel sh' k ∨ sh'.tokens.refresh.get k = none := by
  have hgoes := advance_busy (r := r) ha h.busy
  generalize p.advance op r = q at hgoes ⊢
  cases hgoes with
  | still hstill => exact .inl (h.of_still hE hstill)
  | mints hs =>
    obtain ⟨c, familyID, rt, -, -, -, ⟨at_, hs', -⟩ | ⟨at_, hs'⟩ | hs'⟩ := h <;> cases hs'.symm.trans hs
  | rereads hs =>
    obtain ⟨c, familyID, rt, hk, hrt, hsel, ⟨at_, hs', hst⟩ | ⟨at_, hs'⟩ | hs'⟩ := h <;>
      cases hs'.symm.trans hs
    cases hex
    exact .inl ⟨_, _, _, hk, hrt, hsel, .inr (.inl ⟨_, if_neg hst.symm⟩)⟩
  | undoes hs =>
    obtain ⟨c, familyID, rt, hk, hrt, hsel, ⟨at_, hs', -⟩ | ⟨at_, hs'⟩ | hs'⟩ := h <;> cases hs'.symm.trans hs
    exact .inl ⟨_, _, _, hk, hrt, hsel, .inr (.inr rfl)⟩
  | settles hs =>
    obtain ⟨c, familyID, rt, hk, -, -, ⟨at_, hs', -⟩ | ⟨at_, hs'⟩ | hs'⟩ := h <;> cases hs'.symm.trans hs
    cases hex
    right
    rw [← hk]
    exact Dict.get_del_self ..

/-! ## After the deletion -/

/-- **Purged**: no selected code is stored; every selected record is owed a deletion by one of the
calls `S`; and every call with a selected claim is one of these and has captured an epoch that has
moved. -/
structure Purged (env : Env) (sel : String → String → Bool) (S : ℕ → Prop) (sh : Shared)
    (ph : ℕ → Option Phase) : Prop where
  codes : ∀ k c, sh.tokens.codes.get k = some c → sel c.clientID c.subject = false
  access : ∀ k t, sh.tokens.access.get k = some t → sel t.clientID t.subject = true →
    ∃ i p, S i ∧ ph i = some p ∧ p.OwesAccess env sel sh k
  refresh : ∀ k t, sh.tokens.refresh.get k = some t → sel t.clientID t.subject = true →
    ∃ i p, S i ∧ ph i = some p ∧ p.OwesRefresh env sel sh k
  pending : ∀ i p, ph i = some p → ∀ c, p.Pending c → sel c.clientID c.subject = true →
    S i ∧ p.Stale sh c

variable (hP : Purged cfg.env sel S sh ph)

include hT hi ha hex hP in
/-- A selected code or refresh record cannot be claimed any more: the codes are gone, and the value
of a refresh record that is still stored has not been handed out. -/
theorem Purged.not_claimed
    (hop : (∃ value, op = .consumeCode value) ∨ ∃ value, op = .consumeRefresh value)
    (hc : (p.advance op r).Pending c) : sel c.clientID c.subject = false := by
  rcases hop with ⟨value, rfl⟩ | ⟨value, rfl⟩
  · cases hex
    obtain ⟨code, hcode, rfl⟩ := pending_ofCode hc
    exact hP.codes _ _ (get_of_consumeCode hcode)
  · cases hex
    obtain ⟨t, ht, rfl⟩ := pending_ofRefresh hc
    by_contra hsel
    rw [not_eq_false] at hsel
    obtain ⟨j, q, -, hj, howes⟩ :=
      hP.refresh _ _ (get_of_consumeRefresh ht) hsel
    have hbusy := howes.busy
    obtain ⟨c, familyID, rt, hk, hrt, -⟩ := howes
    -- the value presented is the one another call has drawn and not handed out
    have hne := (hT.each j q hj).ne_presented (hT.each i p hi)
      (fun hs => by rw [hs] at hbusy; exact hbusy) hrt ha.2.2.1
    exact hne (cfg.env.tokenHash_injective hk).symm

include hi in
/-- A deletion one of the calls `S` owes stays owed when call `i` moves on. -/
theorem owed_update {P P' : Phase → Prop} (hself : S i → P p → P' q)
    (hother : ∀ j q, S j → P q → P' q) (h : ∃ j q, S j ∧ ph j = some q ∧ P q) :
    ∃ j q', S j ∧ update ph i (some q) j = some q' ∧ P' q' := by
  obtain ⟨j, q', hS, hj, howes⟩ := h
  by_cases hji : j = i
  · subst hji
    cases hi.symm.trans hj
    exact ⟨j, q, hS, update_self .., hself hS howes⟩
  · exact ⟨j, q', hS, by rw [update_of_ne hji, hj], hother j q' hS howes⟩

include hT hi ha hex hP in
/-- **Step lemma**: an operation that is in order keeps the state purged, when it stores no selected
code, approves no selected device request and moves no selected epoch on which a call of `S`
depends. -/
theorem Purged.step (hcode : ∀ value c, op = .saveCode value c → sel c.clientID c.subject = false)
    (hdevice : ∀ hash, op = .consumeDevice hash → ∀ c, (p.advance op r).Pending c →
      sel c.clientID c.subject = false)
    (hepoch : (∃ j, S j) → SameEpochs sel sh sh') :
    Purged cfg.env sel S sh' (update ph i (some (p.advance op r))) where
  codes k c hc := by
    rcases exec_codes hex hc with hc | ⟨value, rfl, -⟩
    · exact hP.codes k c hc
    · exact hcode value c rfl
  access k t ht hsel := by
    rcases exec_access hex ht with hold | ⟨value, rfl, hk⟩
    · refine owed_update hi (fun hS howes => ?_) (fun j q hS howes => ?_) (hP.access k t hold hsel)
      · exact (howes.advance ha hex (hepoch ⟨i, hS⟩)).resolve_right (by rw [ht]; nofun)
      · exact howes.of_still (hepoch ⟨j, hS⟩) ⟨rfl, rfl, List.Subset.refl _⟩
    · -- the record is written for a selected claim, so the epoch has moved since the capture
      obtain ⟨-, c, hs, ⟨hcl, hsub, -⟩, -⟩ := ha
      rw [hcl, hsub] at hsel
      obtain ⟨hS, hstale⟩ := hP.pending i p hi c (.inl hs) hsel
      refine ⟨i, _, hS, update_self .., c, t.familyID, value, hk.symm, hsel, .inl ⟨?_, ?_⟩⟩
      · change p.stage.saveAccess _ _ = _
        rw [hs]
        rfl
      · exact hstale.of_same (hepoch ⟨i, hS⟩) hsel rfl
  refresh k t ht hsel := by
    rcases exec_refresh hex ht with hold | ⟨value, rfl, hk⟩
    · refine owed_update hi (fun hS howes => ?_) (fun j q hS howes => ?_) (hP.refresh k t hold hsel)
      · exact (howes.advance ha hex (hepoch ⟨i, hS⟩)).resolve_right (by rw [ht]; nofun)
      · exact howes.of_still (hepoch ⟨j, hS⟩) ⟨rfl, rfl, List.Subset.refl _⟩
    · obtain ⟨hdrawn, c, at_, hs, hcl, hsub, -⟩ := ha
      rw [hcl, hsub] at hsel
      obtain ⟨hS, hstale⟩ := hP.pending i p hi c (.inr ⟨_, _, hs⟩) hsel
      refine ⟨i, _, hS, update_self .., c, t.familyID, value, hk.symm, hdrawn, hsel, .inl ⟨at_, ?_, ?_⟩⟩
      · change p.stage.saveRefresh _ = _
        rw [hs]
        rfl
      · exact hstale.of_same (hepoch ⟨i, hS⟩) hsel rfl
  pending := by
    refine forall_kept (fun c hc hsel => ?_) fun j q hj c hc hsel => ?_
    · have hclaim : ∀ h : sel c.clientID c.subject = false, False := fun h => by
        rw [h] at hsel
        cases hsel
      rcases advance_pending ha hc with ⟨hold, hcap⟩ | hop | hop | ⟨hash, hop⟩
      · obtain ⟨hS, hstale⟩ := hP.pending i p hi c hold hsel
        exact ⟨hS, hstale.of_same (hepoch ⟨i, hS⟩) hsel hcap⟩
      · exact (hclaim (hP.not_claimed hT hi ha hex (.inl hop) hc)).elim
      · exact (hclaim (hP.not_claimed hT hi ha hex (.inr hop) hc)).elim
      · exact (hclaim (hdevice hash hop c hc)).elim
    · obtain ⟨hS, hstale⟩ := hP.pending j q hj c hc hsel
      exact ⟨hS, hstale.of_same (hepoch ⟨j, hS⟩) hsel rfl⟩

theorem Phase.not_pending_start (c : Call) (cl : Claim) : ¬ (Phase.start c).Pending cl := by
  rintro (h | ⟨familyID, at_, h⟩) <;> cases h

include hP in
/-- A starting call leaves the state purged. -/
theorem Purged.start (hi : ph i = none) (c : Call) :
    Purged cfg.env sel S sh (update ph i (some (Phase.start c))) where
  codes := hP.codes
  access k t ht hsel := by
    obtain ⟨j, q, hS, hj, howes⟩ := hP.access k t ht hsel
    exact ⟨j, q, hS, update_of_none hi hj, howes⟩
  refresh k t ht hsel := by
    obtain ⟨j, q, hS, hj, howes⟩ := hP.refresh k t ht hsel
    exact ⟨j, q, hS, update_of_none hi hj, howes⟩
  pending := forall_update
    (fun cl hc _ => absurd hc (Phase.not_pending_start c cl)) fun j q _ hj => hP.pending j q hj

/-- The calls that owe a deletion can be narrowed to those there are. -/
theorem Purged.restrict (S' : ℕ → Prop) (hP : Purged cfg.env sel S sh ph)
    (hS : ∀ j q, ph j = some q → S j → S' j) : Purged cfg.env sel S' sh ph where
  codes := hP.codes
  access k t ht hsel := by
    obtain ⟨j, q, hj, hq, howes⟩ := hP.access k t ht hsel
    exact ⟨j, q, hS j q hq hj, hq, howes⟩
  refresh k t ht hsel := by
    obtain ⟨j, q, hj, hq, howes⟩ := hP.refresh k t ht hsel
    exact ⟨j, q, hS j q hq hj, hq, howes⟩
  pending j q hq c hc hsel := by
    obtain ⟨hj, hstale⟩ := hP.pending j q hq c hc hsel
    exact ⟨hS j q hq hj, hstale⟩

include hP in
/-- **No selected record is left** once the calls that owe a deletion have settled. -/
theorem Purged.none_left (hS : ∀ j q, S j → ph j = some q → q.stage = .settled) :
    (∀ k t, sh.tokens.access.get k = some t → sel t.clientID t.subject = false) ∧
      ∀ k t, sh.tokens.refresh.get k = some t → sel t.clientID t.subject = false := by
  have hnone : ∀ {P : Phase → Prop}, (∀ q, P q → q.stage.Busy) → ¬ ∃ j q, S j ∧ ph j = some q ∧ P q := by
    rintro P hbusy ⟨j, q, hj, hq, howes⟩
    have hq' := hbusy q howes
    rwa [hS j q hj hq] at hq'
  constructor <;> intro k t ht <;> by_contra hsel <;> rw [not_eq_false] at hsel
  · exact hnone (fun _ => Phase.OwesAccess.busy) (hP.access k t ht hsel)
  · exact hnone (fun _ => Phase.OwesRefresh.busy) (hP.refresh k t ht hsel)

/-! ## Runs with one bulk revocation -/

/-- The calls that issue tokens for a code or a refresh token, and the passing of time. -/
def Call.Issues : Call → Prop
  | .exchange _ | .refresh _ | .advanceClock _ => True
  | _ => False

/-- The records a deletion selects. -/
def Op.selects : Op → Option (String → String → Bool)
  | .deleteBySubjectClient subject clientID => some fun c u => u == subject && c == clientID
  | .revokeTokens f => some f.matches
  | _ => none

/-- Every call with a selected claim has captured an epoch that has moved. -/
def Covered (sel : String → String → Bool) (sh : Shared) (ph : ℕ → Option Phase) : Prop :=
  ∀ i p, ph i = some p → ∀ c, p.Pending c → sel c.clientID c.subject = true → p.Stale sh c

/-- The runs of issuing calls with one bulk revocation, the call `n`, which deletes in a covered
state. -/
def PurgeRun (sel : String → String → Bool) (n : ℕ) (σ : System cfg) :
    Event (service cfg) → Prop
  | .start i c => (i ≠ n ∧ c.Issues) ∨ (i = n ∧ c.selects = some sel)
  | .step i _ => ∀ op, σ.nextOp i = some op → op.selects.isSome → Covered sel σ.sh σ.phase

include hex in
/-- The bulk deletion drops what it selects and moves no epoch. -/
theorem exec_selects {sel' : String → String → Bool} (h : op.selects = some sel') :
    sh'.tokens = sh.tokens.dropOwned sel' ∧ sh'.grantEpochs = sh.grantEpochs := by
  cases op with
  | deleteBySubjectClient | revokeTokens =>
    cases h
    cases hex
    exact ⟨rfl, rfl⟩
  | _ => cases h

include hex in
/-- Only `bumpGrantEpoch` moves an epoch. -/
theorem exec_grantEpochs (hbump : ∀ subject clientID, op ≠ .bumpGrantEpoch subject clientID) :
    sh'.grantEpochs = sh.grantEpochs := by
  cases op with
  | bumpGrantEpoch subject clientID => exact absurd rfl (hbump subject clientID)
  | _ =>
    dsimp only [exec] at hex
    try split at hex
    all_goals cases hex
    all_goals rfl

include hi ha hex in
/-- The deletion leaves the state purged, when the calls with a selected claim are among `S` and have
captured an epoch that has moved. -/
theorem purged_of_selects (hcov : ∀ j q, ph j = some q → ∀ c, q.Pending c →
      sel c.clientID c.subject = true → S j ∧ q.Stale sh c) (hop : op.selects = some sel) :
    Purged cfg.env sel S sh' (update ph i (some (p.advance op r))) := by
  obtain ⟨htokens, hepochs⟩ := exec_selects hex hop
  have hE : SameEpochs sel sh sh' := fun c u _ => by rw [Shared.grantEpoch, hepochs, Shared.grantEpoch]
  obtain ⟨hcodes, haccess, hrefresh⟩ := dropOwned_spec sh.tokens sel
  rw [← htokens] at hcodes haccess hrefresh
  refine ⟨fun k c hc => hcodes hc, fun k t ht hsel => ?_, fun k t ht hsel => ?_, ?_⟩
  · rw [haccess ht] at hsel
    cases hsel
  · rw [hrefresh ht] at hsel
    cases hsel
  · refine forall_kept (fun c hc hsel => ?_) fun j q hj c hc hsel => ?_
    · rcases advance_pending ha hc with ⟨hold, hcap⟩ | ⟨value, rfl⟩ | ⟨value, rfl⟩ | ⟨hash, rfl⟩
      · obtain ⟨hS, hstale⟩ := hcov i p hi c hold hsel
        exact ⟨hS, hstale.of_same hE hsel hcap⟩
      all_goals cases hop
    · obtain ⟨hS, hstale⟩ := hcov j q hj c hc hsel
      exact ⟨hS, hstale.of_same hE hsel rfl⟩

/-- What holds along a run with one bulk revocation: the calls are issuing calls and the revocation;
a revocation of a grant that has deleted does nothing more; and once the revocation has deleted, the
state is purged. -/
structure PurgeInv (env : Env) (sel : String → String → Bool) (n : ℕ) (S : ℕ → Prop) (sh : Shared)
    (ph : ℕ → Option Phase) : Prop where
  calls : ∀ i p, ph i = some p → (i ≠ n ∧ p.call.Issues) ∨ (i = n ∧ p.call.selects = some sel)
  settled : ∀ i p, ph i = some p → ∀ subject clientID, p.call = .revokeGrant subject clientID →
    p.purged = true → p.stage = .settled
  purged : ∀ p, ph n = some p → p.purged = true → Purged env sel S sh ph

include ha in
/-- A deletion is the one the call was asked for. -/
theorem selects_of_allowed (hop : op.selects.isSome) : p.call.selects = op.selects ∧ p.purged = false := by
  cases op with
  | deleteBySubjectClient subject clientID =>
    obtain ⟨-, hpurged, hcall⟩ := ha
    exact ⟨by rw [hcall]; rfl, hpurged⟩
  | revokeTokens f =>
    obtain ⟨hpurged, hcall | ⟨id, hcall, rfl⟩⟩ := ha
    all_goals exact ⟨by rw [hcall]; rfl, hpurged⟩
  | _ => cases hop

/-- Only a deletion marks a call as having deleted. -/
theorem advance_purged_of (hop : op.selects = none) : (p.advance op r).purged = p.purged := by
  cases op with
  | deleteBySubjectClient | revokeTokens => cases hop
  | grantEpoch => exact readEpoch_cases fun _ _ => rfl
  | _ => rfl

include hT hi ha hex in
/-- **Step lemma** for a run with one bulk revocation. -/
theorem PurgeInv.step (hI : PurgeInv cfg.env sel n S sh ph) (hcov : op.selects.isSome → Covered sel sh ph)
    (hS : p.purged = false → op.selects.isSome → ∀ j q, ph j = some q → S j) :
    PurgeInv cfg.env sel n S sh' (update ph i (some (p.advance op r))) where
  calls := by
    refine forall_kept ?_ hI.calls
    rw [advance_call]
    exact hI.calls i p hi
  settled := by
    refine forall_kept (fun subject clientID hcall hpurged => ?_) hI.settled
    rw [advance_call] at hcall
    cases op with
    | deleteBySubjectClient => rfl
    | revokeTokens f =>
      obtain ⟨-, h | ⟨id, h, -⟩⟩ := ha <;> rw [hcall] at h <;> cases h
    | _ =>
      rw [advance_purged_of rfl] at hpurged
      exact advance_settled ha (hI.settled i p hi subject clientID hcall hpurged)
  purged p' hp' hpurged := by
    cases hop : op.selects with
    | some sel' =>
      -- the deletion: it is made by the one call that is asked for it
      have hsome : op.selects.isSome := by rw [hop]; rfl
      obtain ⟨hcall, hnot⟩ := selects_of_allowed ha hsome
      rw [hop] at hcall
      have hsel : sel' = sel := by
        rcases hI.calls i p hi with ⟨-, h⟩ | ⟨-, h⟩
        · cases hc : p.call <;> rw [hc] at h hcall <;> first | exact h.elim | cases hcall
        · exact Option.some.inj (hcall.symm.trans h)
      exact purged_of_selects hi ha hex
        (fun j q hj c hc hown => ⟨hS hnot hsome j q hj, hcov hsome j q hj c hc hown⟩) (hsel ▸ hop)
    | none =>
      have hbefore : ∃ q, ph n = some q ∧ q.purged = true := by
        obtain ⟨rfl, rfl⟩ | ⟨hni, hp'⟩ := update_cases hp'
        · rw [advance_purged_of hop] at hpurged
          exact ⟨p, hi, hpurged⟩
        · exact ⟨p', hp', hpurged⟩
      obtain ⟨q, hq, hqp⟩ := hbefore
      -- no call that is left stores a code, redeems a device request or moves an epoch
      refine (hI.purged q hq hqp).step hT hi ha hex ?_ ?_ fun _ => ?_
      · rintro value c rfl
        obtain ⟨-, -, req, hcall, -⟩ := ha
        rcases hI.calls i p hi with ⟨-, h⟩ | ⟨-, h⟩ <;> rw [hcall] at h <;> cases h
      · rintro hash rfl
        obtain ⟨-, ⟨req, hcall⟩, -⟩ := ha
        rcases hI.calls i p hi with ⟨-, h⟩ | ⟨-, h⟩ <;> rw [hcall] at h <;> cases h
      · have hbump : ∀ subject clientID, op ≠ .bumpGrantEpoch subject clientID := by
          rintro subject clientID rfl
          obtain ⟨hopen, hcall⟩ := ha
          rcases hI.calls i p hi with ⟨-, h⟩ | ⟨rfl, -⟩
          · rw [hcall] at h
            exact h
          · cases hi.symm.trans hq
            rw [hI.settled i p hi subject clientID hcall hqp] at hopen
            cases hopen
        intro c u _
        rw [Shared.grantEpoch, exec_grantEpochs hex hbump, Shared.grantEpoch]

theorem PurgeInv.start (hI : PurgeInv cfg.env sel n S sh ph) (hi : ph i = none) {c : Call}
    (hc : (i ≠ n ∧ c.Issues) ∨ (i = n ∧ c.selects = some sel)) :
    PurgeInv cfg.env sel n S sh (update ph i (some (Phase.start c))) where
  calls := forall_kept hc hI.calls
  settled := forall_kept (fun _ _ _ h => (by cases h)) hI.settled
  purged p hp hpurged := by
    obtain ⟨rfl, rfl⟩ | ⟨hni, hp⟩ := update_cases hp
    · cases hpurged
    · exact (hI.purged p hp hpurged).start hi c

/-- **Run lemma**: a bulk revocation that deletes in a covered state is final. Once it has returned
and the calls in progress at that moment have returned, no selected record is stored, then or
later. -/
theorem purge_final {σ₀ σ₁ σ₂ : System cfg} (h₀ : σ₀.Idle)
    (h₁ : Pool.Reaches (PurgeRun sel n) σ₀ σ₁) {a : Reply} (hr : σ₁.reply n = some (.ok a))
    (h₂ : Pool.Reaches (PurgeRun sel n) σ₁ σ₂) (hfin : ∀ i, σ₁.InFlight i → ¬ σ₂.InFlight i) :
    (∀ k t, σ₂.sh.tokens.access.get k = some t → sel t.clientID t.subject = false) ∧
      ∀ k t, σ₂.sh.tokens.refresh.get k = some t → sel t.clientID t.subject = false := by
  -- up to the return: the calls that owe a deletion are among all calls
  obtain ⟨hsound₁, hI₁⟩ := System.invariant (I := PurgeInv cfg.env sel n fun _ => True) h₁ h₀.sound
    (fun σ i c hok hI hi => hI.start hi hok)
    (fun σ i ω p op r sh hok hT hI hi hop ha hex =>
      hI.step hT hi ha hex (hok op hop) fun _ _ _ _ _ => trivial)
    ⟨fun i p hi => absurd (h₀.phase i) (by rw [hi]; nofun),
      fun i p hi => absurd (h₀.phase i) (by rw [hi]; nofun),
      fun p hp => absurd (h₀.phase n) (by rw [hp]; nofun)⟩
  obtain ⟨pn, hpn⟩ := phase_of_reply hr
  obtain ⟨-, -, hdone⟩ := hsound₁.conforming.done hpn hr
  have hpurged : pn.purged = true := by
    rcases hI₁.calls n pn hpn with ⟨hne, -⟩ | ⟨-, hsel⟩
    · exact absurd rfl hne
    · exact hdone (by rw [hsel]; rfl) rfl
  -- from there on: they are among the calls in progress at the return
  let S : ℕ → Prop := fun i => ∃ q, σ₁.phase i = some q
  have hP := (hI₁.purged pn hpn hpurged).restrict S fun j q hj _ => ⟨q, hj⟩
  have hrun : σ₂.Sound ∧ (PurgeInv cfg.env sel n S σ₂.sh σ₂.phase ∧
      ∃ p, σ₂.phase n = some p ∧ p.purged = true) := by
    refine System.invariant
      (I := fun sh ph => PurgeInv cfg.env sel n S sh ph ∧ ∃ p, ph n = some p ∧ p.purged = true)
      h₂ hsound₁ ?_ ?_ ⟨⟨hI₁.calls, hI₁.settled, fun _ _ _ => hP⟩, pn, hpn, hpurged⟩
    · rintro σ i c hok ⟨hI, p, hp, hpurged⟩ hi
      exact ⟨hI.start hi hok, p, update_of_none hi hp, hpurged⟩
    · rintro σ i ω p op r sh hok hT ⟨hI, q, hq, hpurged⟩ hi hop ha hex
      refine ⟨hI.step hT hi ha hex (hok op hop) fun hnot hsome => ?_, ?_⟩
      · -- the one call that may delete has done so
        have hcall := (selects_of_allowed ha hsome).1
        rcases hI.calls i p hi with ⟨-, h⟩ | ⟨rfl, -⟩
        · rw [← hcall] at hsome
          cases hc : p.call <;> rw [hc] at h hsome <;> first | exact h.elim | cases hsome
        · cases hi.symm.trans hq
          rw [hnot] at hpurged
          cases hpurged
      · by_cases hni : n = i
        · subst hni
          cases hi.symm.trans hq
          exact ⟨_, update_self .., advance_purged p op r hpurged⟩
        · exact ⟨q, by rw [update_of_ne hni, hq], hpurged⟩
  obtain ⟨hsound₂, hI₂, p₂, hp₂, hpurged₂⟩ := hrun
  refine (hI₂.purged p₂ hp₂ hpurged₂).none_left ?_
  rintro j q ⟨q₁, hq₁⟩ hq
  have hreply : ∃ b, σ₂.reply j = some b := by
    rcases inFlight_or_reply hq₁ with hfl | ⟨b, hb⟩
    · exact (inFlight_or_reply hq).resolve_left (hfin j hfl)
    · exact ⟨b, h₂.reply hb⟩
  obtain ⟨b, hb⟩ := hreply
  exact (hsound₂.conforming.done hq hb).1

/-- The call has claimed a selected grant and has not written its refresh record. -/
def Phase.issuing (p : Phase) (sel : String → String → Bool) : Bool :=
  match p.stage with
  | .claimed c | .minting c _ _ => sel c.clientID c.subject
  | _ => false

theorem Phase.Pending.issuing (h : p.Pending c) : p.issuing sel = sel c.clientID c.subject := by
  rcases h with h | ⟨familyID, at_, h⟩ <;> simp only [Phase.issuing, h]

/-! ## `RevokeGrant` -/

/-- The owner a `RevokeGrant` selects. -/
def ownedBy (subject clientID : String) : String → String → Bool :=
  fun c u => u == subject && c == clientID

/-- The events of one `RevokeGrant`, the call `n`, with any number of `Exchange` and `Refresh` calls
and time passing. -/
def OneRevokeGrant (subject clientID : String) (n : ℕ) : Event (service cfg) → Bool
  | .start i (.revokeGrant s c) => i == n && s == subject && c == clientID
  | .start i (.exchange _) | .start i (.refresh _) | .start i (.advanceClock _) => i != n
  | .start _ _ => false
  | .step _ _ => true

/-- When the records are deleted, every call that has claimed a grant of the owner and has not
written its refresh record has captured another epoch than the current one: it read the epoch before
the revocation moved it. -/
def CapturedBefore (subject clientID : String) (σ : System cfg) : Event (service cfg) → Prop
  | .start _ _ => True
  | .step i _ => ∀ op, σ.nextOp i = some op → op.selects.isSome → ∀ j p, σ.phase j = some p →
    p.issuing (ownedBy subject clientID) = true → p.captured ≠ σ.sh.grantEpoch subject clientID

theorem purgeRun_of_capturedBefore {subject clientID : String} (he : OneRevokeGrant subject clientID n e = true)
    (hc : CapturedBefore subject clientID σ e) : PurgeRun (ownedBy subject clientID) n σ e := by
  cases e with
  | start i c =>
    cases c with
    | revokeGrant s c =>
      simp only [OneRevokeGrant, and_eq_true, beq_iff_eq] at he
      obtain ⟨⟨rfl, rfl⟩, rfl⟩ := he
      exact .inr ⟨rfl, rfl⟩
    | exchange | refresh | advanceClock =>
      simp only [OneRevokeGrant, bne_iff_ne] at he
      exact .inl ⟨he, trivial⟩
    | _ => cases he
  | step i ω =>
    intro op hop hsel j p hj c hpending hown
    have hne := hc op hop hsel j p hj (hpending.issuing.trans hown)
    simp only [ownedBy, and_eq_true, beq_iff_eq] at hown
    rw [Phase.Stale, hown.1, hown.2]
    exact hne

/-- **A revoked grant stays revoked**: in every run of one `RevokeGrant` with any number of
`Exchange` and `Refresh` calls in which the issuing calls caught between claim and write by the
deletion had captured the epoch before it was moved, no record of the grant is stored once the
revocation has returned and the calls in progress at that moment have returned. -/
theorem revokeGrant_final {subject clientID : String} {σ₀ σ₁ σ₂ : System cfg} (h₀ : σ₀.Idle)
    (h₁ : Pool.Reaches (fun σ e => OneRevokeGrant subject clientID n e = true ∧
      CapturedBefore subject clientID σ e) σ₀ σ₁) {a : Reply} (hr : σ₁.reply n = some (.ok a))
    (h₂ : Pool.Reaches (fun σ e => OneRevokeGrant subject clientID n e = true ∧
      CapturedBefore subject clientID σ e) σ₁ σ₂) (hfin : ∀ i, σ₁.InFlight i → ¬ σ₂.InFlight i) :
    (∀ k t, σ₂.sh.tokens.access.get k = some t → ¬ (t.subject = subject ∧ t.clientID = clientID)) ∧
      ∀ k t, σ₂.sh.tokens.refresh.get k = some t →
        ¬ (t.subject = subject ∧ t.clientID = clientID) := by
  have hguard : ∀ (σ : System cfg) e, OneRevokeGrant subject clientID n e = true ∧
      CapturedBefore subject clientID σ e → PurgeRun (ownedBy subject clientID) n σ e :=
    fun σ e h => purgeRun_of_capturedBefore h.1 h.2
  obtain ⟨haccess, hrefresh⟩ := purge_final h₀ (h₁.mono hguard) hr (h₂.mono hguard) hfin
  constructor
  · rintro k t ht ⟨rfl, rfl⟩
    simpa [ownedBy] using haccess k t ht
  · rintro k t ht ⟨rfl, rfl⟩
    simpa [ownedBy] using hrefresh k t ht

/-! ### A run in which the revocation is lost -/

/-- A small deployment: one scope, one public client. -/
def sampleConfig : Config where
  env := sampleEnv
  issuer := "https://as"
  scopes := (∅ : Registry).set "a.b" ⟨"a.b", "read", "", .low, false, []⟩
  atTTL := 10
  rtTTL := 20
  codeTTL := 5
  deviceTTL := 5
  pollInterval := 1
  verifyPath := "/device"
  atTTL_pos := by decide
  rtTTL_pos := by decide
  codeTTL_pos := by decide
  deviceTTL_pos := by decide
  pollInterval_pos := by decide

/-- A PKCE challenge of the right length. -/
def sampleChallenge : String := "aaaaaaaaaaaaaaaaaaaaaaaaaaaaaaaaaaaaaaaaaaa"

/-- The client `c` is registered and holds a code of the subject `s`. -/
def sampleStart : System sampleConfig where
  sh := { Shared.init 0 with
    clients := (∅ : Dict String Client).set "c"
      ⟨"c", "app", .public, .active, 0, ["https://r"], ["a.b"], false, []⟩
    tokens := { MemoryStore.empty with
      codes := (∅ : Dict _ _).set "h:code"
        ⟨"c", "s", ["a.b"], "https://r", sampleChallenge, "S256", 5⟩ } }
  threads _ := none

/-- The client redeems its code. -/
def sampleExchange : Call := .exchange ⟨"c", "", "code", "https://r", sampleChallenge⟩

/-- So many operations of one call that draw nothing. -/
def steps (i count : ℕ) : List (Event (service sampleConfig)) :=
  List.replicate count (.step i "")

/-- A record of the grant of `s` to `c` is stored under the key. -/
def storesAccess (σ : System cfg) (k : String) : Bool :=
  (σ.sh.tokens.access.get k).any fun t => t.subject == "s" && t.clientID == "c"

@[inherit_doc storesAccess]
def storesRefresh (σ : System cfg) (k : String) : Bool :=
  (σ.sh.tokens.refresh.get k).any fun t => t.subject == "s" && t.clientID == "c"

/-- The schedule up to the return of the revocation: it moves the epoch; the exchange reads the moved
epoch and claims the code; the revocation deletes and returns. -/
def lostUntilReturn : List (Event (service sampleConfig)) :=
  [.start 0 (.revokeGrant "s" "c"), .start 1 sampleExchange] ++ steps 0 2 ++ steps 1 7 ++ steps 0 2

/-- The exchange goes on: it draws its values, writes the pair and finds the epoch as it read it. -/
def lostAfterReturn : List (Event (service sampleConfig)) :=
  [.step 1 "at", .step 1 "rt", .step 1 "family"] ++ steps 1 5

/-- A schedule of two calls whose events meet a condition. -/
theorem reaches_of_two (one : Event (service sampleConfig) → Bool) {σ τ : System sampleConfig}
    (es : List (Event (service sampleConfig))) (hσ : σ.Below 2)
    (h : σ.runIf (fun _ e => e.below 2 && one e) es = some τ) :
    Pool.Reaches (fun _ e => one e = true) σ τ ∧ τ.Below 2 :=
  reaches_of_runIf es (fun _ _ _ h => and_eq_true_iff.1 h) hσ h

/-- **A lost revocation**: where the deletion falls between an exchange's claim and its writes, and
that exchange read the epoch after it was moved, both calls succeed and the pair stays. -/
theorem revokeGrant_lost : ∃ σ₁ σ₂ : System sampleConfig,
    Pool.Reaches (fun _ e => OneRevokeGrant "s" "c" 0 e = true) sampleStart σ₁ ∧
      (∃ a, σ₁.reply 0 = some (.ok a)) ∧
      Pool.Reaches (fun _ e => OneRevokeGrant "s" "c" 0 e = true) σ₁ σ₂ ∧
      (∀ i, ¬ σ₂.InFlight i) ∧ storesAccess σ₂ "h:at" = true ∧ storesRefresh σ₂ "h:rt" = true := by
  obtain ⟨h₁, hb₁⟩ := reaches_of_two (OneRevokeGrant "s" "c" 0) (σ := sampleStart) lostUntilReturn
    (fun _ _ => rfl) rfl
  obtain ⟨h₂, hb₂⟩ := reaches_of_two (OneRevokeGrant "s" "c" 0) lostAfterReturn hb₁ rfl
  exact ⟨_, _, h₁, ⟨_, rfl⟩, h₂, hb₂.not_inFlight (by decide), rfl, rfl⟩

/-- The schedule in which the exchange reads the epoch and claims the code before the revocation
moves it; the pair it writes is deleted again. -/
def undoneUntilReturn : List (Event (service sampleConfig)) :=
  [.start 0 (.revokeGrant "s" "c"), .start 1 sampleExchange] ++ steps 1 7 ++ steps 0 4

@[inherit_doc undoneUntilReturn]
def undoneAfterReturn : List (Event (service sampleConfig)) :=
  [.step 1 "at", .step 1 "rt", .step 1 "family"] ++ steps 1 7

/-- The condition on the deletion, decided for the first `m` calls. -/
def atDeletion (m : ℕ) (P : Shared → Phase → Bool) (σ : System cfg) : Event (service cfg) → Bool
  | .start _ _ => true
  | .step i _ => !((σ.nextOp i).any fun op => op.selects.isSome) ||
    (List.range m).all fun j => (σ.phase j).all (P σ.sh)

theorem atDeletion_spec {m : ℕ} {P : Shared → Phase → Bool} (hσ : σ.Below m)
    (h : atDeletion m P σ (.step i ω) = true) (hop : σ.nextOp i = some op)
    (hsel : op.selects.isSome) {j : ℕ} (hj : σ.phase j = some p) : P σ.sh p = true := by
  rw [atDeletion, hop, Option.any_some, hsel] at h
  exact hσ.forall_phase h hj

theorem revokeGrant_final_undone : ∃ σ₁ σ₂ : System sampleConfig,
    σ₁.InFlight 1 ∧ (∀ i, ¬ σ₂.InFlight i) ∧
      (∀ k t, σ₂.sh.tokens.access.get k = some t → ¬ (t.subject = "s" ∧ t.clientID = "c")) ∧
      ∀ k t, σ₂.sh.tokens.refresh.get k = some t → ¬ (t.subject = "s" ∧ t.clientID = "c") := by
  let check : System sampleConfig → Event (service sampleConfig) → Bool := fun σ e =>
    e.below 2 && (OneRevokeGrant "s" "c" 0 e && atDeletion 2 (fun sh p =>
      !p.issuing (ownedBy "s" "c") || p.captured != sh.grantEpoch "s" "c") σ e)
  have hcheck : ∀ (σ : System sampleConfig) e, σ.Below 2 → check σ e = true →
      e.below 2 = true ∧ OneRevokeGrant "s" "c" 0 e = true ∧ CapturedBefore "s" "c" σ e := by
    intro σ e hσ h
    simp only [check, and_eq_true] at h
    refine ⟨h.1, h.2.1, ?_⟩
    cases e with
    | start i c => trivial
    | step i ω =>
      intro op hop hsel j p hj hissuing
      have hp := atDeletion_spec hσ h.2.2 hop hsel hj
      rw [hissuing] at hp
      simpa using hp
  obtain ⟨h₁, hb₁⟩ := reaches_of_runIf undoneUntilReturn hcheck (fun _ _ => rfl)
    (show sampleStart.runIf check _ = some _ from rfl)
  obtain ⟨h₂, hb₂⟩ := reaches_of_runIf undoneAfterReturn hcheck hb₁ rfl
  have hidle := hb₂.not_inFlight (by decide)
  exact ⟨(sampleStart.runIf check undoneUntilReturn).get rfl, _, rfl, hidle,
    revokeGrant_final (fun _ => rfl) h₁ rfl h₂ fun i _ => hidle i⟩

/-! ## `RevokeTokens` and the deletion of a client -/

/-- The events of one bulk revocation, the call `n`, made directly or by the deletion of a client,
with any number of `Exchange` and `Refresh` calls and time passing. -/
def OneRevokeTokens (f : TokenFilter) (n : ℕ) : Event (service cfg) → Bool
  | .start i (.revokeTokens g) => i == n && g == f
  | .start i (.deleteClient id) => i == n && f == ⟨id, ""⟩
  | .start i (.exchange _) | .start i (.refresh _) | .start i (.advanceClock _) => i != n
  | .start _ _ => false
  | .step _ _ => true

/-- When the records are deleted, no call has claimed a grant the filter matches without having
written its refresh record. -/
def NoneIssuing (f : TokenFilter) (σ : System cfg) : Event (service cfg) → Prop
  | .start _ _ => True
  | .step i _ => ∀ op, σ.nextOp i = some op → op.selects.isSome → ∀ j p, σ.phase j = some p →
    p.issuing f.matches = false

theorem purgeRun_of_noneIssuing {f : TokenFilter}
    (he : OneRevokeTokens f n e = true) (hc : NoneIssuing f σ e) : PurgeRun f.matches n σ e := by
  cases e with
  | start i c =>
    cases c with
    | revokeTokens g =>
      simp only [OneRevokeTokens, and_eq_true, beq_iff_eq] at he
      obtain ⟨rfl, rfl⟩ := he
      exact .inr ⟨rfl, rfl⟩
    | deleteClient id =>
      simp only [OneRevokeTokens, and_eq_true, beq_iff_eq] at he
      obtain ⟨rfl, rfl⟩ := he
      exact .inr ⟨rfl, rfl⟩
    | exchange | refresh | advanceClock =>
      simp only [OneRevokeTokens, bne_iff_ne] at he
      exact .inl ⟨he, trivial⟩
    | _ => cases he
  | step i ω =>
    intro op hop hsel j p hj c hpending hown
    have hnot := hc op hop hsel j p hj
    rw [hpending.issuing, hown] at hnot
    cases hnot

/-- **A bulk revocation is final** in every run with any number of `Exchange` and `Refresh` calls in
which the deletion catches no matching grant between claim and write: no matching record is stored
once it has returned and the calls in progress at that moment have returned. -/
theorem revokeTokens_final {f : TokenFilter} {σ₀ σ₁ σ₂ : System cfg} (h₀ : σ₀.Idle)
    (h₁ : Pool.Reaches (fun σ e => OneRevokeTokens f n e = true ∧ NoneIssuing f σ e) σ₀ σ₁)
    {a : Reply} (hr : σ₁.reply n = some (.ok a))
    (h₂ : Pool.Reaches (fun σ e => OneRevokeTokens f n e = true ∧ NoneIssuing f σ e) σ₁ σ₂)
    (hfin : ∀ i, σ₁.InFlight i → ¬ σ₂.InFlight i) :
    (∀ k t, σ₂.sh.tokens.access.get k = some t → f.matches t.clientID t.subject = false) ∧
      ∀ k t, σ₂.sh.tokens.refresh.get k = some t → f.matches t.clientID t.subject = false := by
  have hguard : ∀ (σ : System cfg) e, OneRevokeTokens f n e = true ∧ NoneIssuing f σ e →
      PurgeRun f.matches n σ e := fun σ e h => purgeRun_of_noneIssuing h.1 h.2
  exact purge_final h₀ (h₁.mono hguard) hr (h₂.mono hguard) hfin

/-- The client is deleted between the exchange's claim and its writes. -/
def deletedUntilReturn : List (Event (service sampleConfig)) :=
  [.start 0 (.deleteClient "c"), .start 1 sampleExchange] ++ steps 1 7 ++ steps 0 4

/-- **A lost bulk revocation**: no epoch is moved, so an exchange that had claimed its code when the
client was deleted writes its pair and keeps it. -/
theorem revokeTokens_lost : ∃ σ₁ σ₂ : System sampleConfig,
    Pool.Reaches (fun _ e => OneRevokeTokens ⟨"c", ""⟩ 0 e = true) sampleStart σ₁ ∧
      (∃ a, σ₁.reply 0 = some (.ok a)) ∧
      Pool.Reaches (fun _ e => OneRevokeTokens ⟨"c", ""⟩ 0 e = true) σ₁ σ₂ ∧
      (∀ i, ¬ σ₂.InFlight i) ∧ storesAccess σ₂ "h:at" = true ∧ storesRefresh σ₂ "h:rt" = true := by
  obtain ⟨h₁, hb₁⟩ := reaches_of_two (OneRevokeTokens ⟨"c", ""⟩ 0) (σ := sampleStart) deletedUntilReturn
    (fun _ _ => rfl) rfl
  obtain ⟨h₂, hb₂⟩ := reaches_of_two (OneRevokeTokens ⟨"c", ""⟩ 0) lostAfterReturn hb₁ rfl
  exact ⟨_, _, h₁, ⟨_, rfl⟩, h₂, hb₂.not_inFlight (by decide), rfl, rfl⟩

/-- The client is deleted while the exchange has read its code and not claimed it. -/
def refusedUntilReturn : List (Event (service sampleConfig)) :=
  [.start 0 (.deleteClient "c"), .start 1 sampleExchange] ++ steps 1 4 ++ steps 0 4

theorem revokeTokens_final_refused : ∃ σ₁ σ₂ : System sampleConfig,
    σ₁.InFlight 1 ∧ (∀ i, ¬ σ₂.InFlight i) ∧
      (∀ k t, σ₂.sh.tokens.access.get k = some t →
        TokenFilter.matches ⟨"c", ""⟩ t.clientID t.subject = false) ∧
      ∀ k t, σ₂.sh.tokens.refresh.get k = some t →
        TokenFilter.matches ⟨"c", ""⟩ t.clientID t.subject = false := by
  let check : System sampleConfig → Event (service sampleConfig) → Bool := fun σ e =>
    e.below 2 && (OneRevokeTokens ⟨"c", ""⟩ 0 e &&
      atDeletion 2 (fun _ p => !p.issuing (TokenFilter.matches ⟨"c", ""⟩)) σ e)
  have hcheck : ∀ (σ : System sampleConfig) e, σ.Below 2 → check σ e = true →
      e.below 2 = true ∧ OneRevokeTokens ⟨"c", ""⟩ 0 e = true ∧ NoneIssuing ⟨"c", ""⟩ σ e := by
    intro σ e hσ h
    simp only [check, and_eq_true] at h
    refine ⟨h.1, h.2.1, ?_⟩
    cases e with
    | start i c => trivial
    | step i ω =>
      intro op hop hsel j p hj
      simpa using atDeletion_spec hσ h.2.2 hop hsel hj
  obtain ⟨h₁, hb₁⟩ := reaches_of_runIf refusedUntilReturn hcheck (fun _ _ => rfl)
    (show sampleStart.runIf check _ = some _ from rfl)
  obtain ⟨h₂, hb₂⟩ := reaches_of_runIf (steps 1 3) hcheck hb₁ rfl
  have hidle := hb₂.not_inFlight (by decide)
  exact ⟨(sampleStart.runIf check refusedUntilReturn).get rfl, _, rfl, hidle,
    revokeTokens_final (fun _ => rfl) h₁ rfl h₂ fun i _ => hidle i⟩

end Re0Auth.OAuth

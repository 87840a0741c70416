import Re0Auth.OAuth.Service

/-!
# The order of a call's operations

Every call of the service goes about its operations in a fixed order: it reads a grant and its
epoch, claims the grant, writes the access record and then the refresh record, reads the epoch
again and, if that has moved, deletes both. This module states the order as a typestate.

* **`Phase`**: what a call has read, drawn, locked and claimed so far, and its **`Stage`**;
* **`Phase.advance`**: the phase after an operation;
* **`Allowed`**: the operations that are in order in a phase.
-/

namespace Re0Auth.OAuth

open Lib

/-- A grant a call has claimed: a code, a refresh token or an approved device request. `familyID`
is empty for a first issuance; `clientID` is the client the tokens go to. -/
structure Claim where
  clientID : String
  subject : String
  scopes : List Scope
  familyID : String
  deriving DecidableEq

/-- **Stage**: how far a call has come in issuing or revoking. -/
inductive Stage
  /-- Nothing has been claimed or changed. -/
  | «open»
  /-- A grant has been claimed; no record is written. -/
  | claimed (c : Claim)
  /-- The access record is written. -/
  | minting (c : Claim) (familyID at_ : String)
  /-- Both records are written; the epoch has not been read again. -/
  | minted (c : Claim) (familyID at_ rt : String)
  /-- The epoch was found unmoved. -/
  | kept (c : Claim) (familyID at_ rt : String)
  /-- The epoch was found moved; both records are to be deleted. -/
  | undo (c : Claim) (familyID at_ rt : String)
  /-- The access record is deleted again. -/
  | undoRefresh (c : Claim) (familyID rt : String)
  /-- The claim was reported as a replay. -/
  | reused (familyID : String)
  /-- The family of a replay was revoked. -/
  | killed (familyID : String)
  /-- The epoch was moved; the records are to be deleted. -/
  | bumped (subject clientID : String)
  /-- Nothing further is written. -/
  | settled
  deriving DecidableEq

/-- The stages in which a call may stop. -/
def Stage.Final : Stage → Prop
  | «open» | claimed _ | kept _ _ _ _ | killed _ | settled => True
  | _ => False

/-- The stages in which a call has written a record it may still have to delete. -/
def Stage.Busy : Stage → Prop
  | minting _ _ _ | minted _ _ _ _ | undo _ _ _ _ | undoRefresh _ _ _ => True
  | _ => False

/-- **Phase** of a call. -/
structure Phase where
  /-- The call, with its arguments. -/
  call : Call
  /-- The token values the caller presented. -/
  presented : List String
  /-- The values this call has drawn. -/
  drawn : List String
  /-- The code record `GetCode` returned, with the value it was asked for. -/
  readCode : Option (String × AuthorizationCode)
  /-- What `GetRefresh` returned, with the value it was asked for. -/
  readRefresh : Option (String × Option RefreshToken)
  /-- The device request `GetDevice` returned. -/
  readDevice : Option DeviceAuthorizationRecord
  /-- The grant epoch read before the claim, with the subject and client it belongs to. -/
  epoch : Option (String × String × UInt64)
  /-- What `RefreshFamily` answered, with the value it was asked for. -/
  family : Option (String × Except Error String)
  /-- The turnstile this call holds. -/
  held : Option String
  /-- The call has carried out its bulk deletion. -/
  purged : Bool
  stage : Stage

/-- The phase of a call that has done nothing. -/
def Phase.start (c : Call) : Phase :=
  ⟨c, [], [], none, none, none, none, none, none, false, .open⟩

/-- The epoch a call compares with: zero where it captured none. -/
def Phase.captured (p : Phase) : UInt64 := (p.epoch.map (·.2.2)).getD 0

namespace Stage

/-- After a code was claimed, or the claim refused. -/
def ofCode : Except Error AuthorizationCode → Stage
  | .ok c => .claimed ⟨c.clientID, c.subject, c.scopes, ""⟩
  | .error _ => .settled

/-- After a refresh value was claimed, reported as a replay, or refused. -/
def ofRefresh : Except Error RefreshToken → Stage
  | .ok t => .claimed ⟨t.clientID, t.subject, t.scopes, t.familyID⟩
  | .error (.refreshTokenReused familyID) => .reused familyID
  | .error _ => .settled

/-- After a device request was consumed: the tokens go to the client of the request that was
read. -/
def ofDevice (read : Option DeviceAuthorizationRecord) :
    Option DeviceAuthorizationRecord → Stage
  | some d => .claimed ⟨(read.map (·.clientID)).getD "", d.subject, d.scopes, ""⟩
  | none => .settled

/-- After `SaveAccess`. -/
def saveAccess (familyID value : String) : Stage → Stage
  | claimed c => minting c familyID value
  | s => s

/-- After `SaveRefresh`. -/
def saveRefresh (value : String) : Stage → Stage
  | minting c familyID at_ => minted c familyID at_ value
  | s => s

/-- After `DeleteAccess`. -/
def deleteAccess : Stage → Stage
  | undo c familyID _ rt => undoRefresh c familyID rt
  | s => s

/-- After `DeleteRefresh`. -/
def deleteRefresh : Stage → Stage
  | undoRefresh _ _ _ => settled
  | s => s

end Stage

/-- After the grant epoch was read: before the claim it is captured, after the pair was written it
is compared with what was captured. -/
def Phase.readEpoch (p : Phase) (subject clientID : String) (e : UInt64) : Phase :=
  match p.stage with
  | .open => { p with epoch := some (subject, clientID, e) }
  | .minted c familyID at_ rt =>
    { p with stage := if e = p.captured then .kept c familyID at_ rt else .undo c familyID at_ rt }
  | _ => p

/-- **The phase after an operation** with its result. -/
def Phase.advance (p : Phase) (op : Op) : op.Res → Phase :=
  match op with
  | .receive values => fun _ => { p with presented := values }
  | .respond _ => fun _ => { p with stage := .settled }
  | .newToken => fun v => { p with drawn := v :: p.drawn }
  | .getCode value => fun r => { p with readCode := r.toOption.map (value, ·) }
  | .getRefresh value => fun r => { p with readRefresh := some (value, r.toOption) }
  | .getDevice _ => fun r => { p with readDevice := r.toOption }
  | .refreshFamily value => fun r => { p with family := some (value, r) }
  | .grantEpoch subject clientID => fun e => p.readEpoch subject clientID e
  | .consumeCode _ => fun r => { p with stage := .ofCode r }
  | .consumeRefresh _ => fun r => { p with stage := .ofRefresh r }
  | .consumeDevice _ => fun r => { p with stage := .ofDevice p.readDevice r }
  | .saveAccess value t => fun _ => { p with stage := p.stage.saveAccess t.familyID value }
  | .saveRefresh value _ => fun _ => { p with stage := p.stage.saveRefresh value }
  | .deleteAccess _ => fun _ => { p with stage := p.stage.deleteAccess }
  | .deleteRefresh _ => fun _ => { p with stage := p.stage.deleteRefresh }
  | .revokeRefreshFamily familyID => fun _ => { p with stage := .killed familyID }
  | .bumpGrantEpoch subject clientID => fun _ => { p with stage := .bumped subject clientID }
  | .deleteBySubjectClient _ _ => fun _ => { p with purged := true, stage := .settled }
  | .revokeTokens _ => fun _ => { p with purged := true }
  | .lock key => fun _ => { p with held := some key }
  | .unlock _ => fun _ => { p with held := none, stage := .settled }
  | _ => fun _ => p

/-- The grant epoch was captured for the subject of the refresh record that was read, or no record
was found and none was captured. -/
def Phase.CapturedRefresh (p : Phase) (value : String) : Prop :=
  (p.readRefresh = some (value, none) ∧ p.epoch = none) ∨
    ∃ t clientID e, p.readRefresh = some (value, some t) ∧ p.epoch = some (t.subject, clientID, e)

/-- The turnstile held is the one of the value's family. -/
def Phase.HoldsFamily (env : Env) (p : Phase) (value : String) : Prop :=
  ∃ answer key, p.family = some (value, answer) ∧ refreshKey env value answer = .ok key ∧
    p.held = some key

/-- A record about to be written belongs to the claim: its owner, its scopes, its family. -/
def Claim.Covers (c : Claim) (clientID subject : String) (scopes : List Scope) : Prop :=
  clientID = c.clientID ∧ subject = c.subject ∧ scopes ⊆ c.scopes

/-- A decision that is recorded as an approval is the one the call was asked to make. -/
def Call.Decides (c : Call) (d : DeviceDecision) : Prop :=
  ∃ userCode subject approve scopes explicit,
    c = .decideDevice userCode subject approve scopes explicit ∧
      (d.status = .approved → d.subject = subject)

/-- **The operations that are in order in a phase.** -/
def Allowed (env : Env) (p : Phase) : Op → Prop
  | .receive values => values = p.call.presents ∧ p.presented = [] ∧ p.stage = .open
  | .respond values => p.stage.Final ∧ p.held = none ∧ values ⊆ p.drawn
  | .getCode value | .getRefresh value | .getDevice value | .refreshFamily value =>
    p.stage = .open ∧ p.held = none ∧ value ∈ p.presented
  | .grantEpoch subject clientID =>
    (p.stage = .open ∧ p.held = none) ∨ ∃ c familyID at_ rt, p.stage = .minted c familyID at_ rt ∧
      subject = c.subject ∧ clientID = c.clientID
  | .consumeCode value => p.stage = .open ∧ (∃ req, p.call = .exchange req) ∧
    value ∈ p.presented ∧
    ∃ code e, p.readCode = some (value, code) ∧ p.epoch = some (code.subject, code.clientID, e)
  | .consumeRefresh value => p.stage = .open ∧ (∃ req, p.call = .refresh req) ∧
    value ∈ p.presented ∧ p.HoldsFamily env value ∧ p.CapturedRefresh value
  | .consumeDevice hash => p.stage = .open ∧ (∃ req, p.call = .pollDevice req) ∧
    ∃ d e, p.readDevice = some d ∧ d.deviceCodeHash = hash ∧ d.status = .approved ∧
      p.epoch = some (d.subject, d.clientID, e)
  | .saveAccess value t => value ∈ p.drawn ∧ ∃ c, p.stage = .claimed c ∧
    c.Covers t.clientID t.subject t.scopes ∧
    (∀ subject clientID e, p.epoch = some (subject, clientID, e) → clientID = c.clientID) ∧
    (if c.familyID = "" then t.familyID ∈ p.drawn else t.familyID = c.familyID)
  | .saveRefresh value t => value ∈ p.drawn ∧ ∃ c at_, p.stage = .minting c t.familyID at_ ∧
    c.Covers t.clientID t.subject t.scopes
  | .deleteAccess value => (p.stage = .open ∧ (∃ req, p.call = .revoke req) ∧
      value ∈ p.presented) ∨
    ∃ c familyID rt, p.stage = .undo c familyID value rt
  | .deleteRefresh value => (p.stage = .open ∧ (∃ req, p.call = .revoke req) ∧
      value ∈ p.presented) ∨
    ∃ c familyID, p.stage = .undoRefresh c familyID value
  | .revokeRefreshFamily familyID => p.stage = .reused familyID
  | .bumpGrantEpoch subject clientID => p.stage = .open ∧ p.call = .revokeGrant subject clientID
  | .deleteBySubjectClient subject clientID =>
    p.stage = .bumped subject clientID ∧ p.purged = false ∧
      p.call = .revokeGrant subject clientID
  | .saveCode value c => value ∈ p.drawn ∧ p.stage = .open ∧
    ∃ req, p.call = .authorize req ∧ c.subject = req.subject
  | .lock key => p.stage = .open ∧ p.held = none ∧
    ∃ value answer, p.family = some (value, answer) ∧ refreshKey env value answer = .ok key
  | .unlock key => p.stage.Final ∧ p.held = some key
  | .saveDevice deviceCode d => p.stage = .open ∧ (∃ req, p.call = .beginDevice req) ∧
    deviceCode ∈ p.drawn ∧ d.status = .pending
  | .recordDecision _ d => p.call.Decides d
  | .revokeTokens f => p.purged = false ∧
    (p.call = .revokeTokens f ∨ ∃ id, p.call = .deleteClient id ∧ f = ⟨id, ""⟩)
  | .removeClient id => p.call = .deleteClient id
  | .createClient c => p.call = .createClient c
  | .setStatus id status => p.call = .setStatus id status
  | .rotateSecret id secretHash => p.call = .rotateSecret id secretHash
  | .sweepTokens now => p.call = .sweepTokens now
  | .sweepDevices now => p.call = .sweepDevices now
  | .advanceClock d => p.call = .advanceClock d
  | .recordPoll _ _ => ∃ req, p.call = .pollDevice req
  | .tokenOwner value | .spentRefreshOwner value => value ∈ p.presented
  | .now | .newToken | .newUserCode | .getClient _ | .getAccess _ | .getDeviceByUserCode _ => True

/-- The order of operations as a typestate. -/
abbrev typestate (cfg : Config) : Typestate (service cfg) where
  Phase := Phase
  start := .start
  allowed := Allowed cfg.env
  advance := Phase.advance

/-- The records a call is asked to delete, by client and subject. -/
def Call.selects : Call → Option (String → String → Bool)
  | revokeGrant subject clientID => some fun c u => u == subject && c == clientID
  | revokeTokens f => some f.matches
  | deleteClient id => some (TokenFilter.matches ⟨id, ""⟩)
  | _ => none

/-- How a call ends: settled and with no turnstile held, and having deleted what it was asked to
delete where it does not fail. -/
def Closed (reply : Except Error Reply) (p : Phase) : Prop :=
  p.stage = .settled ∧ p.held = none ∧
    (p.call.selects.isSome → reply.isOk → p.purged = true)

/-! ## Reading the epoch -/

theorem advance_grantEpoch (p : Phase) (subject clientID : String) (e : UInt64) :
    p.advance (.grantEpoch subject clientID) e = p.readEpoch subject clientID e := rfl

/-- Reading the epoch changes what was captured and the stage, nothing else. -/
@[elab_as_elim]
theorem readEpoch_cases {P : Phase → Prop} {p : Phase} {subject clientID : String} {e : UInt64}
    (h : ∀ epoch stage, P { p with epoch := epoch, stage := stage }) :
    P (p.advance (.grantEpoch subject clientID) e) := by
  rw [advance_grantEpoch]
  unfold Phase.readEpoch
  split
  · exact h _ _
  · exact h _ _
  · exact h p.epoch p.stage

variable {p : Phase} {c : Claim} {familyID at_ rt : String} {e : UInt64} {env : Env} {op : Op}
  {r : op.Res}

theorem readEpoch_open (h : p.stage = .open) (subject clientID : String) (e : UInt64) :
    p.readEpoch subject clientID e = { p with epoch := some (subject, clientID, e) } := by
  rw [Phase.readEpoch, h]

theorem readEpoch_kept
    (h : p.stage = .minted c familyID at_ rt) (he : e = p.captured) (subject clientID : String) :
    p.readEpoch subject clientID e = { p with stage := .kept c familyID at_ rt } := by
  simp only [Phase.readEpoch, h, if_pos he]

theorem readEpoch_undo
    (h : p.stage = .minted c familyID at_ rt) (he : e ≠ p.captured) (subject clientID : String) :
    p.readEpoch subject clientID e = { p with stage := .undo c familyID at_ rt } := by
  simp only [Phase.readEpoch, h, if_neg he]

theorem advance_call (p : Phase) (op : Op) (r : op.Res) : (p.advance op r).call = p.call := by
  cases op with
  | grantEpoch => exact readEpoch_cases fun _ _ => rfl
  | _ => rfl

theorem advance_purged (p : Phase) (op : Op) (r : op.Res) (h : p.purged = true) :
    (p.advance op r).purged = true := by
  cases op with
  | grantEpoch => exact readEpoch_cases fun _ _ => h
  | deleteBySubjectClient | revokeTokens => rfl
  | _ => exact h

/-- **The stage a call comes to** by an operation that is in order. -/
inductive Turns (p : Phase) (op : Op) (s : Stage) : Prop
  | still (h : p.stage = s)
  | settles (h : .settled = s)
  | claims {c : Claim} (hs : p.stage = .open)
      (hop : c.familyID = "" ∧ ((∃ value, op = .consumeCode value) ∨ ∃ hash, op = .consumeDevice hash) ∨
        ∃ value, op = .consumeRefresh value) (h : .claimed c = s)
  | finds {familyID value : String} (hs : p.stage = .open) (hop : op = .consumeRefresh value)
      (h : .reused familyID = s)
  | writes {c : Claim} {value : String} {t : AccessToken} (hs : p.stage = .claimed c)
      (hop : op = .saveAccess value t) (h : .minting c t.familyID value = s)
  | mints {c : Claim} {familyID at_ value : String} (hs : p.stage = .minting c familyID at_)
      (h : .minted c familyID at_ value = s)
  | keeps {c : Claim} {familyID at_ rt : String} (hs : p.stage = .minted c familyID at_ rt)
      (h : .kept c familyID at_ rt = s)
  | recants {c : Claim} {familyID at_ rt : String} (hs : p.stage = .minted c familyID at_ rt)
      (h : .undo c familyID at_ rt = s)
  | undoes {c : Claim} {familyID at_ rt : String} (hs : p.stage = .undo c familyID at_ rt)
      (h : .undoRefresh c familyID rt = s)
  | kills {familyID : String} (hs : p.stage = .reused familyID) (h : .killed familyID = s)
  | bumps {subject clientID : String} (hs : p.stage = .open) (h : .bumped subject clientID = s)

theorem turns {s : Stage} (ha : Allowed env p op) (h : (p.advance op r).stage = s) : Turns p op s := by
  cases op with
  | consumeCode value =>
    rcases r with e | code
    · exact .settles h
    · exact .claims ha.1 (.inl ⟨rfl, .inl ⟨value, rfl⟩⟩) h
  | consumeRefresh value =>
    rcases r with e | t
    · cases e <;> first | exact .settles h | exact .finds ha.1 rfl h
    · exact .claims ha.1 (.inr ⟨value, rfl⟩) h
  | consumeDevice hash =>
    rcases r with _ | d
    · exact .settles h
    · exact .claims ha.1 (.inl ⟨rfl, .inr ⟨hash, rfl⟩⟩) h
  | respond | unlock | deleteBySubjectClient => exact .settles h
  | revokeRefreshFamily familyID => exact .kills ha h
  | bumpGrantEpoch => exact .bumps ha.1 h
  | saveAccess value t =>
    obtain ⟨-, c, hs, -⟩ := ha
    change p.stage.saveAccess _ _ = _ at h
    rw [hs] at h
    exact .writes hs rfl h
  | saveRefresh value t =>
    obtain ⟨-, c, at_, hs, -⟩ := ha
    change p.stage.saveRefresh _ = _ at h
    rw [hs] at h
    exact .mints hs h
  | deleteAccess value =>
    change p.stage.deleteAccess = _ at h
    rcases ha with ⟨hs, -⟩ | ⟨c, familyID, rt, hs⟩ <;> rw [hs] at h
    · exact .still (hs.trans h)
    · exact .undoes hs h
  | deleteRefresh value =>
    change p.stage.deleteRefresh = _ at h
    rcases ha with ⟨hs, -⟩ | ⟨c, familyID, hs⟩ <;> rw [hs] at h
    · exact .still (hs.trans h)
    · exact .settles h
  | grantEpoch subject clientID =>
    rw [advance_grantEpoch] at h
    rcases ha with ⟨hs, -⟩ | ⟨c, familyID, at_, rt, hs, -⟩
    · rw [readEpoch_open hs] at h
      exact .still h
    · by_cases he : r = p.captured
      · rw [readEpoch_kept hs he] at h
        exact .keeps hs h
      · rw [readEpoch_undo hs he] at h
        exact .recants hs h
  | _ => exact .still h

/-- A settled call stays settled. -/
theorem advance_settled (ha : Allowed env p op)
    (hs : p.stage = .settled) : (p.advance op r).stage = .settled := by
  cases turns (r := r) ha rfl with
  | still h => exact h.symm.trans hs
  | settles h => exact h.symm
  | _ hs' => cases hs.symm.trans hs'

/-- The stage, the captured epoch and the drawn values are what they were, or more was drawn. -/
structure Phase.Still (p p' : Phase) : Prop where
  stage : p'.stage = p.stage
  epoch : p'.epoch = p.epoch
  drawn : p.drawn ⊆ p'.drawn

theorem Phase.Still.captured {p' : Phase} (h : p.Still p') : p'.captured = p.captured := by
  rw [Phase.captured, h.epoch, Phase.captured]

theorem Stage.Final.not_busy {s : Stage} (h : s.Final) : ¬ s.Busy := by
  cases s <;> first | exact id | exact h.elim

/-- **What a call does next that has written a record**: it writes the second one, reads the epoch
again or deletes what it wrote; anything else leaves the stage as it is. -/
inductive Phase.Goes (p : Phase) : (op : Op) → op.Res → Phase → Prop
  | still {op : Op} {r : op.Res} {q : Phase} (h : p.Still q) : Goes p op r q
  | mints {c : Claim} {familyID at_ value : String} {t : RefreshToken} {r : Unit}
    (hs : p.stage = .minting c familyID at_) :
    Goes p (.saveRefresh value t) r { p with stage := .minted c familyID at_ value }
  | rereads {c : Claim} {familyID at_ rt : String} {e : UInt64}
    (hs : p.stage = .minted c familyID at_ rt) :
    Goes p (.grantEpoch c.subject c.clientID) e
      { p with stage := if e = p.captured then .kept c familyID at_ rt else .undo c familyID at_ rt }
  | undoes {c : Claim} {familyID at_ rt : String} {r : Unit} (hs : p.stage = .undo c familyID at_ rt) :
    Goes p (.deleteAccess at_) r { p with stage := .undoRefresh c familyID rt }
  | settles {c : Claim} {familyID rt : String} {r : Unit} (hs : p.stage = .undoRefresh c familyID rt) :
    Goes p (.deleteRefresh rt) r { p with stage := .settled }

theorem advance_busy (ha : Allowed env p op) (hb : p.stage.Busy) : p.Goes op r (p.advance op r) := by
  have hnot : ∀ {s : Stage}, ¬ s.Busy → p.stage ≠ s := by
    rintro s hs rfl
    exact hs hb
  cases op with
  | respond | unlock => exact absurd hb ha.1.not_busy
  | consumeCode | consumeRefresh | consumeDevice | bumpGrantEpoch | deleteBySubjectClient =>
    exact absurd ha.1 (hnot id)
  | saveAccess value t =>
    obtain ⟨-, c, hs, -⟩ := ha
    exact absurd hs (hnot id)
  | revokeRefreshFamily familyID => exact absurd ha (hnot id)
  | saveRefresh value t =>
    obtain ⟨-, c, at_, hs, -⟩ := ha
    dsimp only [Phase.advance]
    rw [hs]
    exact .mints hs
  | grantEpoch subject clientID =>
    obtain ⟨hs, -⟩ | ⟨c, familyID, at_, rt, hs, rfl, rfl⟩ := ha
    · exact absurd hs (hnot id)
    · rw [advance_grantEpoch, Phase.readEpoch, hs]
      exact .rereads hs
  | deleteAccess value =>
    obtain ⟨hs, -⟩ | ⟨c, familyID, rt, hs⟩ := ha
    · exact absurd hs (hnot id)
    · dsimp only [Phase.advance]
      rw [hs]
      exact .undoes hs
  | deleteRefresh value =>
    obtain ⟨hs, -⟩ | ⟨c, familyID, hs⟩ := ha
    · exact absurd hs (hnot id)
    · dsimp only [Phase.advance]
      rw [hs]
      exact .settles hs
  | newToken => exact .still ⟨rfl, rfl, List.subset_cons_self ..⟩
  | _ => exact .still ⟨rfl, rfl, List.Subset.refl _⟩

/-- A claim for which a record is still to be written. -/
def Phase.Pending (p : Phase) (c : Claim) : Prop :=
  p.stage = .claimed c ∨ ∃ familyID at_, p.stage = .minting c familyID at_

theorem pending_ofCode {res : Except Error AuthorizationCode}
    (h : ({ p with stage := .ofCode res } : Phase).Pending c) :
    ∃ code, res = .ok code ∧ c = ⟨code.clientID, code.subject, code.scopes, ""⟩ := by
  rcases res with e | code <;> rcases h with h | ⟨familyID, at_, h⟩ <;> cases h
  exact ⟨code, rfl, rfl⟩

theorem pending_ofRefresh {res : Except Error RefreshToken}
    (h : ({ p with stage := .ofRefresh res } : Phase).Pending c) :
    ∃ t, res = .ok t ∧ c = ⟨t.clientID, t.subject, t.scopes, t.familyID⟩ := by
  rcases res with e | t
  · cases e <;> rcases h with h | ⟨familyID, at_, h⟩ <;> cases h
  · rcases h with h | ⟨familyID, at_, h⟩ <;> cases h
    exact ⟨t, rfl, rfl⟩

theorem pending_ofDevice {res : Option DeviceAuthorizationRecord}
    (h : ({ p with stage := .ofDevice p.readDevice res } : Phase).Pending c) :
    ∃ d, res = some d ∧ c = ⟨(p.readDevice.map (·.clientID)).getD "", d.subject, d.scopes, ""⟩ := by
  rcases res with _ | d <;> rcases h with h | ⟨familyID, at_, h⟩ <;> cases h
  exact ⟨d, rfl, rfl⟩

/-- **How a call comes by a claim**: a code, a refresh value or a device request was consumed. -/
theorem advance_pending (ha : Allowed env p op) (hc : (p.advance op r).Pending c) :
    (p.Pending c ∧ (p.advance op r).captured = p.captured) ∨ (∃ value, op = .consumeCode value) ∨
      (∃ value, op = .consumeRefresh value) ∨ ∃ hash, op = .consumeDevice hash := by
  have hcaptured (h : p.Pending c) : (p.advance op r).captured = p.captured := by
    cases op with
    | grantEpoch subject clientID =>
      rcases h with h | ⟨familyID, at_, h⟩
      all_goals
        rcases ha with ⟨hs, -⟩ | ⟨c', familyID', at', rt, hs, -⟩ <;> cases h.symm.trans hs
    | _ => rfl
  rcases hc with hc | ⟨familyID, at_, hc⟩
  · cases turns ha hc with
    | still h => exact .inl ⟨.inl h, hcaptured (.inl h)⟩
    | claims hs hop h =>
      obtain ⟨-, hop | hop⟩ | hop := hop
      · exact .inr (.inl hop)
      · exact .inr (.inr (.inr hop))
      · exact .inr (.inr (.inl hop))
    | _ => contradiction
  · cases turns ha hc with
    | still h => exact .inl ⟨.inr ⟨_, _, h⟩, hcaptured (.inr ⟨_, _, h⟩)⟩
    | writes hs hop h =>
      cases h
      exact .inl ⟨.inl hs, hcaptured (.inl hs)⟩
    | _ => contradiction

end Re0Auth.OAuth

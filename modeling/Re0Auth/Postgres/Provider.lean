import Re0Auth.Postgres.Alone

/-!
# The OpenID provider over the Postgres adapter

Token requests, revocations and the deletion of a client side by side, each transaction one step.

* **`TxOp`**, **`txMachine`**: the transactions of the adapter, each run from its begin to its end with
  nothing between;
* **`Call`**, **`provider`**: the calls, each a sequence of transactions; between resolving a grant and
  minting from it the provider library may turn the request down (`judge`);
* **`Stage`**, **`txTypestate`**: what a call has in hand.
-/

namespace Re0Auth.Postgres

open Lib OAuth Oidc Prog

/-- **Transactions** and single queries of the adapter, the clock, the random source and the checks of
the provider library. -/
inductive TxOp
  | now
  | random
  | advanceClock (d : ℕ)
  | authRequestByCode (code : String)
  | loadRefresh (value : String) (now : Time)
  | replayed (value : String)
  | captureEpochs (clientID subject : String)
  | consumeDevice (now : Time) (clientID deviceCode : String)
  | recordDevicePoll (now : Time) (clientID deviceCode : String)
  | deviceState (clientID deviceCode : String)
  | expireDevice (clientID deviceCode : String)
  | judge
  | mint (m : Mint)
  | revokeGrant (subject clientID : String)
  | revokeTokens (fuel : ℕ) (f : TokenFilter)
  | deleteClient (fuel : ℕ) (id : String)

/-- What a transaction answers. -/
@[reducible] def TxOp.Answer : TxOp → Type
  | now => Time
  | random => String
  | advanceClock _ => Unit
  | authRequestByCode _ => AuthRequest × RevocationEpochs
  | loadRefresh _ _ => Option RefreshRow
  | replayed _ => Empty
  | captureEpochs _ _ => RevocationEpochs
  | consumeDevice _ _ _ => Option (DeviceAuthorizationState × RevocationEpochs)
  | recordDevicePoll _ _ _ => Option (Option Time)
  | deviceState _ _ => DeviceAuthorizationState
  | expireDevice _ _ => Unit
  | judge => List String
  | mint _ => Time
  | revokeGrant _ _ => Unit
  | revokeTokens _ _ => ℕ
  | deleteClient _ _ => Unit

/-- The environment's choices in a transaction: one for each statement, and what the library says. -/
structure TxChoice where
  stmt : ℕ → Option String
  /-- The scopes the library grants, `none` where it turns the request down. -/
  verdict : Option (List String)

/-- The statements of a transaction. -/
def TxOp.statements (env : Env) (verdict : Option (List String)) : (op : TxOp) → Sql env op.Answer
  | now => readClock
  | random => randomValue
  | advanceClock d => liftM (Prog.call (M := machine env) (.advanceClock d))
  | authRequestByCode code => (sql env).authRequestByCode code
  | loadRefresh value t => (sql env).loadRefresh value t
  | replayed value => (sql env).replayed value
  | captureEpochs c s => (sql env).captureEpochs c s
  | consumeDevice t c d => (sql env).consumeDevice t c d
  | recordDevicePoll t c d => (sql env).recordDevicePoll t c d
  | deviceState c d => (sql env).deviceState c d
  | expireDevice c d => (sql env).expireDevice c d
  | judge => ExceptT.mk (pure (verdict.elim (.error .refused) .ok))
  | mint m => (sql env).mint m
  | revokeGrant s c => Postgres.revokeGrant s c
  | revokeTokens fuel f => Postgres.revokeTokens fuel f
  | deleteClient fuel id => Postgres.deleteClient fuel id

/-- The adapter as a machine whose operations are transactions. -/
abbrev txMachine (env : Env) : Machine where
  Op := TxOp
  Res op := Except Err op.Answer
  Sh := Shared
  Choice := TxChoice
  exec op ω sh := (op.statements env ω.verdict).run.perform ω.stmt sh

/-- Programs over transactions. -/
abbrev Tx (env : Env) := ExceptT Err (Prog (txMachine env))

variable {env : Env} {α : Type}

/-- One transaction of a call. -/
def transact (op : TxOp) : Tx env op.Answer := ExceptT.mk (Prog.call (M := txMachine env) op)

/-- The transactions as single steps. -/
def atomic (env : Env) : Transactions (txMachine env) where
  now := transact .now
  random := transact .random
  authRequestByCode code := transact (.authRequestByCode code)
  loadRefresh value now := transact (.loadRefresh value now)
  replayed value := transact (.replayed value)
  captureEpochs c s := transact (.captureEpochs c s)
  consumeDevice now c d := transact (.consumeDevice now c d)
  recordDevicePoll now c d := transact (.recordDevicePoll now c d)
  deviceState c d := transact (.deviceState c d)
  expireDevice c d := transact (.expireDevice c d)
  mint m := transact (.mint m)

/-! ## Calls -/

/-- **Calls**: the three grants of the token endpoint, the revocations, the deletion of a client, and
the passing of time. -/
inductive Call
  | code (value : String)
  | refresh (value : String)
  | device (clientID deviceCode : String)
  | revokeGrant (subject clientID : String)
  | revokeTokens (fuel : ℕ) (f : TokenFilter)
  | deleteClient (fuel : ℕ) (id : String)
  | advanceClock (d : ℕ)

/-- The values a token request is answered with, and the deadline of the access token. -/
abbrev Pair := String × String × Time

/-- The grant of a code. -/
def redeemCode (value : String) : Tx env Pair := do
  let (request, epochs) ← (atomic env).authRequestByCode value
  let _ ← transact .judge
  createAccessAndRefreshTokens (atomic env) request.token (some epochs) ""

/-- The grant of a refresh token. The library turns down a request without one and may narrow the
scopes. -/
def redeemRefresh (value : String) : Tx env Pair := do
  if value = "" then throw .refused
  else
    let (request, epochs) ← tokenRequestByRefreshToken (atomic env) value
    let scopes ← transact .judge
    createAccessAndRefreshTokens (atomic env) { request.token with scopes := scopes } (some epochs)
      value

/-- The grant of a device code. The library answers by the state: denied, approved, or neither. -/
def redeemDevice (clientID deviceCode : String) : Tx env Pair := do
  let (state, epochs) ← getDeviceAuthorizatonState (atomic env) clientID deviceCode
  if state.denied then throw .refused
  else if state.done then
    let _ ← transact .judge
    createAccessAndRefreshTokens (atomic env) state.token epochs ""
  else throw .refused

/-- The program of a call; a token request answers with a pair. -/
def Call.body : Call → Tx env (Option Pair)
  | code value => do
    let pair ← redeemCode value
    return some pair
  | refresh value => do
    let pair ← redeemRefresh value
    return some pair
  | device c d => do
    let pair ← redeemDevice c d
    return some pair
  | revokeGrant s c => do
    transact (.revokeGrant s c)
    return none
  | revokeTokens fuel f => do
    let _ ← transact (.revokeTokens fuel f)
    return none
  | deleteClient fuel id => do
    transact (.deleteClient fuel id)
    return none
  | advanceClock d => do
    transact (.advanceClock d)
    return none

/-- The provider. -/
abbrev provider (env : Env) : Service (txMachine env) where
  Call := Call
  Reply := Except Err (Option Pair)
  body c := c.body.run

/-! ## What a call has in hand -/

/-- **Stage** of a call. -/
inductive Stage
  /-- Nothing yet. -/
  | idle
  /-- A refresh token whose row was found, with the client and the subject of the row. -/
  | presenting (value : String) (owner : String × String)
  /-- A grant whose code or device request has been resolved, and the generations captured then. -/
  | holding (owner : String × String) (captured : Option RevocationEpochs)
  /-- A device code that could not be redeemed at `now`. -/
  | unredeemable (now : Time) (clientID deviceCode : String)
  /-- A device code whose request was pending when its poll was recorded. -/
  | pending (clientID deviceCode : String)
  /-- Nothing any more. -/
  | settled
  /-- The revocation has committed. -/
  | revoked (f : TokenFilter)
  /-- The deletion of the client has committed. -/
  | deleted (id : String)

/-- The grant that is in hand. -/
def Stage.grant : Stage → Option (String × String)
  | holding o _ => some o
  | _ => none

/-- **Phase** of a call: its arguments, its stage, and the values it has drawn and not stored. -/
structure TxPhase where
  call : Call
  stage : Stage
  drawn : List String

/-- The state of a device request that a mint could follow without a capture: approved, though the
call has found it not to be. -/
def Stage.seenApproved (state : DeviceAuthorizationState) : Stage → Bool
  | unredeemable t _ _ => state.done && !state.denied && decide (t < state.expires)
  | pending _ _ => state.done && !state.denied
  | _ => false

/-- The stage after a transaction. -/
def Stage.advance (st : Stage) : (op : TxOp) → Except Err op.Answer → Stage
  | .authRequestByCode _, .ok (request, e) => .holding (request.clientID, request.subject) (some e)
  | .loadRefresh value _, .ok (some row) => .presenting value (row.clientID, row.subject)
  | .consumeDevice _ _ _, .ok (some (state, e)) => .holding (state.clientID, state.subject) (some e)
  | .consumeDevice now c d, .ok none => .unredeemable now c d
  | .recordDevicePoll _ c d, .ok (some _) => .pending c d
  | .deviceState _ _, .ok state =>
    if st.seenApproved state then .holding (state.clientID, state.subject) none else st
  | .captureEpochs _ _, .error _ | .judge, .error _ | .random, .error _ => .settled
  | .mint _, _ => .settled
  | .revokeGrant s c, .ok _ => .revoked ⟨c, s⟩
  | .revokeTokens _ f, .ok _ => .revoked f
  | .deleteClient _ id, .ok _ => .deleted id
  | _, _ => st

/-- The drawn values after a transaction: they are stored by the mint or not at all. -/
def drawnAfter (drawn : List String) : (op : TxOp) → Except Err op.Answer → List String
  | .random, .ok v => v :: drawn
  | .mint _, _ => []
  | _, _ => drawn

/-- The phase after a transaction. -/
def TxPhase.advance (p : TxPhase) (op : TxOp) (r : Except Err op.Answer) : TxPhase :=
  ⟨p.call, p.stage.advance op r, drawnAfter p.drawn op r⟩

/-- What a call must have in hand for a transaction. -/
def TxAllowed (p : TxPhase) : TxOp → Prop
  | .mint m => m.value ∈ p.drawn ∧
    (m.current = "" ∧ p.stage = .holding (m.request.clientID, m.request.subject) m.captured ∨
      m.current ≠ "" ∧ p.stage = .presenting m.current (m.request.clientID, m.request.subject))
  | .deviceState c d => (∃ now, p.stage = .unredeemable now c d) ∨ p.stage = .pending c d
  | .deleteClient fuel id => p.call = .deleteClient fuel id ∧ p.stage = .idle
  | _ => True

/-- The typestate of the provider. -/
abbrev txTypestate (env : Env) : Typestate (provider env) where
  Phase := TxPhase
  start c := ⟨c, .idle, []⟩
  allowed := TxAllowed
  advance := TxPhase.advance

/-- The filter of a revocation. -/
def Call.filter : Call → Option TokenFilter
  | revokeGrant s c => some ⟨c, s⟩
  | revokeTokens _ f => some f
  | _ => none

/-- The client a call deletes. -/
def Call.deletes : Call → Option String
  | deleteClient _ id => some id
  | _ => none

/-- How a call ends: a revocation or a deletion that succeeds has committed. -/
def Ends (reply : Except Err (Option Pair)) (p : TxPhase) : Prop :=
  reply.isOk = true → (∀ f, p.call.filter = some f → p.stage = .revoked f) ∧
    ∀ id, p.call.deletes = some id → p.stage = .deleted id

/-! ## Every call keeps to the order -/

section

variable {p : TxPhase} {c : Call} {Q : Except Err α → TxPhase → Prop}

/-- A part of a call keeps to the order from a phase on and ends with `Q`. -/
abbrev TxConforms (p : TxPhase) (m : Tx env α) (Q : Except Err α → TxPhase → Prop) : Prop :=
  Prog.Follows (txTypestate env) p m.run Q

theorem conforms_transact {op : TxOp} {f : op.Answer → Tx env α} (ha : TxAllowed p op)
    (hok : ∀ a, TxConforms (p.advance op (.ok a)) (f a) Q)
    (herr : ∀ e, Q (.error e) (p.advance op (.error e))) : TxConforms p (transact op >>= f) Q := by
  refine ⟨ha, ?_⟩
  rintro (e | a)
  · exact herr e
  · exact hok a

/-- A token request makes no promise about its end. -/
theorem ends_of_request {reply : Except Err (Option Pair)} (hf : p.call.filter = none)
    (hd : p.call.deletes = none) : Ends reply p := by
  intro _
  rw [hf, hd]
  exact ⟨nofun, nofun⟩

theorem createAccessAndRefreshTokens_conforms {request : TokenRequest}
    {captured : Option RevocationEpochs} {current : String}
    (h : current = "" ∧ p.stage = .holding (request.clientID, request.subject) captured ∨
      current ≠ "" ∧ p.stage = .presenting current (request.clientID, request.subject)) :
    TxConforms p (createAccessAndRefreshTokens (atomic env) request captured current)
      fun _ q => q.call = p.call := by
  refine conforms_transact trivial (fun accessID => ?_) fun _ => rfl
  refine conforms_transact trivial (fun value => ?_) fun _ => rfl
  refine conforms_transact trivial (fun now => ?_) fun _ => rfl
  refine conforms_transact ⟨List.mem_cons_self, ?_⟩ (fun _ => rfl) fun _ => rfl
  exact h

theorem redeemCode_conforms {value : String} :
    TxConforms p (redeemCode value : Tx env Pair) fun _ q => q.call = p.call := by
  refine conforms_transact trivial ?_ fun _ => rfl
  rintro ⟨request, epochs⟩
  refine conforms_transact trivial (fun _ => ?_) fun _ => rfl
  exact createAccessAndRefreshTokens_conforms (.inl ⟨rfl, rfl⟩)

theorem redeemRefresh_conforms {value : String} :
    TxConforms p (redeemRefresh value : Tx env Pair) fun _ q => q.call = p.call := by
  rw [redeemRefresh]
  split_ifs with hvalue
  · exact rfl
  have hresolve : TxConforms p (tokenRequestByRefreshToken (atomic env) value) fun r q =>
      q.call = p.call ∧ ∀ request e, r = .ok (request, e) →
        q.stage = .presenting value (request.clientID, request.subject) := by
    refine conforms_transact trivial (fun now => ?_) fun _ => ⟨rfl, nofun⟩
    refine conforms_transact trivial ?_ fun _ => ⟨rfl, nofun⟩
    rintro (_ | row)
    · exact conforms_transact trivial nofun fun _ => ⟨rfl, nofun⟩
    · refine conforms_transact trivial (fun e => ⟨rfl, fun request e' h => ?_⟩) fun _ => ⟨rfl, nofun⟩
      cases h
      rfl
  refine hresolve.bindE ?_ fun e q h => h.1
  · rintro ⟨request, epochs⟩ q ⟨hcall, hstage⟩
    refine conforms_transact trivial (fun scopes => ?_) fun _ => hcall
    refine (createAccessAndRefreshTokens_conforms (.inr ⟨hvalue, ?_⟩)).mono fun _ _ h => h.trans hcall
    exact hstage request epochs rfl

theorem getDeviceAuthorizatonState_conforms {c d : String} :
    TxConforms p (getDeviceAuthorizatonState (atomic env) c d) fun r q => q.call = p.call ∧
      ∀ state e, r = .ok (state, e) → state.denied = false → state.done = true →
        q.stage = .holding (state.clientID, state.subject) e := by
  refine conforms_transact trivial (fun now => ?_) fun _ => ⟨rfl, nofun⟩
  refine conforms_transact trivial ?_ fun _ => ⟨rfl, nofun⟩
  rintro (_ | ⟨state, epochs⟩)
  · refine conforms_transact trivial ?_ fun _ => ⟨rfl, nofun⟩
    rintro (_ | last)
    · refine conforms_transact (.inl ⟨now, rfl⟩) (fun state => ?_) fun _ => ⟨rfl, nofun⟩
      split_ifs with hexpired
      · refine conforms_transact trivial (fun _ => ⟨rfl, ?_⟩) fun _ => ⟨rfl, nofun⟩
        rintro _ _ h - hdone
        cases h
        cases hdone
      · refine ⟨rfl, ?_⟩
        rintro _ _ h hdenied hdone
        cases h
        have happroved : (Stage.unredeemable now c d).seenApproved state = true := by
          simpa [Stage.seenApproved, hdenied, hdone] using hexpired
        exact if_pos happroved
    · dsimp only
      split_ifs with hslow
      · exact ⟨rfl, nofun⟩
      · refine conforms_transact (.inr rfl) (fun state => ⟨rfl, ?_⟩) fun _ => ⟨rfl, nofun⟩
        rintro _ _ h hdenied hdone
        cases h
        have happroved : (Stage.pending c d).seenApproved state = true := by
          simp [Stage.seenApproved, hdenied, hdone]
        exact if_pos happroved
  · refine ⟨rfl, ?_⟩
    rintro _ _ h - -
    cases h
    rfl

theorem redeemDevice_conforms {c d : String} :
    TxConforms p (redeemDevice c d : Tx env Pair) fun _ q => q.call = p.call := by
  refine getDeviceAuthorizatonState_conforms.bindE ?_ fun e q h => h.1
  rintro ⟨state, epochs⟩ q ⟨hcall, hstage⟩
  dsimp only
  split_ifs with hdenied hdone
  · exact hcall
  · refine conforms_transact trivial (fun _ => ?_) fun _ => hcall
    refine (createAccessAndRefreshTokens_conforms (.inl ⟨rfl, ?_⟩)).mono fun _ _ h => h.trans hcall
    exact hstage state epochs rfl (by simpa using hdenied) hdone
  · exact hcall

/-- **Conformance** of every call. -/
theorem provider_follows (c : Call) :
    ((provider env).body c).Follows (txTypestate env) ((txTypestate env).start c) Ends := by
  cases c with
  | code value =>
    refine redeemCode_conforms.bindE ?_ ?_
    all_goals
      intro _ q hq
      exact ends_of_request (by rw [hq]; rfl) (by rw [hq]; rfl)
  | refresh value =>
    refine redeemRefresh_conforms.bindE ?_ ?_
    all_goals
      intro _ q hq
      exact ends_of_request (by rw [hq]; rfl) (by rw [hq]; rfl)
  | device c d =>
    refine redeemDevice_conforms.bindE ?_ ?_
    all_goals
      intro _ q hq
      exact ends_of_request (by rw [hq]; rfl) (by rw [hq]; rfl)
  | revokeGrant s c =>
    refine conforms_transact trivial (fun _ _ => ⟨fun f hf => ?_, nofun⟩) fun _ => nofun
    cases hf
    rfl
  | revokeTokens fuel f =>
    refine conforms_transact trivial (fun _ _ => ⟨fun f hf => ?_, nofun⟩) fun _ => nofun
    cases hf
    rfl
  | deleteClient fuel id =>
    refine conforms_transact ⟨rfl, rfl⟩ (fun _ _ => ⟨nofun, fun id hid => ?_⟩) fun _ => nofun
    cases hid
    rfl
  | advanceClock d =>
    exact conforms_transact trivial (fun _ => ends_of_request rfl rfl) fun _ => nofun

end

end Re0Auth.Postgres

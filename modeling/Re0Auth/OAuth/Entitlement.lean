import Re0Auth.OAuth.Typestate

/-!
# What a call has been shown

The order of operations (`OAuth/Typestate.lean`) says which operation may follow which. This module says
what a call must have read before it claims a grant, writes a record or deletes one: the client it has
authenticated, the record it has checked, the consent it was given.

* **`Evidence`**: what a call has read, drawn and claimed; it stays when the call has returned;
* **`Entitled`**: the evidence each operation needs.
-/

namespace Re0Auth.OAuth

open Lib List

variable {cfg : Config} {α β : Type} {env : Env} {clientID subject familyID v : String}
  {ds : List Descriptor} {explicit scopes : List Scope} {c : Client}

/-- **Evidence** of a call. -/
structure Evidence where
  call : Call
  /-- The client that was looked up, with the id that was asked for. -/
  client : Option (String × Client)
  /-- The readings of the clock; a claim starts them anew. -/
  clocks : List Time
  /-- What `TokenOwner` answered, with the value it was asked for. -/
  owner : Option (String × Except Error String)
  /-- What `SpentRefreshOwner` answered, with the value it was asked for. -/
  spentOwner : Option (String × Except Error String)
  /-- The code that was read, with its value. -/
  code : Option (String × AuthorizationCode)
  /-- The device request that was read by its device code. -/
  device : Option DeviceAuthorizationRecord
  /-- The device request that was read by its user code. -/
  asked : Option DeviceAuthorizationRecord
  /-- The values drawn, in their order. -/
  drawn : List String
  /-- The code that was claimed, with its value. -/
  claimedCode : Option (String × AuthorizationCode)
  /-- The refresh token that was claimed, with its value. -/
  claimedRefresh : Option (String × RefreshToken)
  /-- The device request that was claimed, with the hash it was asked for. -/
  claimedDevice : Option (String × DeviceAuthorizationRecord)
  /-- The decision that was recorded, with the request it is about. -/
  decided : Option (String × DeviceDecision)
  /-- A device request was stored. -/
  saved : Bool

namespace Evidence

/-- A call that has done nothing. -/
def start (c : Call) : Evidence :=
  ⟨c, none, [], none, none, none, none, none, [], none, none, none, none, false⟩

/-- **The evidence after an operation** with its result. -/
def advance (x : Evidence) (op : Op) : op.Res → Evidence :=
  match op with
  | .now => fun t => { x with clocks := t :: x.clocks }
  | .newToken => fun v => { x with drawn := x.drawn ++ [v] }
  | .getClient id => fun r => { x with client := r.toOption.map (id, ·) }
  | .tokenOwner v => fun r => { x with owner := some (v, r) }
  | .spentRefreshOwner v => fun r => { x with spentOwner := some (v, r) }
  | .getCode v => fun r => { x with code := r.toOption.map (v, ·) }
  | .getDevice _ => fun r => { x with device := r.toOption }
  | .getDeviceByUserCode _ => fun r => { x with asked := r.toOption }
  | .consumeCode v => fun r => { x with claimedCode := r.toOption.map (v, ·), clocks := [] }
  | .consumeRefresh v => fun r => { x with claimedRefresh := r.toOption.map (v, ·), clocks := [] }
  | .consumeDevice h => fun r => { x with claimedDevice := r.map (h, ·), clocks := [] }
  | .recordDecision h d => fun r => if r then { x with decided := some (h, d) } else x
  | .saveDevice _ _ => fun r => { x with saved := x.saved || r.isOk }
  | _ => fun _ => x

end Evidence

/-! ## Entitlement -/

/-- What `checkCodeBinding` checks, at a reading of the clock. -/
structure CodeBound (env : Env) (now : Time) (c : Client) (req : CodeExchangeRequest)
    (code : AuthorizationCode) : Prop where
  deadline : now < code.expiresAt
  client : code.clientID = c.id
  redirect : code.redirectURI = req.redirectURI
  pkce : verifyPKCE env req.codeVerifier code.codeChallenge code.codeChallengeMethod = true

/-- Every scope is in the catalog for the client and in the client's registration. -/
def Permitted (cfg : Config) (c : Client) (scopes : List Scope) : Prop :=
  ∀ sc ∈ scopes, (∃ d, cfg.scopes.get sc = some d ∧ d.allowsClient c.id = true) ∧
    c.allowsScope sc = true

/-- Every scope that is marked for explicit consent was ticked. -/
def Ticked (cfg : Config) (scopes explicit : List Scope) : Prop :=
  ∀ sc ∈ scopes, ∀ d, cfg.scopes.get sc = some d → d.explicitConsent = true → d.scope ∈ explicit

namespace Evidence

/-- The client was looked up and has proved its secret where it has one. -/
def Authenticated (x : Evidence) (env : Env) (id secret : String) (c : Client) : Prop :=
  x.client = some (id, c) ∧ (c.type = .confidential → c.authenticate env secret = true)

/-- **Claims**: the grant a call has claimed and checked, as the client, the subject, the scopes and the
family its records may carry. -/
inductive Claims (cfg : Config) (x : Evidence) : String → String → List Scope → String → Prop
  | code {req : CodeExchangeRequest} {c : Client} {code : AuthorizationCode} {n : Time}
      (call : x.call = .exchange req)
      (client : x.Authenticated cfg.env req.clientID req.clientSecret c)
      (claimed : x.claimedCode = some (req.code, code)) (clock : n ∈ x.clocks)
      (bound : CodeBound cfg.env n c req code) : Claims cfg x c.id code.subject code.scopes ""
  | refresh {req : RefreshRequest} {c : Client} {t : RefreshToken} {scopes : List Scope}
      (call : x.call = .refresh req)
      (client : x.Authenticated cfg.env req.clientID req.clientSecret c)
      (claimed : x.claimedRefresh = some (req.refreshToken, t)) (owner : t.clientID = c.id)
      (narrows : scopes ⊆ t.scopes) : Claims cfg x c.id t.subject scopes t.familyID
  | device {req : DeviceCodeExchangeRequest} {c : Client} {d d' : DeviceAuthorizationRecord}
      (call : x.call = .pollDevice req)
      (client : x.Authenticated cfg.env req.clientID req.clientSecret c)
      (read : x.device = some d') (owner : d'.clientID = c.id)
      (claimed : x.claimedDevice = some (d'.deviceCodeHash, d)) : Claims cfg x c.id d.subject d.scopes ""

/-- What may be written: a record of the claimed grant, in the family of the claim or in a new one. -/
def Issues (cfg : Config) (x : Evidence) (clientID subject : String) (scopes : List Scope)
    (familyID : String) : Prop :=
  ∃ family, x.Claims cfg clientID subject scopes family ∧
    if family = "" then x.drawn[2]? = some familyID else familyID = family

/-- The value was found to be the client's, alive or spent. -/
def Owns (x : Evidence) (v clientID : String) : Prop :=
  x.owner = some (v, .ok clientID) ∨
    x.owner = some (v, .error .tokenNotFound) ∧ x.spentOwner = some (v, .ok clientID)

end Evidence

/-- The id and the secret a client presents with a request on its codes, tokens and device requests. -/
def Call.credentials : Call → Option (String × String)
  | .exchange req => some (req.clientID, req.clientSecret)
  | .refresh req => some (req.clientID, req.clientSecret)
  | .revoke req => some (req.clientID, req.clientSecret)
  | .pollDevice req => some (req.clientID, req.clientSecret)
  | _ => none

/-- **Entitled**: the evidence an operation needs. A call looks up one client, and claims, decides and
stores a device request once. -/
def Entitled (cfg : Config) (x : Evidence) : Op → Prop
  | .getClient id => x.client = none ∧
    ∀ id' secret, x.call.credentials = some (id', secret) → id = id'
  | .saveCode v code => ∃ req c, x.call = .authorize req ∧ x.drawn = [v] ∧
    x.client = some (req.clientID, c) ∧ Permitted cfg c req.scopes ∧
    Ticked cfg req.scopes req.explicit ∧ code.clientID = c.id ∧ code.subject = req.subject ∧
    code.scopes = req.scopes
  | .consumeCode v => x.claimedCode = none ∧ ∃ req c code n, x.call = .exchange req ∧ v = req.code ∧
    x.Authenticated cfg.env req.clientID req.clientSecret c ∧ x.code = some (v, code) ∧
    n ∈ x.clocks ∧ CodeBound cfg.env n c req code
  | .consumeRefresh v => ∃ req c answer, x.call = .refresh req ∧ v = req.refreshToken ∧
    x.Authenticated cfg.env req.clientID req.clientSecret c ∧ x.owner = some (v, answer) ∧
    foreignOwner c answer = none
  | .revokeRefreshFamily _ => ∃ req, x.call = .refresh req
  | .saveAccess v t =>
    x.drawn[0]? = some v ∧ x.Issues cfg t.clientID t.subject t.scopes t.familyID
  | .saveRefresh v t =>
    x.drawn[1]? = some v ∧ x.Issues cfg t.clientID t.subject t.scopes t.familyID
  | .deleteAccess v | .deleteRefresh v =>
    (∃ req c, x.call = .revoke req ∧ v = req.token ∧
      x.Authenticated cfg.env req.clientID req.clientSecret c ∧ x.Owns v c.id) ∨
    v ∈ x.drawn ∧ ∃ clientID subject scopes family, x.Claims cfg clientID subject scopes family
  | .saveDevice v d => ∃ req c, x.call = .beginDevice req ∧ x.drawn = [v] ∧
    x.client = some (req.clientID, c) ∧ Permitted cfg c req.scopes ∧ d.clientID = c.id ∧
    d.scopes = req.scopes ∧ d.status = .pending ∧ x.saved = false
  | .recordDecision h d => x.decided = none ∧ ∃ userCode subject approve scopes explicit rec,
    x.call = .decideDevice userCode subject approve scopes explicit ∧ x.asked = some rec ∧
    rec.deviceCodeHash = h ∧ rec.status = .pending ∧ d.status ≠ .pending ∧ (d.status = .approved →
      approve = true ∧ d.subject = subject ∧ d.explicit = explicit ∧
      grantedScopes rec.scopes scopes = .ok d.scopes ∧ Ticked cfg d.scopes explicit)
  | .recordPoll h _ => ∃ req c d, x.call = .pollDevice req ∧
    x.Authenticated cfg.env req.clientID req.clientSecret c ∧ x.device = some d ∧
    d.deviceCodeHash = h ∧ d.clientID = c.id
  | .consumeDevice h => x.claimedDevice = none ∧ ∃ req c d n, x.call = .pollDevice req ∧
    x.Authenticated cfg.env req.clientID req.clientSecret c ∧ x.device = some d ∧
    d.deviceCodeHash = h ∧ d.clientID = c.id ∧ d.status = .approved ∧ n ∈ x.clocks ∧ n < d.expiresAt
  | _ => True

/-- The evidence of a call as a typestate. -/
abbrev evidence (cfg : Config) : Typestate (service cfg) where
  Phase := Evidence
  start := .start
  allowed := Entitled cfg
  advance := Evidence.advance

/-! ## Scopes -/

/-- The descriptors `Resolve` answers with are those of the scopes that are not handled yet. -/
theorem resolveFrom_spec {registry : Registry} :
    ∀ {scopes seen : List Scope} {ds : List Descriptor},
      resolveFrom env registry clientID scopes seen = .ok ds → ∀ sc ∈ scopes, sc ∉ seen →
        ∃ d ∈ ds, registry.get sc = some d ∧ d.allowsClient clientID = true := by
  intro scopes
  induction scopes with
  | nil => exact fun _ _ hsc => absurd hsc not_mem_nil
  | cons s rest ih =>
    intro seen ds h sc hsc hseen
    rw [resolveFrom] at h
    split at h
    · -- a scope that was handled already
      rename_i hs
      obtain rfl | hsc := mem_cons.1 hsc
      · exact absurd (by simpa using hs) hseen
      · exact ih h sc hsc hseen
    · split at h
      · cases h
      · rename_i d hd
        split at h
        · rename_i hallows
          cases hrest : resolveFrom env registry clientID rest (s :: seen) with
          | error e =>
            rw [hrest] at h
            cases h
          | ok ds' =>
            rw [hrest] at h
            cases h
            by_cases heq : sc = s
            · subst heq
              exact ⟨d, mem_cons_self, hd, hallows⟩
            · obtain rfl | hsc := mem_cons.1 hsc
              · exact absurd rfl heq
              · have hnot : sc ∉ s :: seen := by simp [heq, hseen]
                obtain ⟨d', hd', hrest⟩ := ih hrest sc hsc hnot
                exact ⟨d', mem_cons_of_mem _ hd', hrest⟩
        · cases h

theorem checkExplicit_spec (h : checkExplicit ds explicit = .ok ()) :
    ∀ d ∈ ds, d.explicitConsent = true → d.scope ∈ explicit := by
  induction ds with
  | nil => exact fun _ hd => absurd hd not_mem_nil
  | cons d rest ih =>
    intro d' hd' hconsent
    rw [checkExplicit] at h
    split_ifs at h with hmissing
    obtain rfl | hd' := mem_cons.1 hd'
    · by_contra hnot
      exact hmissing (by simp [hconsent, hnot])
    · exact ih h d' hd' hconsent

/-- The scopes a client was shown, and the ticks it was given for them. -/
theorem ticked_of_checkExplicit (hresolve : resolve cfg.env cfg.scopes scopes c.id = .ok ds)
    (hcheck : checkExplicit ds explicit = .ok ()) : Ticked cfg scopes explicit := by
  intro sc hsc d hd hconsent
  obtain ⟨d', hd', hget, -⟩ := resolveFrom_spec hresolve sc hsc not_mem_nil
  cases hd.symm.trans hget
  exact checkExplicit_spec hcheck d hd' hconsent

end Re0Auth.OAuth

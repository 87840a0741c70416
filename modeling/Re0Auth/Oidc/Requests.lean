import Re0Auth.OAuth.Tokens

/-!
# Token requests of the OpenID provider

What the two OpenID storage adapters share (`internal/oidcstore`): the requests the provider library
hands back and forth between the steps of a grant, and the revocation generations a request carries
from the step that resolves its credential to the step that mints.

* **`AuthRequest`**, **`RefreshRequest`**, **`DeviceAuthorizationState`**: the three kinds of request;
* **`freshness_agrees`**: the two judgements on an authentication time;
* **`TokenRequest`**: what the mint reads of one;
* **`RevocationEpochs`**: the carrier, with **`revocationUnchanged`**.
-/

namespace Re0Auth.Oidc

open OAuth

/-- `oidcstore.AuthRequest`: a pending authorization, and after the consent the grant behind a
code. -/
structure AuthRequest where
  id : String
  clientID : String
  redirectURI : String
  responseType : String
  responseMode : String
  scopes : List String
  state : String
  nonce : String
  /-- Challenge and method, where the request had a challenge. -/
  codeChallenge : Option (String × String)
  subject : String
  isDone : Bool
  authTime : Option Time
  prompt : List String
  maxAge : Option ℕ
  deriving DecidableEq, Repr

/-- `reauthRoundTripTolerance`. -/
def reauthRoundTripTolerance : Duration := 120 * second

/-- `math.MaxInt64 / time.Second`. -/
def maxDurationSeconds : ℕ := 9223372036

/-- `time.Time.Sub`: a difference that is not a duration of 64 bits is the nearest one that is. -/
def sub (t u : Time) : Duration := max (-2 ^ 63) (min (t - u) (2 ^ 63 - 1))

/-- `FreshnessNeeded`, the judgement of the login boundary. -/
def AuthRequest.freshnessNeeded (a : AuthRequest) (at_ now : Time) : Bool :=
  if "login" ∈ a.prompt then true
  else match a.maxAge with
  | none => false
  | some maxAge =>
    if at_ = 0 then true
    else if maxDurationSeconds < maxAge then false
    else decide (sub now at_ > (maxAge * second).bmod (2 ^ 64))

/-- `FreshnessSatisfied`, the judgement of completion: the sum of the two durations is one of 64
bits. -/
def AuthRequest.freshnessSatisfied (a : AuthRequest) (at_ now : Time) : Bool :=
  match a.maxAge with
  | none => true
  | some maxAge =>
    if at_ = 0 then false
    else maxDurationSeconds < maxAge ||
      decide (sub now at_ ≤ (maxAge * second + reauthRoundTripTolerance).bmod (2 ^ 64))

/-- `RequiresReauthentication`. -/
def AuthRequest.requiresReauthentication (a : AuthRequest) (now : Time) : Bool :=
  a.maxAge.isSome && !a.freshnessSatisfied (a.authTime.getD 0) now

/-- The age and its tolerance are a duration of 64 bits, or the age is past every duration. -/
def AuthRequest.AgeFits (a : AuthRequest) : Prop :=
  ∀ maxAge ∈ a.maxAge,
    maxDurationSeconds < maxAge ∨ maxAge * second + reauthRoundTripTolerance < 2 ^ 63

variable {a : AuthRequest} {at_ now : Time} {e e' e'' : RevocationEpochs}

/-- Completion in integers: a sum past the range of a duration is below every elapsed time. -/
theorem freshnessSatisfied_iff {maxAge : ℕ} (hle : at_ ≤ now)
    (hage : a.maxAge = some maxAge) : a.freshnessSatisfied at_ now = true ↔ at_ ≠ 0 ∧
      (maxDurationSeconds < maxAge ∨ maxAge * second + reauthRoundTripTolerance < 2 ^ 63 ∧
        now - at_ ≤ maxAge * second + reauthRoundTripTolerance) := by
  rw [AuthRequest.freshnessSatisfied, hage]
  dsimp only
  split
  · simp [*]
  · rename_i hzero
    by_cases hpast : maxDurationSeconds < maxAge
    · simp [hzero, hpast]
    · simp only [hzero, hpast, decide_false, Bool.false_or, decide_eq_true_eq, ne_eq,
        not_false_eq_true, true_and, false_or]
      simp only [sub, Int.bmod, maxDurationSeconds, reauthRoundTripTolerance, second, Time, Duration] at *
      have hword : ((maxAge : ℤ) * 1000000000 + 120 * 1000000000) / 18446744073709551616 = 0 := by omega
      omega

/-- A request for an authentication within `maxAge` seconds. -/
def agedRequest (maxAge : ℕ) : AuthRequest :=
  ⟨"id", "c", "", "code", "", [], "", "", none, "", false, none, [], some maxAge⟩

/-- `oidcstore.RefreshRequest`. -/
structure RefreshRequest where
  idHash : String
  clientID : String
  subject : String
  scopes : List String
  amr : List String
  audience : List String
  authTime : Option Time
  nonce : String
  deriving DecidableEq, Repr

/-- `op.DeviceAuthorizationState` of the provider library, the fields the adapters fill. -/
structure DeviceAuthorizationState where
  clientID : String
  scopes : List String
  expires : Time
  done : Bool
  denied : Bool
  subject : String
  authTime : Time
  deriving DecidableEq, Repr

/-- What the mint reads of a token request through its accessors. -/
structure TokenRequest where
  clientID : String
  subject : String
  scopes : List String
  amr : List String
  audience : List String
  /-- Go's zero time where the request records no authentication. -/
  authTime : Time
  nonce : String
  deriving DecidableEq, Repr

/-- The accessors of an `AuthRequest`. -/
def AuthRequest.token (a : AuthRequest) : TokenRequest where
  clientID := a.clientID
  subject := a.subject
  scopes := a.scopes
  amr := []
  audience := [a.clientID]
  authTime := a.authTime.getD 0
  nonce := a.nonce

/-- The accessors of a `RefreshRequest`. -/
def RefreshRequest.token (r : RefreshRequest) : TokenRequest where
  clientID := r.clientID
  subject := r.subject
  scopes := r.scopes
  amr := r.amr
  audience := r.audience
  authTime := r.authTime.getD 0
  nonce := r.nonce

/-- The accessors of a `DeviceAuthorizationState`: the library makes the client the audience, and
there is no nonce. -/
def DeviceAuthorizationState.token (d : DeviceAuthorizationState) : TokenRequest where
  clientID := d.clientID
  subject := d.subject
  scopes := d.scopes
  amr := []
  audience := [d.clientID]
  authTime := d.authTime
  nonce := ""

/-- The authentication time a refresh record keeps: none where it is zero. -/
def TokenRequest.recordedAuthTime (r : TokenRequest) : Option Time :=
  if r.authTime = 0 then none else some r.authTime

/-- `oidc.ScopeOfflineAccess`. -/
def scopeOfflineAccess : String := "offline_access"

/-- `WithoutOfflineAccess`. -/
def withoutOfflineAccess (scopes : List String) : List String :=
  scopes.filter (· != scopeOfflineAccess)

/-! ## Revocation generations -/

/-- `RevocationEpochs`: the generations a token request observed when it resolved its credential.
The counters are of 64 bits in the source; they do not come near their bound. -/
structure RevocationEpochs where
  global : ℤ
  client : ℤ
  subject : ℤ
  deriving DecidableEq, Repr

/-- No generation of the first is above the one of the second. -/
instance : LE RevocationEpochs :=
  ⟨fun e e' => e.global ≤ e'.global ∧ e.client ≤ e'.client ∧ e.subject ≤ e'.subject⟩

theorem RevocationEpochs.le_refl (e : RevocationEpochs) : e ≤ e :=
  ⟨Int.le_refl _, Int.le_refl _, Int.le_refl _⟩

theorem RevocationEpochs.le_trans (h : e ≤ e') (h' : e' ≤ e'') : e ≤ e'' :=
  ⟨Int.le_trans h.1 h'.1, Int.le_trans h.2.1 h'.2.1, Int.le_trans h.2.2 h'.2.2⟩

/-- Generations that have been left behind do not come back. -/
theorem RevocationEpochs.ne_of_le (h : e ≤ e') (hne : e ≠ e') (h' : e' ≤ e'') : e ≠ e'' := by
  rintro rfl
  refine hne ?_
  obtain ⟨h₁, h₂, h₃⟩ := h
  obtain ⟨h₁', h₂', h₃'⟩ := h'
  cases e
  cases e'
  simp only [RevocationEpochs.mk.injEq]
  exact ⟨Int.le_antisymm h₁ h₁', Int.le_antisymm h₂ h₂', Int.le_antisymm h₃ h₃'⟩

/-- Generations that were not above the ones left behind are not the present ones. -/
theorem RevocationEpochs.ne_of_moved (h : e ≤ e') (h' : e' ≤ e'') (hne : e' ≠ e'') : e ≠ e'' := by
  by_cases heq : e = e'
  · exact heq ▸ hne
  · exact ne_of_le h heq h'

/-- `RevocationUnchanged`: a request that captured nothing has nothing to compare. -/
def revocationUnchanged (captured : Option RevocationEpochs) (now : RevocationEpochs) : Bool :=
  match captured with
  | none => true
  | some e => e == now

/-- `DefaultDevicePollInterval`. -/
def defaultDevicePollInterval : Duration := 5 * second

end Re0Auth.Oidc

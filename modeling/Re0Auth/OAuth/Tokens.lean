import Re0Auth.OAuth.Client

/-!
# The token store

`MemoryStore` (`oauth/tokens.go`, `oauth/grants.go`): authorization codes, access and refresh
records and the tombstones of spent refresh values, all keyed by the hash of the value they stand
for. Every method runs under the store's lock, so each is one function of the whole store.

The store has no clock of its own: the deadline of a tombstone is judged with the clock the service
injected, and a store that was given none keeps its tombstones for ever (`clock = none`).
-/

namespace Re0Auth.OAuth

open Lib Dict

/-- The record of an access token. -/
structure AccessToken where
  clientID : String
  subject : String
  scopes : List Scope
  familyID : String
  issuedAt : Time
  expiresAt : Time
  deriving DecidableEq, Repr

/-- The record of a refresh token. -/
structure RefreshToken where
  clientID : String
  subject : String
  scopes : List Scope
  familyID : String
  issuedAt : Time
  expiresAt : Time
  deriving DecidableEq, Repr

/-- A one-time code bound to a client, a redirect URI and a PKCE challenge. -/
structure AuthorizationCode where
  clientID : String
  subject : String
  scopes : List Scope
  redirectURI : String
  codeChallenge : String
  codeChallengeMethod : String
  expiresAt : Time
  deriving DecidableEq, Repr

/-- What a spent refresh token leaves behind. -/
structure RefreshTombstone where
  familyID : String
  clientID : String
  subject : String
  expiresAt : Time
  deriving DecidableEq, Repr

/-- **`TokenFilter`**: the tokens a bulk revocation selects; the empty filter selects all. -/
structure TokenFilter where
  clientID : String
  subject : String
  deriving DecidableEq, Repr

/-- `TokenFilter.Matches`: an empty field restricts nothing. -/
def TokenFilter.matches (f : TokenFilter) (clientID subject : String) : Bool :=
  (f.clientID == "" || f.clientID == clientID) && (f.subject == "" || f.subject == subject)

/-- **`MemoryStore`**, keyed by `TokenHash` of the value. -/
structure MemoryStore where
  codes : Dict String AuthorizationCode
  access : Dict String AccessToken
  refresh : Dict String RefreshToken
  tombstones : Dict String RefreshTombstone

/-- The deadline of a tombstone has passed on the injected clock. -/
def RefreshTombstone.expired (t : RefreshTombstone) : Option Time → Bool
  | none => false
  | some now => !decide (now < t.expiresAt)

namespace MemoryStore

/-- `NewMemoryStore`. -/
def empty : MemoryStore := ⟨∅, ∅, ∅, ∅⟩

/-! ## Codes -/

/-- `SaveCode`. -/
def saveCode (env : Env) (s : MemoryStore) (value : String) (c : AuthorizationCode) :
    MemoryStore :=
  { s with codes := s.codes.set (env.tokenHash value) c }

/-- `GetCode`: a read, nothing is spent. -/
def getCode (env : Env) (s : MemoryStore) (value : String) : Except Error AuthorizationCode :=
  match s.codes.get (env.tokenHash value) with
  | none => .error .tokenNotFound
  | some c => .ok c

/-- `ConsumeCode`: the record leaves the store with the answer. -/
def consumeCode (env : Env) (s : MemoryStore) (value : String) :
    Except Error AuthorizationCode × MemoryStore :=
  match s.codes.get (env.tokenHash value) with
  | none => (.error .tokenNotFound, s)
  | some c => (.ok c, { s with codes := s.codes.del (env.tokenHash value) })

/-! ## Access tokens -/

/-- `SaveAccess`. -/
def saveAccess (env : Env) (s : MemoryStore) (value : String) (t : AccessToken) : MemoryStore :=
  { s with access := s.access.set (env.tokenHash value) t }

/-- `GetAccess`. -/
def getAccess (env : Env) (s : MemoryStore) (value : String) : Except Error AccessToken :=
  match s.access.get (env.tokenHash value) with
  | none => .error .tokenNotFound
  | some t => .ok t

/-- `DeleteAccess`. -/
def deleteAccess (env : Env) (s : MemoryStore) (value : String) : MemoryStore :=
  { s with access := s.access.del (env.tokenHash value) }

/-- `TokenOwner` answers for a live value, an access token or a refresh token. -/
def tokenOwner (env : Env) (s : MemoryStore) (value : String) : Except Error String :=
  match s.access.get (env.tokenHash value) with
  | some t => .ok t.clientID
  | none =>
    match s.refresh.get (env.tokenHash value) with
    | some t => .ok t.clientID
    | none => .error .tokenNotFound

/-! ## Refresh tokens -/

/-- `SaveRefresh`. -/
def saveRefresh (env : Env) (s : MemoryStore) (value : String) (t : RefreshToken) :
    MemoryStore :=
  { s with refresh := s.refresh.set (env.tokenHash value) t }

/-- `GetRefresh`: a read; a spent value is not found here. -/
def getRefresh (env : Env) (s : MemoryStore) (value : String) : Except Error RefreshToken :=
  match s.refresh.get (env.tokenHash value) with
  | none => .error .tokenNotFound
  | some t => .ok t

/-- `ConsumeRefresh`: a value the store holds is retired and leaves a tombstone; a value that has
left one is a replay and names its family. -/
def consumeRefresh (env : Env) (clock : Option Time) (s : MemoryStore) (value : String) :
    Except Error RefreshToken × MemoryStore :=
  match s.refresh.get (env.tokenHash value) with
  | none =>
    match s.tombstones.get (env.tokenHash value) with
    | some tomb =>
      if tomb.expired clock then (.error .tokenNotFound, s)
      else (.error (.refreshTokenReused tomb.familyID), s)
    | none => (.error .tokenNotFound, s)
  | some t =>
    (.ok t, { s with
      refresh := s.refresh.del (env.tokenHash value)
      tombstones := s.tombstones.set (env.tokenHash value)
        ⟨t.familyID, t.clientID, t.subject, t.expiresAt⟩ })

/-- `DeleteRefresh` clears the value's tombstone too. -/
def deleteRefresh (env : Env) (s : MemoryStore) (value : String) : MemoryStore :=
  { s with
    refresh := s.refresh.del (env.tokenHash value)
    tombstones := s.tombstones.del (env.tokenHash value) }

/-- `RefreshFamily`: the family of a live value from its record, of a spent one from its
tombstone. -/
def refreshFamily (env : Env) (clock : Option Time) (s : MemoryStore) (value : String) :
    Except Error String :=
  match s.refresh.get (env.tokenHash value) with
  | some t => .ok t.familyID
  | none =>
    match s.tombstones.get (env.tokenHash value) with
    | some tomb => if tomb.expired clock then .error .tokenNotFound else .ok tomb.familyID
    | none => .error .tokenNotFound

/-- `SpentRefreshOwner`: the owner of a value that was rotated, from its tombstone. -/
def spentRefreshOwner (env : Env) (clock : Option Time) (s : MemoryStore) (value : String) :
    Except Error String :=
  match s.tombstones.get (env.tokenHash value) with
  | none => .error .tokenNotFound
  | some tomb => if tomb.expired clock then .error .tokenNotFound else .ok tomb.clientID

/-- `RevokeRefreshFamily`: every generation of the family goes, and the number of token records
removed is reported. The empty family is no family. -/
def revokeRefreshFamily (s : MemoryStore) (familyID : String) : ℕ × MemoryStore :=
  if familyID = "" then (0, s)
  else
    ((s.refresh.filter fun _ t => t.familyID == familyID).size +
      (s.access.filter fun _ t => t.familyID == familyID).size,
     { s with
       refresh := s.refresh.filter fun _ t => t.familyID != familyID
       access := s.access.filter fun _ t => t.familyID != familyID
       tombstones := s.tombstones.filter fun _ t => t.familyID != familyID })

/-! ## Bulk operations -/

/-- The loops of the lifecycle revocations: every record, code and tombstone whose owner is
selected goes. -/
def dropOwned (s : MemoryStore) (sel : String → String → Bool) : MemoryStore where
  codes := s.codes.filter fun _ c => !sel c.clientID c.subject
  access := s.access.filter fun _ t => !sel t.clientID t.subject
  refresh := s.refresh.filter fun _ t => !sel t.clientID t.subject
  tombstones := s.tombstones.filter fun _ t => !sel t.clientID t.subject

/-- `DeleteBySubjectClient`. -/
def deleteBySubjectClient (s : MemoryStore) (subject clientID : String) : MemoryStore :=
  s.dropOwned fun c u => u == subject && c == clientID

/-- `RevokeTokens`: codes and tombstones go with the tokens and are not counted. -/
def revokeTokens (s : MemoryStore) (f : TokenFilter) : ℕ × MemoryStore :=
  ((s.access.filter fun _ t => f.matches t.clientID t.subject).size +
    (s.refresh.filter fun _ t => f.matches t.clientID t.subject).size,
   s.dropOwned f.matches)

/-- `SweepExpired`: what is past its deadline goes. -/
def sweepExpired (s : MemoryStore) (now : Time) : ℕ × MemoryStore :=
  ((s.codes.filter fun _ c => !decide (now < c.expiresAt)).size +
    (s.access.filter fun _ t => !decide (now < t.expiresAt)).size +
    (s.refresh.filter fun _ t => !decide (now < t.expiresAt)).size +
    (s.tombstones.filter fun _ t => !decide (now < t.expiresAt)).size,
   { codes := s.codes.filter fun _ c => decide (now < c.expiresAt)
     access := s.access.filter fun _ t => decide (now < t.expiresAt)
     refresh := s.refresh.filter fun _ t => decide (now < t.expiresAt)
     tombstones := s.tombstones.filter fun _ t => decide (now < t.expiresAt) })

/-! ## What an operation can leave behind -/

/-- Every record, code and tombstone of the first store is one of the second. -/
structure Within (s' s : MemoryStore) : Prop where
  codes : ∀ {k c}, s'.codes.get k = some c → s.codes.get k = some c
  access : ∀ {k t}, s'.access.get k = some t → s.access.get k = some t
  refresh : ∀ {k t}, s'.refresh.get k = some t → s.refresh.get k = some t
  tombstones : ∀ {k t}, s'.tombstones.get k = some t → s.tombstones.get k = some t

variable {s : MemoryStore} {env : Env} {value k : String} {clock : Option Time} {t : RefreshToken}

theorem Within.refl (s : MemoryStore) : s.Within s := ⟨id, id, id, id⟩

theorem consumeCode_within : (s.consumeCode env value).2.Within s := by
  unfold consumeCode
  split
  · exact .refl s
  · exact ⟨fun h => (get_of_get_del h).1, id, id, id⟩

theorem deleteAccess_within : (s.deleteAccess env value).Within s :=
  ⟨id, fun h => (get_of_get_del h).1, id, id⟩

theorem deleteRefresh_within : (s.deleteRefresh env value).Within s :=
  ⟨id, id, fun h => (get_of_get_del h).1, fun h => (get_of_get_del h).1⟩

theorem revokeRefreshFamily_within {familyID : String} : (s.revokeRefreshFamily familyID).2.Within s := by
  unfold revokeRefreshFamily
  split
  · exact .refl s
  · exact ⟨id, get_of_get_filter, get_of_get_filter, get_of_get_filter⟩

theorem dropOwned_within {sel : String → String → Bool} : (s.dropOwned sel).Within s :=
  ⟨get_of_get_filter, get_of_get_filter, get_of_get_filter, get_of_get_filter⟩

theorem deleteBySubjectClient_within {subject clientID : String} :
    (s.deleteBySubjectClient subject clientID).Within s := dropOwned_within

theorem sweepExpired_within {now : Time} : (s.sweepExpired now).2.Within s :=
  ⟨get_of_get_filter, get_of_get_filter, get_of_get_filter, get_of_get_filter⟩

/-- A code that is claimed was stored. -/
theorem get_of_consumeCode {c : AuthorizationCode} (h : (s.consumeCode env value).1 = .ok c) :
    s.codes.get (env.tokenHash value) = some c := by
  unfold consumeCode at h
  cases hv : s.codes.get (env.tokenHash value) with
  | none =>
    rw [hv] at h
    cases h
  | some c' =>
    rw [hv] at h
    cases h
    rfl

/-- What a claim answers and does: the record leaves, a tombstone for it comes. -/
theorem consumeRefresh_of_get (h : s.refresh.get (env.tokenHash value) = some t) :
    s.consumeRefresh env clock value = (.ok t, { s with
      refresh := s.refresh.del (env.tokenHash value)
      tombstones := s.tombstones.set (env.tokenHash value)
        ⟨t.familyID, t.clientID, t.subject, t.expiresAt⟩ }) := by
  unfold consumeRefresh
  rw [h]

/-- A value the store does not hold changes nothing. -/
theorem consumeRefresh_of_get_none (h : s.refresh.get (env.tokenHash value) = none) :
    (s.consumeRefresh env clock value).2 = s := by
  unfold consumeRefresh
  rw [h]
  dsimp only
  split
  · split <;> rfl
  · rfl

/-- What a value the store does not hold is answered. -/
theorem consumeRefresh_error (h : s.refresh.get (env.tokenHash value) = none) :
    (s.consumeRefresh env clock value).1 = .error .tokenNotFound ∨
      ∃ tomb, s.tombstones.get (env.tokenHash value) = some tomb ∧ tomb.expired clock = false ∧
        (s.consumeRefresh env clock value).1 = .error (.refreshTokenReused tomb.familyID) := by
  unfold consumeRefresh
  rw [h]
  dsimp only
  split
  · rename_i tomb htomb
    split
    · exact .inl rfl
    · rename_i hexp
      exact .inr ⟨tomb, htomb, by simpa using hexp, rfl⟩
  · exact .inl rfl

/-- A refresh value that is claimed was stored. -/
theorem get_of_consumeRefresh (h : (s.consumeRefresh env clock value).1 = .ok t) :
    s.refresh.get (env.tokenHash value) = some t := by
  cases hv : s.refresh.get (env.tokenHash value) with
  | none =>
    rcases consumeRefresh_error hv with he | ⟨tomb, -, -, he⟩ <;> rw [he] at h <;> cases h
  | some t' =>
    rw [consumeRefresh_of_get hv] at h
    cases h
    rfl

theorem consumeRefresh_refresh (h : (s.consumeRefresh env clock value).2.refresh.get k = some t) :
    s.refresh.get k = some t := by
  cases hv : s.refresh.get (env.tokenHash value) with
  | none => rwa [consumeRefresh_of_get_none hv] at h
  | some t' =>
    rw [consumeRefresh_of_get hv] at h
    exact (get_of_get_del h).1

theorem consumeRefresh_codes : (s.consumeRefresh env clock value).2.codes = s.codes := by
  cases hv : s.refresh.get (env.tokenHash value) with
  | none => rw [consumeRefresh_of_get_none hv]
  | some t => rw [consumeRefresh_of_get hv]

theorem consumeRefresh_access : (s.consumeRefresh env clock value).2.access = s.access := by
  cases hv : s.refresh.get (env.tokenHash value) with
  | none => rw [consumeRefresh_of_get_none hv]
  | some t => rw [consumeRefresh_of_get hv]

/-- The records of a pair that is selected are gone. -/
theorem dropOwned_spec (s : MemoryStore) (sel : String → String → Bool) :
    (∀ {k c}, (s.dropOwned sel).codes.get k = some c → sel c.clientID c.subject = false) ∧
    (∀ {k t}, (s.dropOwned sel).access.get k = some t → sel t.clientID t.subject = false) ∧
    (∀ {k t}, (s.dropOwned sel).refresh.get k = some t → sel t.clientID t.subject = false) := by
  refine ⟨fun h => ?_, fun h => ?_, fun h => ?_⟩ <;> simpa using ((get_filter_eq_some ..).1 h).2

end MemoryStore

end Re0Auth.OAuth

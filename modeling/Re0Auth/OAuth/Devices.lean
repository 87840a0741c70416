import Re0Auth.OAuth.Tokens

/-!
# The device store

`MemoryDeviceStore` (`oauth/device.go`): pending device authorizations, keyed by the hash of the
device code, and the index from normalised user codes to them. Every method runs under the store's
lock. The index and the records name each other (**`codes_name_each_other`**).
-/

namespace Re0Auth.OAuth

open Lib

/-- The lifecycle of a device authorization. -/
inductive DeviceStatus
  | pending | approved | denied
  deriving DecidableEq, Repr

/-- The persisted request. -/
structure DeviceAuthorizationRecord where
  deviceCodeHash : String
  userCode : String
  clientID : String
  scopes : List Scope
  status : DeviceStatus
  subject : String
  explicit : List Scope
  expiresAt : Time
  lastPoll : Time
  deriving DecidableEq, Repr

/-- The outcome of a verification page. -/
structure DeviceDecision where
  status : DeviceStatus
  subject : String
  scopes : List Scope
  explicit : List Scope
  deriving DecidableEq, Repr

/-- `NormalizeUserCode`: case and separators do not count. -/
def normalizeUserCode (env : Env) (s : String) : String :=
  String.ofList ((env.toUpper (env.trimSpace s)).toList.filter (· ≠ '-'))

/-- **`MemoryDeviceStore`**. -/
structure MemoryDeviceStore where
  byDev : Dict String DeviceAuthorizationRecord
  byUser : Dict String String

namespace MemoryDeviceStore

/-- `NewMemoryDeviceStore`. -/
def empty : MemoryDeviceStore := ⟨∅, ∅⟩

/-- `SaveDevice`: a device code and a normalised user code each name one request. -/
def saveDevice (env : Env) (s : MemoryDeviceStore) (deviceCode : String)
    (d : DeviceAuthorizationRecord) : Except Error MemoryDeviceStore :=
  let hash := env.tokenHash deviceCode
  let canonical := normalizeUserCode env d.userCode
  match s.byDev.get hash with
  | some _ => .error (.other "oauth: device code already stored")
  | none =>
    match s.byUser.get canonical with
    | some _ => .error (.userCodeConflict canonical)
    | none => .ok ⟨s.byDev.set hash { d with deviceCodeHash := hash }, s.byUser.set canonical hash⟩

/-- `GetDevice`. -/
def getDevice (env : Env) (s : MemoryDeviceStore) (deviceCode : String) :
    Except Error DeviceAuthorizationRecord :=
  match s.byDev.get (env.tokenHash deviceCode) with
  | none => .error .deviceNotFound
  | some d => .ok d

/-- `GetDeviceByUserCode`. -/
def getDeviceByUserCode (env : Env) (s : MemoryDeviceStore) (userCode : String) :
    Except Error DeviceAuthorizationRecord :=
  match s.byUser.get (normalizeUserCode env userCode) with
  | none => .error .deviceNotFound
  | some hash =>
    match s.byDev.get hash with
    | none => .error .deviceNotFound
    | some d => .ok d

/-- `RecordPoll` stamps the poll and nothing else. -/
def recordPoll (s : MemoryDeviceStore) (deviceCodeHash : String) (at_ : Time) :
    Except Error MemoryDeviceStore :=
  match s.byDev.get deviceCodeHash with
  | none => .error .deviceNotFound
  | some d => .ok { s with byDev := s.byDev.set deviceCodeHash { d with lastPoll := at_ } }

/-- `RecordDecision`: only a pending request takes one. -/
def recordDecision (s : MemoryDeviceStore) (deviceCodeHash : String) (dec : DeviceDecision) :
    Bool × MemoryDeviceStore :=
  match s.byDev.get deviceCodeHash with
  | none => (false, s)
  | some d =>
    if d.status = .pending then
      (true, { s with byDev := s.byDev.set deviceCodeHash { d with
        status := dec.status, subject := dec.subject, scopes := dec.scopes,
        explicit := dec.explicit } })
    else (false, s)

/-- `ConsumeDevice`: an approved request is handed to one caller and removed. The index entry of
its user code goes only if it still names this request. -/
def consumeDevice (env : Env) (s : MemoryDeviceStore) (deviceCodeHash : String) :
    Option DeviceAuthorizationRecord × MemoryDeviceStore :=
  match s.byDev.get deviceCodeHash with
  | none => (none, s)
  | some d =>
    if d.status = .approved then
      let key := normalizeUserCode env d.userCode
      (some d,
       { byDev := s.byDev.del deviceCodeHash
         byUser := if s.byUser.get key = some deviceCodeHash then s.byUser.del key else s.byUser })
    else (none, s)

theorem get_of_consumeDevice {env : Env} {s : MemoryDeviceStore} {hash : String}
    {d : DeviceAuthorizationRecord} (h : (s.consumeDevice env hash).1 = some d) :
    s.byDev.get hash = some d ∧ d.status = .approved := by
  rw [consumeDevice] at h
  split at h
  · cases h
  · rename_i d₀ hget
    split at h
    · rename_i happroved
      cases h
      exact ⟨hget, happroved⟩
    · cases h

/-- A record of the store is past its deadline. -/
def stale (s : MemoryDeviceStore) (now : Time) (hash : String) :
    Option DeviceAuthorizationRecord :=
  (s.byDev.get hash).filter fun d => !decide (now < d.expiresAt)

/-- `SweepExpired`: the stale records go, each with the index entry of its user code where that
entry still names it. -/
def sweepExpired (env : Env) (s : MemoryDeviceStore) (now : Time) : ℕ × MemoryDeviceStore :=
  ((s.byDev.filter fun _ d => !decide (now < d.expiresAt)).size,
   { byDev := s.byDev.filter fun _ d => decide (now < d.expiresAt)
     byUser := s.byUser.filter fun key hash =>
       !((s.stale now hash).any fun d => normalizeUserCode env d.userCode == key) })

/-! ## The index -/

/-- The calls that change the store. -/
inductive Change
  | saveDevice (deviceCode : String) (d : DeviceAuthorizationRecord)
  | recordPoll (deviceCodeHash : String) (at_ : Time)
  | recordDecision (deviceCodeHash : String) (dec : DeviceDecision)
  | consumeDevice (deviceCodeHash : String)
  | sweepExpired (now : Time)

/-- The store after a call; one that fails leaves it as it is. -/
def apply (env : Env) (s : MemoryDeviceStore) : Change → MemoryDeviceStore
  | .saveDevice deviceCode d => (s.saveDevice env deviceCode d).toOption.getD s
  | .recordPoll hash at_ => (s.recordPoll hash at_).toOption.getD s
  | .recordDecision hash dec => (s.recordDecision hash dec).2
  | .consumeDevice hash => (s.consumeDevice env hash).2
  | .sweepExpired now => (s.sweepExpired env now).2

/-- **Indexed**: the index has the normalised user code of every record, and nothing else. -/
def Indexed (env : Env) (s : MemoryDeviceStore) : Prop :=
  ∀ code hash, s.byUser.get code = some hash ↔
    ∃ d, s.byDev.get hash = some d ∧ normalizeUserCode env d.userCode = code

variable {env : Env} {s : MemoryDeviceStore}

/-- A record that keeps its user code. -/
theorem Indexed.update {hash : String} {d d' : DeviceAuthorizationRecord} (h : s.Indexed env)
    (hd : s.byDev.get hash = some d) (hcode : d'.userCode = d.userCode) :
    Indexed env { s with byDev := s.byDev.set hash d' } := by
  intro code hash'
  rw [h code hash', Dict.get_set]
  split_ifs with hh
  · simp [hh, hd, hcode]
  · rfl

theorem Indexed.apply (h : s.Indexed env) (c : Change) : (s.apply env c).Indexed env := by
  unfold MemoryDeviceStore.apply
  cases c with
  | saveDevice deviceCode d =>
    dsimp only
    rw [saveDevice]
    split
    · exact h
    · split
      · exact h
      · rename_i hfree
        intro code hash
        simp only [Except.toOption, Option.getD_some, Dict.get_set]
        have := h (normalizeUserCode env d.userCode)
        have := h code hash
        grind
  | recordPoll hash at_ =>
    dsimp only
    rw [recordPoll]
    split
    · exact h
    · rename_i d hd
      exact h.update hd rfl
  | recordDecision hash dec =>
    dsimp only
    rw [recordDecision]
    split
    · exact h
    · rename_i d hd
      split_ifs
      · exact h.update hd rfl
      · exact h
  | consumeDevice hash =>
    dsimp only
    rw [consumeDevice]
    split
    · exact h
    · rename_i d hd
      have hentry := (h _ _).2 ⟨d, hd, rfl⟩
      dsimp only
      rw [if_pos hentry]
      split_ifs
      · intro code hash'
        have hiff := h code hash'
        simp only [Dict.get_del]
        grind
      · exact h
  | sweepExpired now =>
    intro code hash
    have hiff := h code hash
    simp only [sweepExpired, stale, Dict.get_filter_eq_some, hiff]
    grind

/-- **Device codes and user codes name each other** in every state that calls lead to. -/
theorem codes_name_each_other (env : Env) (cs : List Change) :
    Indexed env (cs.foldl (MemoryDeviceStore.apply env) empty) := by
  refine List.foldlRecOn (motive := Indexed env) cs _ ?_ fun s hs c _ => hs.apply c
  intro code hash
  simp [empty]

end MemoryDeviceStore

end Re0Auth.OAuth

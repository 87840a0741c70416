import Re0Auth.Vault.Repo

/-!
# Bindings

A user's authorization for an upstream source (`internal/federation/binding.go`, `bind.go`,
`federation.go`). The row of a binding holds no credential: the token pair lies in the vault under
the binding's identity.

* **`Source`**, **`Binding`**, **`BindFlow`**, **`BindingSecret`**: the data;
* **`Ref`**: which binding, with its key in the binding store and its identity in the vault;
* **`MemoryBindingStore`**: the rows, each operation of which is one atomic step.
-/

namespace Re0Auth.Federation

open Lib OAuth Vault

/-- `SourceStatus`. -/
inductive SourceStatus
  | active | degraded | retired
  deriving DecidableEq, Repr

/-- `token_class`. -/
inductive TokenClass
  | revocable | longLived
  deriving DecidableEq, Repr

/-- `Source`: what the binding flow reads of a configured upstream source. -/
structure Source where
  game : String
  name : String
  status : SourceStatus
  tokenClass : TokenClass
  clientID : String
  /-- Empty where the source cannot end a session. -/
  cascadeRevocationEndpoint : String
  deriving DecidableEq, Repr

/-- **A binding is named** by its user, game and source. -/
structure Ref where
  user : String
  game : String
  source : String
  deriving DecidableEq, Repr

/-- `bindingKey`. -/
def Ref.bindingKey (k : Ref) : String := k.user ++ "|" ++ k.game ++ "|" ++ k.source

/-- `BindingIdentity`. -/
def Ref.identity (k : Ref) : Identity := ⟨k.user, k.game ++ "." ++ k.source⟩

/-- `Binding`: the row; an expiry of zero is Go's zero time. -/
structure Binding where
  ref : Ref
  tokenType : String
  expiry : Time
  hasRefresh : Bool
  version : UInt64
  deriving DecidableEq, Repr

/-- `bindingSecret`: what the vault protects. -/
structure BindingSecret where
  accessToken : String
  refreshToken : String
  deriving DecidableEq, Repr

/-- `BindFlow`: a pending binding. `bound` is the version the account was bound at when the flow
began. -/
structure BindFlow where
  id : String
  ref : Ref
  verifier : String
  state : String
  returnTo : String
  expiresAt : Time
  bound : Option UInt64
  deriving DecidableEq, Repr

/-- `oauth2.Token`, as a source answers. -/
structure Token where
  accessToken : String
  refreshToken : String
  tokenType : String
  expiry : Time
  deriving DecidableEq, Repr

/-- A row that is stored under the key of `k`. -/
abbrev Row (k : Ref) : Type := { b : Binding // b.ref.bindingKey = k.bindingKey }

/-- `MemoryBindingStore`: the map, in which every row lies under its own key; the ordered listings of
the keys are left out. -/
structure MemoryBindingStore where
  m : Dict String Binding
  keyed : ∀ key b, m.get key = some b → b.ref.bindingKey = key

namespace MemoryBindingStore

/-- `NewMemoryBindingStore`. -/
def empty : MemoryBindingStore := ⟨∅, nofun⟩

variable (s : MemoryBindingStore)

/-- **`Get`**; `none` is `ErrNotBound`. -/
def get (k : Ref) : Option (Row k) := (s.m.get k.bindingKey).attach.map fun b => ⟨b.1, s.keyed _ _ b.2⟩

/-- The store with a row written. -/
def set (b : Binding) : MemoryBindingStore where
  m := s.m.set b.ref.bindingKey b
  keyed := by
    intro key b' hb'
    obtain hold | ⟨rfl, rfl⟩ := Dict.get_of_get_set hb'
    · exact s.keyed key b' hold
    · rfl

/-- **`PutIfVersion`**: the row is replaced only at the version expected. -/
def putIfVersion (b : Binding) (expected : UInt64) : Bool × MemoryBindingStore :=
  match s.m.get b.ref.bindingKey with
  | none => (false, s)
  | some existing => if existing.version ≠ expected then (false, s) else (true, s.set b)

/-- **`Create`**: the row is stored only where there is none. -/
def create (b : Binding) : Bool × MemoryBindingStore :=
  match s.m.get b.ref.bindingKey with
  | some _ => (false, s)
  | none => (true, s.set b)

/-- **`Delete`**: deleting an absent row is not an error. -/
def delete (k : Ref) : MemoryBindingStore where
  m := s.m.del k.bindingKey
  keyed key b hb := s.keyed key b (Dict.get_of_get_del hb).1

variable {s} {b : Binding} {k : Ref} {v : UInt64}

theorem get_eq_none_iff : s.get k = none ↔ s.m.get k.bindingKey = none := by
  simp [get]

theorem get_eq_some_iff {r : Row k} : s.get k = some r ↔ s.m.get k.bindingKey = some r.1 := by
  cases h : s.m.get k.bindingKey with
  | none => simp [get, h]
  | some b => simp [get, h, Subtype.ext_iff]

/-- A write removes no row. -/
theorem get_set_ne_none {key : String} (h : s.m.get key ≠ none) : (s.set b).m.get key ≠ none := by
  rw [set, Dict.get_set]
  split_ifs
  · exact Option.some_ne_none b
  · exact h

/-- A claim that is won stores the row, over one at the version expected. -/
theorem putIfVersion_cases : (s.putIfVersion b v = (false, s)) ∨
    ∃ old, s.m.get b.ref.bindingKey = some old ∧ old.version = v ∧
      s.putIfVersion b v = (true, s.set b) := by
  rw [putIfVersion]
  cases s.m.get b.ref.bindingKey with
  | none => exact .inl rfl
  | some old =>
    dsimp only
    split_ifs with hv
    · exact .inl rfl
    · exact .inr ⟨old, rfl, not_not.1 hv, rfl⟩

/-- A first claim that is won stores the row where there was none. -/
theorem create_cases : (s.create b = (false, s)) ∨
    s.m.get b.ref.bindingKey = none ∧ s.create b = (true, s.set b) := by
  rw [create]
  cases s.m.get b.ref.bindingKey with
  | none => exact .inr ⟨rfl, rfl⟩
  | some old => exact .inl rfl

end MemoryBindingStore

/-- `preferredToken`, with its hint. -/
def preferredToken (secret : BindingSecret) : String × String :=
  if secret.refreshToken ≠ "" then (secret.refreshToken, "refresh_token")
  else if secret.accessToken ≠ "" then (secret.accessToken, "access_token")
  else ("", "")

end Re0Auth.Federation

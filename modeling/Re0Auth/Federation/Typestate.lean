import Re0Auth.Federation.Service

/-!
# The order of a binding's writes

Every writer of a binding goes about its row and its secret in one of two orders. A refresh or a bind
claims the row first and stores the secret after it; a removal shreds the secret first and deletes the
row after it. This module states both orders as a typestate.

* **`Stage`**: where a call stands between its first and its last write;
* **`Phase`**: the stage, the mutex the call holds and the refresh tokens it has replaced;
* **`Allowed`**: the operations that are in order, and **`Move`**, where they take a call.
-/

namespace Re0Auth.Federation

open Lib OAuth Vault

/-- **Stage** of a call that writes a binding. -/
inductive Stage
  | idle
  /-- The row was read under the lock. -/
  | fresh (b : Binding)
  /-- The secret was read after the row. -/
  | opened (b : Binding) (token : String)
  /-- The source took the refresh token and answered with the next pair. -/
  | renewed (b : Binding) (token : String) (next : BindingSecret)
  /-- The source refused the refresh token. -/
  | rejected (b : Binding) (token : String)
  /-- The row was read again, and it had not moved or was gone. -/
  | condemned (b : Binding) (token : String)
  /-- A code was exchanged for a first pair. -/
  | exchanged (next : BindingSecret)
  /-- The row is claimed and the secret not yet written; `spent` is the token a refresh replaces. -/
  | storing (k : Ref) (next : BindingSecret) (spent : Option String)
  /-- The write of the secret failed. -/
  | unstored (k : Ref)
  /-- The secret is shredded and the row not yet deleted; `cause` is the row and the token a rejected
  refresh was about. -/
  | removing (k : Ref) (cause : Option (Binding × String))
  deriving DecidableEq

namespace Stage

/-- After the row was read under the lock. -/
def read (latest : Except Error Binding) : Stage → Stage
  | rejected b token =>
    match latest with
    | .ok l => if l.version ≠ b.version then idle else condemned b token
    | .error e => if e.isNotBound then condemned b token else idle
  | _ =>
    match latest with
    | .ok l => fresh l
    | .error _ => idle

/-- After the secret was read. -/
def «open» (secret : Except Error BindingSecret) : Stage → Stage
  | fresh b =>
    match secret with
    | .ok s => opened b s.refreshToken
    | .error _ => idle
  | _ => idle

/-- After a refresh grant. -/
def grant (answer : Grant) : Stage → Stage
  | opened b token =>
    match answer with
    | .granted t =>
      renewed b token ⟨t.accessToken, if t.refreshToken ≠ "" then t.refreshToken else token⟩
    | .rejected => rejected b token
    | .transient => idle
  | _ => idle

/-- After a claim of the row. -/
def claim (k : Ref) (won : Except Error Bool) : Stage → Stage
  | renewed _ token next =>
    match won with
    | .ok true => storing k next (some token)
    | _ => idle
  | exchanged next =>
    match won with
    | .ok true => storing k next none
    | _ => idle
  | _ => idle

/-- After the secret was shredded, or was not. -/
def shred (k : Ref) (done : Except Error Unit) : Stage → Stage
  | unstored _ => idle
  | condemned b token =>
    match done with
    | .ok () => removing k (some (b, token))
    | .error _ => idle
  | _ =>
    match done with
    | .ok () => removing k none
    | .error _ => idle

/-- Nothing has been written and no source has answered. -/
def Reading : Stage → Prop
  | idle | fresh _ | opened _ _ => True
  | _ => False

/-- The refresh token whose replacement is being stored. -/
def replacing : Stage → List String
  | storing _ _ (some token) => [token]
  | _ => []

end Stage

/-- **Phase** of a call. -/
structure Phase where
  call : Call
  /-- The process and the key of the mutex it holds. -/
  held : Option (ℕ × String)
  stage : Stage
  /-- The refresh tokens whose replacement it has stored. -/
  replaced : List String

/-- The phase of a call that has done nothing. -/
def Phase.start (c : Call) : Phase := ⟨c, none, .idle, []⟩

/-- **The phase after an operation.** -/
def Phase.advance (p : Phase) : (op : Op) → op.Res → Phase
  | .lock process key, _ => { p with held := some (process, key), stage := .idle }
  | .unlock _ _, _ => { p with held := none, stage := .idle }
  | .getBinding _, r =>
    if p.held.isSome then { p with stage := p.stage.read (r.map (·.1)) } else p
  | .use _, r => { p with stage := p.stage.open r }
  | .refreshGrant _ _, r => { p with stage := p.stage.grant r }
  | .exchange _ _ _, r =>
    match r with
    | .ok t => { p with stage := .exchanged ⟨t.accessToken, t.refreshToken⟩ }
    | .error _ => { p with stage := .idle }
  | .putIfVersion b _, r => { p with stage := p.stage.claim b.ref r }
  | .create b, r => { p with stage := p.stage.claim b.ref r }
  | .enroll k _, r =>
    match r with
    | .ok () => { p with stage := .idle, replaced := p.stage.replacing ++ p.replaced }
    | .error _ => { p with stage := .unstored k }
  | .revokeSecret k, r => { p with stage := p.stage.shred k r }
  | .deleteBinding _, _ => { p with stage := .idle }
  | _, _ => p

/-- The call holds the lock of the binding. -/
def Phase.Holds (p : Phase) (k : Ref) : Prop := ∃ process, p.held = some (process, k.bindingKey)

/-- The calls that remove a binding whatever its source says of it. -/
def Call.removes : Call → Prop
  | .unbind _ _ | .cascadeRevoke _ _ | .revokeBinding _ _ => True
  | _ => False

/-- The calls that exchange a code. -/
def Call.binds : Call → Prop
  | .completeBind _ _ _ _ => True
  | _ => False

/-- **Operations that are in order.** -/
def Allowed (p : Phase) : Op → Prop
  | .lock _ _ => p.held = none
  | .getBinding k => ∀ b token, p.stage = .rejected b token → k = b.ref
  | .use k => ∀ b, p.stage = .fresh b → k = b.ref
  | .refreshGrant _ token => ∃ b, p.stage = .opened b token
  | .exchange _ _ _ => p.call.binds
  | .putIfVersion b expected => p.Holds b.ref ∧
    ((∃ next, p.stage = .exchanged next) ∨
      ∃ old token next, p.stage = .renewed old token next ∧ b.ref = old.ref ∧
        expected = old.version ∧ b.version = old.version + 1)
  | .create b => p.Holds b.ref ∧ ∃ next, p.stage = .exchanged next
  | .enroll k secret => p.Holds k ∧ ∃ spent, p.stage = .storing k secret spent
  | .revokeSecret k => p.Holds k ∧
    (p.call.binds ∧ p.stage = .unstored k ∨ (∃ b token, p.stage = .condemned b token ∧ k = b.ref) ∨
      p.call.removes ∧ p.stage.Reading)
  | .deleteBinding k => p.Holds k ∧
    ∃ k' cause, p.stage = .removing k' cause ∧ k'.bindingKey = k.bindingKey
  | _ => True

/-- The operation writes a row or a secret. -/
def Op.writes : Op → Bool
  | putIfVersion _ _ | create _ | deleteBinding _ | enroll _ _ | revokeSecret _ => true
  | _ => false

/-- **Moves**: how an operation that is in order takes a call from one stage to the next. -/
inductive Move : (op : Op) → op.Res → Stage → Stage → Prop
  | keep {op : Op} {r : op.Res} {st : Stage} (h : op.writes = false) : Move op r st st
  | drop {op : Op} {r : op.Res} {st : Stage} : Move op r st .idle
  | read {k : Ref} {row : Row k} {st : Stage} : Move (.getBinding k) (.ok row) st (.fresh row.1)
  | confirm {b : Binding} {row : Row b.ref} {token : String} (h : row.1.version = b.version) :
    Move (.getBinding b.ref) (.ok row) (.rejected b token) (.condemned b token)
  | gone {b : Binding} {e : Error} {token : String} (h : e.isNotBound = true) :
    Move (.getBinding b.ref) (.error e) (.rejected b token) (.condemned b token)
  | «open» {b : Binding} {s : BindingSecret} :
    Move (.use b.ref) (.ok s) (.fresh b) (.opened b s.refreshToken)
  | grant {src : Source} {b : Binding} {token : String} {t : Token} :
    Move (.refreshGrant src token) (.granted t) (.opened b token)
      (.renewed b token ⟨t.accessToken, if t.refreshToken ≠ "" then t.refreshToken else token⟩)
  | reject {src : Source} {b : Binding} {token : String} :
    Move (.refreshGrant src token) .rejected (.opened b token) (.rejected b token)
  | exchange {src : Source} {code verifier : String} {t : Token} {st : Stage} :
    Move (.exchange src code verifier) (.ok t) st (.exchanged ⟨t.accessToken, t.refreshToken⟩)
  | claim {b old : Binding} {token : String} {next : BindingSecret} (href : b.ref = old.ref)
    (hversion : b.version = old.version + 1) :
    Move (.putIfVersion b old.version) (.ok true) (.renewed old token next)
      (.storing b.ref next (some token))
  | rebind {b : Binding} {v : UInt64} {next : BindingSecret} :
    Move (.putIfVersion b v) (.ok true) (.exchanged next) (.storing b.ref next none)
  | create {b : Binding} {next : BindingSecret} :
    Move (.create b) (.ok true) (.exchanged next) (.storing b.ref next none)
  | fail {k : Ref} {s : BindingSecret} {e : Error} {st : Stage} :
    Move (.enroll k s) (.error e) st (.unstored k)
  | condemn {b : Binding} {token : String} :
    Move (.revokeSecret b.ref) (.ok ()) (.condemned b token) (.removing b.ref (some (b, token)))
  | shred {k : Ref} {st : Stage} (h : st.Reading) :
    Move (.revokeSecret k) (.ok ()) st (.removing k none)

variable {op : Op} {p : Phase} {k k' : Ref}

/-- Only a row that is read under a lock counts. -/
theorem advance_getBinding (r : Except Error (Row k)) : p.advance (.getBinding k) r =
    if p.held.isSome then { p with stage := p.stage.read (r.map (·.1)) } else p :=
  rfl

theorem Move.of_advance {p : Phase} (r : op.Res) (ha : Allowed p op) :
    Move op r p.stage (p.advance op r).stage := by
  cases op with
  | lock | unlock | deleteBinding => exact .drop
  | getBinding k =>
    rw [advance_getBinding]
    split
    · show Move _ _ p.stage (p.stage.read _)
      unfold Stage.read
      split
      · rename_i b token hst
        obtain rfl := ha b token hst
        rw [hst]
        rcases r with e | row
        · by_cases he : e.isNotBound = true
          · simpa [Except.map, he] using Move.gone he
          · simpa [Except.map, he] using Move.drop
        · by_cases hv : row.1.version = b.version
          · simpa [Except.map, hv] using Move.confirm hv
          · simpa [Except.map, hv] using Move.drop
      · rcases r with e | row
        · exact .drop
        · exact .read
    · exact .keep rfl
  | use k =>
    show Move _ _ p.stage (p.stage.open r)
    cases hst : p.stage with
    | fresh b =>
      obtain rfl := ha b hst
      rcases r with e | s
      · exact .drop
      · exact .open
    | _ => exact .drop
  | refreshGrant src token =>
    obtain ⟨b, hst⟩ := ha
    show Move _ _ p.stage (p.stage.grant r)
    rw [hst]
    cases r with
    | granted t => exact .grant
    | rejected => exact .reject
    | transient => exact .drop
  | exchange src code verifier =>
    rcases r with e | t
    · exact .drop
    · exact .exchange
  | putIfVersion b expected =>
    show Move _ _ p.stage (p.stage.claim b.ref r)
    obtain ⟨-, ⟨next, hst⟩ | ⟨old, token, next, hst, href, rfl, hversion⟩⟩ := ha
    all_goals rw [hst]; rcases r with e | won
    · exact .drop
    · cases won
      · exact .drop
      · exact .rebind
    · exact .drop
    · cases won
      · exact .drop
      · exact .claim href hversion
  | create b =>
    show Move _ _ p.stage (p.stage.claim b.ref r)
    obtain ⟨-, next, hst⟩ := ha
    rw [hst]
    rcases r with e | won
    · exact .drop
    · cases won
      · exact .drop
      · exact .create
  | enroll k secret =>
    rcases r with e | _
    · exact .fail
    · exact .drop
  | revokeSecret k =>
    show Move _ _ p.stage (p.stage.shred k r)
    obtain ⟨-, ⟨-, hst⟩ | ⟨b, token, hst, rfl⟩ | ⟨-, hreading⟩⟩ := ha
    · rw [hst]
      exact .drop
    · rw [hst]
      rcases r with e | _
      · exact .drop
      · exact .condemn
    · rcases r with e | _
      · cases p.stage <;> exact .drop
      · cases hst : p.stage <;> rw [hst] at hreading <;> first | exact .shred trivial | cases hreading
  | _ => exact .keep rfl

/-- **The typestate** of the service. -/
abbrev typestate (cfg : Config) : Typestate (federation cfg) where
  Phase := Phase
  start := Phase.start
  allowed := Allowed
  advance := Phase.advance

/-! ## Phases -/

theorem advance_call (op : Op) (r : op.Res) : (p.advance op r).call = p.call := by
  cases op with
  | getBinding =>
    rw [advance_getBinding]
    split <;> rfl
  | exchange | enroll => rcases r with e | t <;> rfl
  | _ => rfl

/-- The operation takes a lock or gives one back. -/
def Op.onLock : Op → Bool
  | lock _ _ | unlock _ _ => true
  | _ => false

theorem Phase.held_advance (hop : op.onLock = false) (r : op.Res) : (p.advance op r).held = p.held := by
  cases op with
  | lock i key => cases hop
  | unlock i key => cases hop
  | getBinding =>
    rw [advance_getBinding]
    split <;> rfl
  | exchange | enroll => rcases r with e | t <;> rfl
  | _ => rfl

/-- The lock is held until it is given back. -/
theorem Phase.Holds.advance (h : p.Holds k) {r : op.Res} (hop : op.onLock = false) :
    (p.advance op r).Holds k := by
  obtain ⟨process, hheld⟩ := h
  exact ⟨process, (Phase.held_advance hop r).trans hheld⟩

/-- A row that is read under the lock moves the stage on. -/
theorem Phase.Holds.read (h : p.Holds k) (r : Except Error (Row k')) :
    (p.advance (.getBinding k') r).stage = p.stage.read (r.map (·.1)) := by
  obtain ⟨process, hheld⟩ := h
  simp [advance_getBinding, hheld]

/-- A call with nothing in hand may read any row. -/
theorem allowed_getBinding (hst : p.stage = .idle) : Allowed p (.getBinding k) := by
  intro b token hb
  rw [hst] at hb
  cases hb

/-- Two bindings under one key have one lock. -/
theorem Phase.Holds.congr (h : p.Holds k) (hk : k'.bindingKey = k.bindingKey) : p.Holds k' := by
  obtain ⟨process, hheld⟩ := h
  exact ⟨process, by rw [hheld, hk]⟩

/-- **A call that may remove**: it holds the lock, and it has only read so far. -/
structure Phase.Removes (p : Phase) (k : Ref) : Prop where
  holds : p.Holds k
  call : p.call.removes
  stage : p.stage.Reading

/-- Reading the secret leaves a call a reader. -/
theorem Phase.Removes.use (h : p.Removes k) (r : Except Error BindingSecret) :
    (p.advance (.use k') r).Removes k := by
  refine ⟨h.holds.advance rfl, h.call, ?_⟩
  show (p.stage.open r).Reading
  rcases r with e | secret <;> cases p.stage <;> trivial

/-- The row a removal reads under the lock, and the secret it may read after it. -/
theorem Phase.Removes.row (hp : p.Removes k) (hst : p.stage = .idle) (binding : Row k) :
    (p.advance (.getBinding k) (.ok binding)).Removes k ∧
      Allowed (p.advance (.getBinding k) (.ok binding)) (.use binding.1.ref) := by
  have hfresh : (p.advance (.getBinding k) (.ok binding)).stage = .fresh binding.1 := by
    rw [hp.holds.read, hst]
    rfl
  refine ⟨⟨hp.holds.advance rfl, ?_, ?_⟩, ?_⟩
  · rw [advance_call]
    exact hp.call
  · rw [hfresh]
    trivial
  · intro b hb
    rw [hfresh] at hb
    cases hb
    rfl

end Re0Auth.Federation

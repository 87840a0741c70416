import Re0Auth.Federation.OneProcess

/-!
# Bind flows that outlive their binding

A bind flow remembers whether its account was bound when it began, and at which version. `CompleteBind`
claims the row against that memory: `ErrBindSuperseded` is what a bind is refused with whose binding was
removed after the flow began. The memory is not of the removal but of the state before it, and a flow that
began unbound finds the state it remembers once more when a binding was made and removed in between.

* **`Pending`**: the flows of a binding that have not claimed its row, and what they remember;
* **`Sole`**: no claim of the row makes a state another pending flow remembers;
* **`superseded`**: in every run with that property, a flow begun before a removal changes nothing after
  it, and its bind is refused;
* **`resurrected`**: two flows begun unbound, the second one completed, the account unbound, and the first
  one completed.
-/

namespace Re0Auth.Federation

open Lib OAuth Vault Function Pool Dict MemoryBindingStore List Option Bool Custody

variable {cfg : Config} {op : Op} {ω : Choice} {sh sh' : Shared} {r : op.Res} {i j P : ℕ}
  {k k₀ : Ref} {p q : Phase × Custody} {ph : ℕ → Option (Phase × Custody)} {x : String}
  {β : Option UInt64} {o : Option ℕ} {f : BindFlow} {D : ℕ → Prop} {c : Call}
  {σ₀ σ₁ σ₂ τ : Process cfg}

/-! ## Pending flows -/

/-- **Pending flow** of a binding: its name, the version it remembers, and the call that has it; `none`
is the store. -/
inductive Pending (k₀ : Ref) (sh : Shared) (ph : ℕ → Option (Phase × Custody)) :
    String → Option UInt64 → Option ℕ → Prop
  | stored {state : String} {f : BindFlow} (h : sh.flows.get state = some f) (href : f.ref = k₀) :
    Pending k₀ sh ph f.id f.bound none
  | taken {j : ℕ} {q : Phase × Custody} {f : BindFlow} (hj : ph j = some q) (hf : q.2.flow = some f)
    (hclaim : q.2.claim = none) (href : f.ref = k₀) : Pending k₀ sh ph f.id f.bound (some j)
  /-- The row is read and the flow not yet stored. -/
  | begun {j : ℕ} {q : Phase × Custody} {returnTo x : String} {β : Option UInt64} (hj : ph j = some q)
    (hcall : q.2.call = .beginBind k₀ returnTo) (hx : q.2.drawn = some x) (hβ : q.2.seen = some β) :
    Pending k₀ sh ph x β (some j)

/-- The operation claims a row. -/
def Op.claims : Op → Bool
  | .create _ | .putIfVersion _ _ => true
  | _ => false

/-- A bind that has drawn the name `x` for a flow of the binding reads the row. -/
structure Reads (k₀ : Ref) (sh : Shared) (p : Custody) (op : Op) (x : String) (β : Option UInt64) : Prop where
  begins : ∃ returnTo, p.call = .beginBind k₀ returnTo
  drawn : p.drawn = some x
  unseen : p.seen = none
  get : op = .getBinding k₀
  row : β = (sh.row k₀).map (·.version)

variable (hi : ph i = some p) (ha : InCustody p.2 op) (hex : exec op ω sh = some (r, sh'))

include hi ha hex in
/-- A flow that a call has after its operation was pending before it, or begins with it. -/
theorem Pending.of_call (hf : (p.2.advance op r).flow = some f)
    (hclaim : (p.2.advance op r).claim = none) (href : f.ref = k₀) :
    ∃ o, Pending k₀ sh ph f.id f.bound o ∧ (o = some i → op.claims = false) := by
  cases op with
  | consumeFlow state =>
    rcases r with e | f'
    · exact ⟨_, .taken hi hf hclaim href, fun _ => rfl⟩
    · cases hf
      exact ⟨_, .stored (exec_consumeFlow hex) href, fun _ => rfl⟩
  | putFlow f' => cases hf
  | getBinding k => rcases r with e | row <;> exact ⟨_, .taken hi hf hclaim href, fun _ => rfl⟩
  | newBindID => rcases r with e | id <;> exact ⟨_, .taken hi hf hclaim href, fun _ => rfl⟩
  | create | putIfVersion => cases hclaim
  | _ => exact ⟨_, .taken hi hf hclaim href, fun _ => rfl⟩

include hi ha hex in
/-- What a bind that begins remembers after an operation it remembered before, or has just read. -/
theorem Pending.of_begun {returnTo : String} (hcall : p.2.call = .beginBind k₀ returnTo)
    (hx : (p.2.advance op r).drawn = some x) (hβ : (p.2.advance op r).seen = some β) :
    (∃ o, Pending k₀ sh ph x β o ∧ (o = some i → op.claims = false)) ∨ Reads k₀ sh p.2 op x β := by
  have hprocess : p.2.call.process = none := by
    rw [hcall]
    rfl
  cases op with
  | getBinding k =>
    obtain ⟨⟨returnTo', hcall'⟩, hseen⟩ := ha hprocess
    obtain rfl : k = k₀ := by
      rw [hcall] at hcall'
      cases hcall'
      rfl
    right
    rcases r with e | row
    · refine ⟨⟨returnTo, hcall⟩, hx, hseen, rfl, ?_⟩
      by_cases he : e.isNotBound = true
      · have hnone : β = none := by simpa [advance, he] using hβ.symm
        rw [exec_getBinding_none he hex, hnone]
        rfl
      · have hno : p.2.seen = some β := by simpa [advance, he] using hβ
        rw [hseen] at hno
        cases hno
    · refine ⟨⟨returnTo, hcall⟩, hx, hseen, rfl, ?_⟩
      cases hβ
      rw [exec_getBinding hex]
      rfl
  | newBindID =>
    have hseen : p.2.seen = none := ha
    rcases r with e | id
    · exact .inl ⟨_, .begun hi hcall hx hβ, fun _ => rfl⟩
    · have hno : p.2.seen = some β := hβ
      rw [hseen] at hno
      cases hno
  | putFlow f => cases hβ
  | consumeFlow state => rcases r with e | f <;> exact .inl ⟨_, .begun hi hcall hx hβ, fun _ => rfl⟩
  | create b => exact absurd hprocess ha.2.1.process
  | putIfVersion b v => exact absurd hprocess ha.2.1
  | _ => exact .inl ⟨_, .begun hi hcall hx hβ, fun _ => rfl⟩

include hi ha hex in
/-- **Inversion**: a flow that is pending after an operation was pending before it, or a bind has just
read the row. A flow whose call makes a claim is not pending after it. -/
theorem Pending.of_step
    (h : Pending k₀ sh' (update ph i (some ((views cfg).advance p op r))) x β o) :
    (∃ o, Pending k₀ sh ph x β o ∧ (o = some i → op.claims = false)) ∨ Reads k₀ sh p.2 op x β := by
  cases h with
  | @stored state f hget href =>
    left
    obtain hsame | ⟨f', rfl, hset⟩ | ⟨state', rfl, hdel⟩ := exec_flows hex
    · rw [hsame] at hget
      exact ⟨_, .stored hget href, nofun⟩
    · rw [hset] at hget
      obtain hold | ⟨-, rfl⟩ := get_of_get_set hget
      · exact ⟨_, .stored hold href, nofun⟩
      · -- the flow is stored by the bind that begins, or put back by one that was not its user's
        have hput := ha.2
        split at hput
        · obtain ⟨rfl, hdrawn, hseen⟩ := hput
          subst href
          exact ⟨_, .begun hi (by assumption) hdrawn hseen, fun _ => rfl⟩
        · exact ⟨_, .taken hi hput.1 hput.2 href, fun _ => rfl⟩
        · exact hput.elim
    · rw [hdel] at hget
      exact ⟨_, .stored (get_of_get_del hget).1 href, nofun⟩
  | @taken j q f hj hf hclaim href =>
    left
    obtain ⟨rfl, rfl⟩ | ⟨hij, hj⟩ := update_cases hj
    · exact Pending.of_call hi ha hex hf hclaim href
    · exact ⟨_, .taken hj hf hclaim href, fun h => absurd (some.inj h) hij⟩
  | @begun j q returnTo x β hj hcall hx hβ =>
    obtain ⟨rfl, rfl⟩ | ⟨hij, hj⟩ := update_cases hj
    · have hcall' : p.2.call = .beginBind k₀ returnTo := by
        rw [← hcall]
        exact (Custody.advance_call r).symm
      exact Pending.of_begun hi ha hex hcall' hx hβ
    · exact .inl ⟨_, .begun hj hcall hx hβ, fun h => absurd (some.inj h) hij⟩

/-! ## What the claims of other flows make of it -/

/-- The claim makes a state of the row that is not the one remembered. -/
def Op.Clear (k₀ : Ref) (β : Option UInt64) : Op → Prop
  | .create b => b.ref = k₀ → β ≠ none ∧ β ≠ some b.version
  | .putIfVersion b _ => b.ref = k₀ → β ≠ some b.version
  | _ => True

include hex in
/-- **What an operation does to the row**: it leaves it, deletes it, or claims it. -/
theorem exec_row (hk₀ : k₀.Named) (hnamed : ∀ b, (op = .create b ∨ ∃ v, op = .putIfVersion b v) → b.ref.Named) :
    sh'.row k₀ = sh.row k₀ ∨ sh'.row k₀ = none ∨ ∃ b, b.ref = k₀ ∧ sh'.row k₀ = some b ∧
        (op = .create b ∨ ∃ old, op = .putIfVersion b old.version ∧ sh.row k₀ = some old) := by
  have hset : ∀ b : Binding, b.ref.Named → sh'.bindings = sh.bindings.set b →
      sh'.row k₀ = sh.row k₀ ∨ b.ref = k₀ ∧ sh'.row k₀ = some b := by
    intro b hb hset
    rw [Shared.row, hset, MemoryBindingStore.set, Dict.get_set]
    by_cases hkey : k₀.bindingKey = b.ref.bindingKey
    · exact .inr ⟨(hk₀.bindingKey_inj hb hkey).symm, if_pos hkey⟩
    · exact .inl (if_neg hkey)
  obtain hsame | ⟨b, old, rfl, hold, hrows⟩ | ⟨b, rfl, hrows⟩ | ⟨k, rfl, hrows⟩ := exec_bindings hex
  · exact .inl (by rw [Shared.row, hsame, Shared.row])
  · obtain hsame | ⟨rfl, hrow⟩ := hset b (hnamed b (.inr ⟨_, rfl⟩)) hrows
    · exact .inl hsame
    · exact .inr (.inr ⟨b, rfl, hrow, .inr ⟨old, rfl, hold⟩⟩)
  · obtain hsame | ⟨rfl, hrow⟩ := hset b (hnamed b (.inl rfl)) hrows
    · exact .inl hsame
    · exact .inr (.inr ⟨b, rfl, hrow, .inl rfl⟩)
  · rw [Shared.row, hrows, delete, get_del]
    split_ifs
    · exact .inr (.inl rfl)
    · exact .inl rfl

include hi ha in
/-- A claim is made under a name that is clean. -/
theorem Orderly.claim_named (h : Orderly P sh ph) {b : Binding}
    (hop : op = .create b ∨ ∃ v, op = .putIfVersion b v) : b.ref.Named := by
  have hclean := h.clean.calls i p hi
  rcases hop with rfl | ⟨v, rfl⟩
  all_goals exact ha.1.2 hclean

/-- **Before a removal**: a flow that remembers no binding finds none. -/
def Unbound (k₀ : Ref) (sh : Shared) (ph : ℕ → Option (Phase × Custody)) : Prop :=
  ∀ x o, Pending k₀ sh ph x none o → sh.row k₀ = none

/-- Every other pending flow of the binding is clear of what the operation claims. -/
def ClearOf (k₀ : Ref) (sh : Shared) (ph : ℕ → Option (Phase × Custody)) (i : ℕ) (op : Op) : Prop :=
  ∀ x β o, Pending k₀ sh ph x β o → o ≠ some i → op.Clear k₀ β

/-- **Step lemma** before a removal. -/
theorem Unbound.step (h : Unbound k₀ sh ph) (hord : Orderly P sh ph) (hk₀ : k₀.Named)
    (hclear : ClearOf k₀ sh ph i op) (hi : ph i = some p) (ha : (views cfg).allowed p op)
    (hex : exec op ω sh = some (r, sh')) :
    Unbound k₀ sh' (update ph i (some ((views cfg).advance p op r))) := by
  intro x o hpending
  have hrow := exec_row hex hk₀ fun b hop => hord.claim_named hi ha.2 hop
  obtain ⟨o', hold, hself⟩ | hreads := Pending.of_step hi ha.2 hex hpending
  · have hnone := h x o' hold
    obtain hsame | hgone | ⟨b, hb, -, rfl | ⟨old, rfl, hrow⟩⟩ := hrow
    · rw [hsame, hnone]
    · exact hgone
    · -- the row is created: not by the flow, which is pending, and not past another one
      have hother : o' ≠ some i := fun ho => by cases hself ho
      exact absurd rfl (hclear x none o' hold hother hb).1
    · rw [hnone] at hrow
      cases hrow
  · have hnone : sh.row k₀ = none := map_eq_none_iff.1 hreads.row.symm
    obtain rfl := hreads.get
    obtain hsame | hgone | ⟨b, -, -, hop | ⟨old, hop, -⟩⟩ := hrow
    · rw [hsame, hnone]
    · exact hgone
    all_goals cases hop

/-- A version that the row is not at. -/
def Lags (k₀ : Ref) (sh : Shared) (β : Option UInt64) : Prop :=
  ∃ v, β = some v ∧ ∀ b, sh.row k₀ = some b → b.version ≠ v

/-- The operation a flow is not the maker of leaves it behind. -/
theorem Lags.step (h : Lags k₀ sh β) (hop : op.claims = true → op.Clear k₀ β)
    (hrow : sh'.row k₀ = sh.row k₀ ∨ sh'.row k₀ = none ∨ ∃ b, b.ref = k₀ ∧ sh'.row k₀ = some b ∧
        (op = .create b ∨ ∃ old, op = .putIfVersion b old.version ∧ sh.row k₀ = some old)) :
    Lags k₀ sh' β := by
  obtain ⟨v, rfl, hv⟩ := h
  refine ⟨v, rfl, ?_⟩
  obtain hsame | hgone | ⟨b, hb, hnew, rfl | ⟨old, rfl, -⟩⟩ := hrow
  · rw [hsame]
    exact hv
  · rw [hgone]
    exact nofun
  · rw [hnew]
    rintro _ ⟨⟩ rfl
    exact (hop rfl hb).2 rfl
  · rw [hnew]
    rintro _ ⟨⟩ rfl
    exact hop rfl hb rfl

/-! ## After a removal -/

/-- A bind claims the row under the lock of the flow it has taken, and takes no other lock after it. -/
structure Tied (q : Custody) : Prop where
  binds : ∀ f, q.flow = some f → q.call.binds
  under : ∀ f l, q.flow = some f → q.claim ≠ none → q.held = some l → l.2 = f.ref.bindingKey

theorem Tied.start (c : Call) : Tied (start c) := ⟨nofun, nofun⟩

theorem Tied.advance {p : Custody} (h : Tied p) (ha : InCustody p op) : Tied (p.advance op r) := by
  refine ⟨fun f hf => ?_, fun f l hf hclaim hheld => ?_⟩
  · rw [Custody.advance_call]
    cases op with
    | consumeFlow => exact ha.1
    | putFlow => cases hf
    | getBinding | newBindID => rcases r with e | x <;> exact h.binds f hf
    | _ => exact h.binds f hf
  · cases op with
    | lock process key => exact absurd (ha.2.2 (h.binds f hf)) hclaim
    | unlock => cases hheld
    | consumeFlow state =>
      rcases r with e | f' <;> exact absurd ha.2.2 hclaim
    | putFlow => cases hf
    | create b =>
      obtain ⟨⟨⟨process, hp⟩, -⟩, -, -, f', hf', href, -⟩ := ha
      obtain rfl : f' = f := some.inj (hf'.symm.trans hf)
      obtain rfl : (process, b.ref.bindingKey) = l := some.inj (hp.symm.trans hheld)
      rw [href]
    | putIfVersion b v =>
      obtain ⟨⟨⟨process, hp⟩, -⟩, -, hbinds⟩ := ha
      obtain ⟨-, f', hf', href, -⟩ := hbinds (h.binds f hf)
      obtain rfl : f' = f := some.inj (hf'.symm.trans hf)
      obtain rfl : (process, b.ref.bindingKey) = l := some.inj (hp.symm.trans hheld)
      rw [href]
    | getBinding | newBindID => rcases r with e | x <;> exact h.under f l hf hclaim hheld
    | _ => exact h.under f l hf hclaim hheld

/-- **After a removal**: the flows named `x` remember a version the row is not at. The calls of `D` had
their claims answered before. -/
structure Stale (k₀ : Ref) (x : String) (D : ℕ → Prop) (sh : Shared) (ph : ℕ → Option (Phase × Custody)) :
    Prop where
  lags : ∀ β o, Pending k₀ sh ph x β o → Lags k₀ sh β
  /-- The flow has begun. -/
  read : ∀ j q, ph j = some q → (∃ returnTo, q.2.call = .beginBind k₀ returnTo) → q.2.drawn = some x →
    q.2.seen ≠ none
  /-- A claim that was won is over with. -/
  ended : ∀ j q f, ph j = some q → q.2.flow = some f → f.ref = k₀ → f.id = x →
    q.2.claim = some (.ok true) → q.2.held = none ∧ D j

/-- What is drawn is the environment's choice. -/
theorem exec_newBindID (hex : exec .newBindID ω sh = some (.ok x, sh')) : ω = .drawn x := by
  simp only [exec] at hex
  split at hex
  · cases hex
    rfl
  · cases hex

/-- A bind that has read its row does not read another. -/
theorem Stale.read_advance {p : Custody} (h : p.drawn = some x → p.seen ≠ none) (ha : InCustody p op)
    (hbegins : p.call.process = none) (hdraw : op = .newBindID → ω ≠ .drawn x)
    (hex : exec op ω sh = some (r, sh')) (hdrawn : (p.advance op r).drawn = some x) :
    (p.advance op r).seen ≠ none := by
  cases op with
  | getBinding k =>
    have hdrawn : p.drawn = some x := by rcases r with e | row <;> exact hdrawn
    exact absurd (ha hbegins).2 (h hdrawn)
  | newBindID =>
    rcases r with e | id
    · exact h hdrawn
    · cases hdrawn
      exact absurd (exec_newBindID hex) (hdraw rfl)
  | putFlow => cases hdrawn
  | consumeFlow => rcases r with e | f <;> exact h hdrawn
  | _ => exact h hdrawn

/-- The claim of a flow that lags is not won. -/
theorem Lags.not_won (h : Lags k₀ sh f.bound) {p : Custody} (hf : p.flow = some f)
    (href : f.ref = k₀) (hbinds : p.call.binds) (ha : InCustody p op) (hop : op.claims = true)
    (hex : exec op ω sh = some (r, sh')) : sh'.bindings = sh.bindings ∧ op.claimed r = none := by
  obtain ⟨v, hv, hrow⟩ := h
  cases op with
  | create b =>
    obtain ⟨-, -, -, f', hf', -, hbound⟩ := ha
    obtain rfl : f' = f := some.inj (hf'.symm.trans hf)
    rw [hv] at hbound
    cases hbound
  | putIfVersion b w =>
    obtain ⟨-, f', hf', href', hbound⟩ := ha.2.2 hbinds
    obtain rfl : f' = f := some.inj (hf'.symm.trans hf)
    obtain rfl : v = w := by
      rw [hv] at hbound
      exact some.inj hbound
    obtain hsame | ⟨old, hold, hversion, -⟩ := putIfVersion_cases (s := sh.bindings) (b := b) (v := v)
    · rcases settle_cases hex with h | h | h <;> cases h <;> simp [hsame, Op.claimed]
    · rw [← href', href] at hold
      exact absurd hversion (hrow old hold)
  | _ => cases hop

variable (h : Stale k₀ x D sh ph) (htied : Tied p.2)

include hi ha hex h htied in
/-- The claims of a call that lags, after one more operation of it. -/
theorem Stale.over_advance (hf : (p.2.advance op r).flow = some f) (href : f.ref = k₀)
    (hid : f.id = x) (hwon : (p.2.advance op r).claim = some (.ok true)) :
    (p.2.advance op r).held = none ∧ D i := by
  have hsame : p.2.flow = some f → p.2.claim = some (.ok true) → p.2.held = none ∧ D i :=
    fun hf hwon => h.ended i p f hi hf href hid hwon
  cases op with
  | lock process key =>
    have hclaim := ha.2.2 (htied.binds f hf)
    rw [show p.2.claim = some (.ok true) from hwon] at hclaim
    cases hclaim
  | unlock process key => exact ⟨rfl, (hsame hf hwon).2⟩
  | consumeFlow state =>
    have hclaim : p.2.claim = some (.ok true) := by rcases r with e | f' <;> exact hwon
    rw [ha.2.2] at hclaim
    cases hclaim
  | putFlow => cases hf
  | create b =>
    have hf : p.2.flow = some f := hf
    have hlags := h.lags f.bound (some i) (hid ▸ .taken hi hf ha.2.2.1 href)
    have hnone := (hlags.not_won hf href (htied.binds f hf) ha rfl hex).2
    obtain rfl : r = .ok true := some.inj hwon
    cases hnone
  | putIfVersion b v =>
    have hf : p.2.flow = some f := hf
    have hclaim := (ha.2.2 (htied.binds f hf)).1
    have hlags := h.lags f.bound (some i) (hid ▸ .taken hi hf hclaim href)
    have hnone := (hlags.not_won hf href (htied.binds f hf) ha rfl hex).2
    obtain rfl : r = .ok true := some.inj hwon
    cases hnone
  | getBinding | newBindID => rcases r with e | y <;> exact hsame hf hwon
  | _ => exact hsame hf hwon

/-- **Step lemma** after a removal. -/
theorem Stale.step (h : Stale k₀ x D sh ph) (hord : Orderly P sh ph) (htied : Tied p.2) (hk₀ : k₀.Named)
    (hclear : ClearOf k₀ sh ph i op) (hdraw : op = .newBindID → ω ≠ .drawn x)
    (hi : ph i = some p) (ha : (views cfg).allowed p op) (hex : exec op ω sh = some (r, sh')) :
    Stale k₀ x D sh' (update ph i (some ((views cfg).advance p op r))) := by
  refine ⟨fun β o hpending => ?_, ?_, ?_⟩
  · have hrow := exec_row hex hk₀ fun b hop => hord.claim_named hi ha.2 hop
    obtain ⟨o', hold, hself⟩ | hreads := Pending.of_step hi ha.2 hex hpending
    · refine (h.lags β o' hold).step (fun hop => ?_) hrow
      refine hclear x β o' hold fun ho => ?_
      rw [hself ho] at hop
      cases hop
    · exact absurd hreads.unseen (h.read i p hi hreads.begins hreads.drawn)
  · refine forall_kept ?_ h.read
    rintro ⟨returnTo, hcall⟩
    have hcall : p.2.call = .beginBind k₀ returnTo := (Custody.advance_call r).symm.trans hcall
    exact Stale.read_advance (h.read i p hi ⟨returnTo, hcall⟩) ha.2 (by rw [hcall]; rfl) hdraw hex
  · intro j q f hj
    revert j q
    refine forall_kept ?_ fun j q hj => h.ended j q f hj
    exact h.over_advance hi ha.2 hex htied

/-- A call that starts has no flow. -/
theorem Pending.of_start (h : Pending k₀ sh (update ph i (some ((views cfg).start c))) x β o) :
    Pending k₀ sh ph x β o := by
  cases h with
  | stored hget href => exact .stored hget href
  | @taken j q f hj hf hclaim href =>
    obtain ⟨rfl, rfl⟩ | ⟨hij, hj⟩ := update_cases hj
    · cases hf
    · exact .taken hj hf hclaim href
  | @begun j q returnTo x β hj hcall hx hβ =>
    obtain ⟨rfl, rfl⟩ | ⟨hij, hj⟩ := update_cases hj
    · cases hx
    · exact .begun hj hcall hx hβ

include h in
theorem Stale.start (c : Call) : Stale k₀ x D sh (update ph i (some ((views cfg).start c))) :=
  ⟨fun β o hp => h.lags β o hp.of_start, forall_kept nofun h.read,
    fun j q f hj => by
      revert j q
      exact forall_kept nofun fun j q hj => h.ended j q f hj⟩

/-- **The removal**: what is deleted is the row of every flow that remembers one. -/
theorem Unbound.removed (h : Unbound k₀ sh ph) (hord : Orderly P sh ph) (htied : ∀ j q, ph j = some q → Tied q.2)
    (hk : k.bindingKey = k₀.bindingKey) (hi : ph i = some p) (ha : (views cfg).allowed p (.deleteBinding k))
    {r : Except Error Unit} (hex : exec (.deleteBinding k) ω sh = some (r, sh'))
    (hrow : sh.row k₀ ≠ none) (hgone : sh'.row k₀ = none)
    (hread : ∀ j q, ph j = some q → (∃ returnTo, q.2.call = .beginBind k₀ returnTo) →
      q.2.drawn = some x → q.2.seen ≠ none) :
    Stale k₀ x (fun j => ∃ q, ph j = some q ∧ q.2.claim ≠ none) sh'
      (update ph i (some ((views cfg).advance p (.deleteBinding k) r))) := by
  refine ⟨fun β o hpending => ?_, ?_, ?_⟩
  · obtain ⟨o', hold, -⟩ | hreads := Pending.of_step hi ha.2 hex hpending
    · cases β with
      | none => exact absurd (h x o' hold) hrow
      | some v =>
        refine ⟨v, rfl, ?_⟩
        rw [hgone]
        exact nofun
    · cases hreads.get
  · exact forall_kept (hread i p hi) hread
  · intro j q f hj
    revert j q
    refine forall_update (fun hf => ?_) fun j q hij hj hf href _ hwon => ?_
    · exact absurd ((htied i p hi).binds f hf) ha.2.2
    · have hclaim : q.2.claim ≠ none := by
        rw [hwon]
        exact some_ne_none _
      refine ⟨?_, q, hj, hclaim⟩
      -- the lock of the binding is with the removal
      by_contra hheld
      obtain ⟨l, hl⟩ := ne_none_iff_exists'.1 hheld
      have hkey := (htied j q hj).under f l hf hclaim hl
      have hq : q.1.Holds f.ref := ⟨l.1, by rw [(hord.exclusive.agree j q hj).held, hl, ← hkey]⟩
      exact hij (hord.exclusive.eq_of_holds hj hord.within hi hq ha.1.1 (by rw [href, hk]))

/-! ## Runs -/

/-- **No claim of the binding's row makes a state that another pending flow remembers**: none of them
remembers the version it writes, and none remembers no binding when it creates one. -/
def Sole (k₀ : Ref) (σ : Process cfg) : Event (federation cfg) → Prop
  | .start _ _ => True
  | .step i _ => ∀ op, σ.nextOp i = some op → ClearOf k₀ σ.sh σ.phase i op

/-- No other flow is given the name. -/
def NotDrawn (x : String) (σ : Process cfg) : Event (federation cfg) → Prop
  | .start _ _ => True
  | .step i ω => σ.nextOp i = some .newBindID → ω ≠ .drawn x

/-- The flow named `x` has begun: the bind that drew the name has read the row. -/
def HasBegun (k₀ : Ref) (x : String) (σ : Process cfg) : Prop :=
  ∀ j q, σ.phase j = some q → (∃ returnTo, q.2.call = .beginBind k₀ returnTo) →
    q.2.drawn = some x → q.2.seen ≠ none

/-- The claim of the call has not been answered. -/
def Unanswered (j : ℕ) (σ : Process cfg) : Prop := ∀ q, σ.phase j = some q → q.2.claim = none

/-- **Invariant** of a run in which every claim is sole. -/
structure Attending (P : ℕ) (sh : Shared) (ph : ℕ → Option (Phase × Custody)) : Prop where
  orderly : Orderly P sh ph
  tied : ∀ j q, ph j = some q → Tied q.2

theorem Attending.start (h : Attending P sh ph) (hc : InProcess P (.start i c : Event (federation cfg))) :
    Attending P sh (update ph i (some ((views cfg).start c))) :=
  ⟨h.orderly.start hc, forall_kept (.start c) h.tied⟩

theorem Attending.step (h : Attending P sh ph) (hi : ph i = some p) (ha : (views cfg).allowed p op)
    (hex : exec op ω sh = some (r, sh')) :
    Attending P sh' (update ph i (some ((views cfg).advance p op r))) :=
  ⟨h.orderly.step hi ha hex, forall_kept ((h.tied i p hi).advance ha.2) h.tied⟩

/-- **Run lemma** before the removal. -/
theorem attending_unbound (hcfg : cfg.Validated) (hk₀ : k₀.Named) (hidle : ∀ i, σ₀.threads i = none)
    (h₀ : Consistent σ₀.sh) (hflows : ∀ state f, σ₀.sh.flows.get state = some f → f.ref = k₀ →
      f.bound = none → σ₀.sh.row k₀ = none)
    (h : Pool.Reaches (fun σ e => InProcess P e ∧ Sole k₀ σ e) σ₀ σ₁) :
    σ₁.Conforming Ends ∧ Attending P σ₁.sh σ₁.phase ∧ Unbound k₀ σ₁.sh σ₁.phase := by
  have hnone : ∀ j q, σ₀.phase j ≠ some q := by
    intro j q hj
    rw [phase, hidle j] at hj
    cases hj
  have hconf : σ₀.Conforming Ends := by
    intro i th hi
    rw [hidle i] at hi
    cases hi
  have hunbound : Unbound k₀ σ₀.sh σ₀.phase := by
    rintro x o hp
    generalize hβ : (none : Option UInt64) = β at hp
    cases hp with
    | stored hget href => exact hflows _ _ hget href hβ.symm
    | taken hj => exact absurd hj (hnone _ _)
    | begun hj => exact absurd hj (hnone _ _)
  refine ⟨h.conforming (body_views hcfg) hconf, ?_⟩
  refine h.invariant (I := fun (sh : Shared) (ph : ℕ → Option (Phase × Custody)) =>
    Attending P sh ph ∧ Unbound k₀ sh ph) (body_views hcfg) ?_ ?_ hconf
    ⟨⟨h₀.orderly hidle, fun j q hj => absurd hj (hnone j q)⟩, hunbound⟩
  · rintro σ i c hc ⟨hI, hunbound⟩ -
    exact ⟨hI.start hc.1, fun x o hp => hunbound x o hp.of_start⟩
  · rintro σ i ω p op r sh hok ⟨hI, hunbound⟩ hi hop ha hex
    exact ⟨hI.step hi ha hex, hunbound.step hI.orderly hk₀ (hok.2 op hop) hi ha hex⟩

include hex in
/-- A row that goes is deleted. -/
theorem deleted_of_gone (hrow : sh.row k₀ ≠ none) (hgone : sh'.row k₀ = none) :
    ∃ k, op = .deleteBinding k ∧ k.bindingKey = k₀.bindingKey := by
  obtain hsame | ⟨b, old, rfl, -, hset⟩ | ⟨b, rfl, hset⟩ | ⟨k, rfl, hdel⟩ := exec_bindings hex
  · rw [Shared.row, hsame] at hgone
    exact absurd hgone hrow
  · rw [Shared.row, hset] at hgone
    exact absurd hgone (get_set_ne_none hrow)
  · rw [Shared.row, hset] at hgone
    exact absurd hgone (get_set_ne_none hrow)
  · refine ⟨k, rfl, ?_⟩
    by_contra hkey
    rw [Shared.row, hdel, delete, get_del, if_neg (Ne.symm hkey)] at hgone
    exact hrow hgone

/-- **Run lemma** after the removal. -/
theorem stale_run (hcfg : cfg.Validated) (hk₀ : k₀.Named) (hconf : σ₂.Conforming Ends)
    (hI : Attending P σ₂.sh σ₂.phase) (hstale : Stale k₀ x D σ₂.sh σ₂.phase)
    (h : Pool.Reaches (fun σ e => (InProcess P e ∧ Sole k₀ σ e) ∧ NotDrawn x σ e) σ₂ τ) :
    Attending P τ.sh τ.phase ∧ Stale k₀ x D τ.sh τ.phase := by
  refine h.invariant (I := fun (sh : Shared) (ph : ℕ → Option (Phase × Custody)) =>
    Attending P sh ph ∧ Stale k₀ x D sh ph) (body_views hcfg) ?_ ?_ hconf ⟨hI, hstale⟩
  · rintro σ i c hc ⟨hI, hstale⟩ -
    exact ⟨hI.start hc.1.1, hstale.start c⟩
  · rintro σ i ω p op r sh hok ⟨hI, hstale⟩ hi hop ha hex
    refine ⟨hI.step hi ha hex, hstale.step hI.orderly (hI.tied i p hi) hk₀ (hok.1.2 op hop) ?_ hi ha hex⟩
    rintro rfl
    exact hok.2 hop

include hi ha hex h htied in
/-- The operation of a call with a stale flow writes nothing. -/
theorem Stale.writes_nothing (hf : p.2.flow = some f) (href : f.ref = k₀) (hid : f.id = x) :
    sh'.bindings = sh.bindings ∧ sh'.vault = sh.vault := by
  have hbinds := htied.binds f hf
  have hclaims : op.claims = true → p.2.claim = none → sh'.bindings = sh.bindings := by
    intro hop hclaim
    have hlags := h.lags f.bound (some i) (hid ▸ .taken hi hf hclaim href)
    exact (hlags.not_won hf href hbinds ha hop hex).1
  have hsecret : ∀ k, p.2.Guards k → ¬p.2.claim = some (.ok true) := by
    rintro k ⟨⟨process, hheld⟩, -⟩ hwon
    rw [(h.ended i p f hi hf href hid hwon).1] at hheld
    cases hheld
  constructor
  · obtain hsame | ⟨b, old, rfl, -, -⟩ | ⟨b, rfl, -⟩ | ⟨k, rfl, -⟩ := exec_bindings hex
    · exact hsame
    · exact hclaims rfl (ha.2.2 hbinds).1
    · exact hclaims rfl ha.2.2.1
    · exact absurd hbinds ha.2
  · obtain hsame | ⟨k, secret, rfl, -⟩ | ⟨k, rfl, -⟩ := exec_vault hex
    · exact hsame
    all_goals exact absurd (ha.2 hbinds) (hsecret k ha.1)

/-- **A flow begun before a removal does not bring the binding back.** In every run of one process in
which the claims of the binding's row are sole: once its row was removed, no operation of a call that has
a flow begun before changes a row or a secret, and the bind is refused unless it was over before; where
its claim was answered, as superseded. -/
theorem superseded (hcfg : cfg.Validated) (hk₀ : k₀.Named) (hidle : ∀ i, σ₀.threads i = none)
    (h₀ : Consistent σ₀.sh) (hflows : ∀ state f, σ₀.sh.flows.get state = some f → f.ref = k₀ →
      f.bound = none → σ₀.sh.row k₀ = none)
    (h₁ : Pool.Reaches (fun σ e => InProcess P e ∧ Sole k₀ σ e) σ₀ σ₁)
    (hremoval : σ₁.next (.step i ω) = some σ₂) (hrow : σ₁.sh.row k₀ ≠ none)
    (hgone : σ₂.sh.row k₀ = none) (hbegun : HasBegun k₀ x σ₁)
    (h₂ : Pool.Reaches (fun σ e => (InProcess P e ∧ Sole k₀ σ e) ∧ NotDrawn x σ e) σ₂ τ)
    {f : BindFlow} (hj : τ.phase j = some q) (hf : q.2.flow = some f) (href : f.ref = k₀) (hid : f.id = x) :
    (∀ ω τ', τ.next (.step j ω) = some τ' →
      τ'.sh.bindings = τ.sh.bindings ∧ τ'.sh.vault = τ.sh.vault) ∧
    (Unanswered j σ₁ → ∀ a, τ.reply j = some a → (∃ e, a = .error e) ∧
      (q.2.claim = some (.ok false) → a = .error .bindSuperseded)) := by
  obtain ⟨hconf, hI, hunbound⟩ := attending_unbound hcfg hk₀ hidle h₀ hflows h₁
  -- the removal itself
  have hstale : Attending P σ₂.sh σ₂.phase ∧
      Stale k₀ x (fun j => ∃ q, σ₁.phase j = some q ∧ q.2.claim ≠ none) σ₂.sh σ₂.phase := by
    obtain ⟨l, c, he, -⟩ | ⟨l, ω', c, p, op, m, r, sh, he, hl, hex, rfl⟩ := next_cases hremoval
    · cases he
    · cases he
      have hi : σ₁.phase i = some p := by simp [phase, hl]
      have ha : (views cfg).allowed p op := (hconf i _ hl).1
      obtain ⟨k, rfl, hk⟩ := deleted_of_gone hex hrow hgone
      rw [put_phase]
      exact ⟨hI.step hi ha hex, hunbound.removed hI.orderly hI.tied hk hi ha hex hrow hgone hbegun⟩
  have hconf₂ : σ₂.Conforming Ends := hconf.next (body_views hcfg) hremoval
  obtain ⟨hIτ, hstaleτ⟩ := stale_run hcfg hk₀ hconf₂ hstale.1 hstale.2 h₂
  have hconfτ : τ.Conforming Ends := h₂.conforming (body_views hcfg) hconf₂
  have htied := hIτ.tied j q hj
  refine ⟨fun ω τ' hn => ?_, fun hunanswered a ha => ?_⟩
  · obtain ⟨l, c, he, -⟩ | ⟨l, ω', c, p, op, m, r, sh, he, hl, hex, rfl⟩ := next_cases hn
    · cases he
    · cases he
      obtain rfl : p = q := by simpa [phase, hl] using hj
      exact hstaleτ.writes_nothing hj (hconfτ j _ hl).1.2 hex htied hf href hid
  · have hanswers : q.2.Answers a := hconfτ.done hj ha (htied.binds f hf)
    refine ⟨?_, hanswers.2⟩
    cases a with
    | error e => exact ⟨e, rfl⟩
    | ok reply =>
      obtain ⟨-, q₁, hq₁, hclaim⟩ := hstaleτ.ended j q f hj hf href hid (hanswers.1 reply rfl)
      exact absurd (hunanswered q₁ hq₁) hclaim

/-! ### Two flows begun unbound -/

/-- A bind begins, and the account is not bound or is bound as the choice of the store says. -/
def beginning (i : ℕ) (id : String) : List (Event (federation oneSource)) :=
  calling i (.beginBind sampleRef "") [.drawn id, .drawn "verifier", .done, .done, .done]

/-- A bind is completed with a version, and its claim is won. -/
def completing (i : ℕ) (id : String) (version : UInt64) : List (Event (federation oneSource)) :=
  calling i (.completeBind 0 "u" id "code")
    [.done, .done, .done, .granted ⟨"at", "rt", "bearer", 1⟩, .word version, .done, .done, .done]

/-- The account is unbound, up to the deletion of the row. -/
def shredding (i : ℕ) : List (Event (federation oneSource)) :=
  calling i (.unbind 0 sampleRef) [.done, .done, .done, .done, .done]

/-- **A removed binding is brought back**: both flows begin unbound. The second one is completed, the
account is unbound, and then the first one finds no row, as it remembers. -/
theorem resurrected : ∃ σ₁ σ₂ τ : Process oneSource,
    Pool.Reaches (fun _ e => InProcess 0 e ∧ Unfailing e = true) unbound σ₁ ∧
    Pool.Reaches (fun _ e => InProcess 0 e ∧ Unfailing e = true) σ₁ σ₂ ∧
    Pool.Reaches (fun _ e => InProcess 0 e ∧ Unfailing e = true) σ₂ τ ∧
    ∃ f b q, σ₁.sh.flows.get "first" = some f ∧ f.ref = sampleRef ∧ (σ₁.sh.row sampleRef).isSome ∧
      σ₂.reply 3 = some (.ok (.revocation .done "")) ∧ σ₂.sh.row sampleRef = none ∧
      σ₂.sh.vault.get sampleRef.identity = none ∧
      τ.phase 4 = some q ∧ q.2.flow = some f ∧ τ.reply 4 = some (.ok (.bound b)) ∧
      τ.sh.row sampleRef = some b ∧ (τ.sh.vault.get sampleRef.identity).isSome := by
  have hruns : ∀ {σ τ : Process oneSource} (es), (∀ e ∈ es, InProcess 0 e ∧ Unfailing e = true) →
      σ.runIf (fun _ _ => true) es = some τ →
      Pool.Reaches (fun _ e => InProcess 0 e ∧ Unfailing e = true) σ τ :=
    fun es hall h => reaches_of_forall es (fun e he _ => hall e he) h
  exact ⟨_, _, _,
    hruns (beginning 0 "first" ++ beginning 1 "second" ++ completing 2 "second" 5) (by decide) rfl,
    hruns (shredding 3 ++ [.step 3 .done, .step 3 .done]) (by decide) rfl,
    hruns (completing 4 "first" 6) (by decide) rfl,
    _, _, _, rfl, rfl, rfl, rfl, rfl, rfl, rfl, rfl, rfl, rfl, rfl⟩

/-- Among the first `m` calls, a claim is made with no other flow pending. -/
def solely (m : ℕ) (σ : Process cfg) : Event (federation cfg) → Bool
  | .start _ _ => true
  | .step i _ => (σ.nextOp i).all fun op => !op.claims || σ.sh.flows.entries.isEmpty &&
    (List.range m).all fun j => j == i || (σ.phase j).all fun q =>
      (q.2.flow.isNone || q.2.claim.isSome) && q.2.drawn.isNone

theorem solely_spec {m : ℕ} {σ : Process cfg} {e : Event (federation cfg)} (hσ : σ.Below m)
    (h : solely m σ e = true) : Sole k₀ σ e := by
  cases e with
  | start i c => trivial
  | step i ω =>
    intro op hop x β o hpending ho
    by_cases hclaims : op.claims = true
    · simp only [solely, hop, Option.all_some, hclaims, Bool.not_true, Bool.false_or,
        Bool.and_eq_true, List.isEmpty_iff, List.all_eq_true, List.mem_range, Bool.or_eq_true,
        beq_iff_eq] at h
      obtain ⟨hempty, hcalls⟩ := h
      have hcall : ∀ j q, σ.phase j = some q → some j ≠ some i →
          (q.2.flow = none ∨ q.2.claim ≠ none) ∧ q.2.drawn = none := by
        intro j q hj hji
        have hjm : j < m := by
          by_contra hjm
          rw [phase, hσ j (by omega)] at hj
          cases hj
        have hq := (hcalls j hjm).resolve_left fun hji' => hji (congrArg some hji')
        simpa [hj, Option.isSome_iff_ne_none] using hq
      exfalso
      cases hpending with
      | stored hget href =>
        rw [Dict.get_eq_some_iff, hempty] at hget
        cases hget
      | taken hj hf hclaim href =>
        rcases (hcall _ _ hj ho).1 with hnone | hsome
        · rw [hnone] at hf
          cases hf
        · exact hsome hclaim
      | begun hj hcall' hx hβ =>
        rw [(hcall _ _ hj ho).2] at hx
        cases hx
    · cases op with
      | create | putIfVersion => exact absurd rfl hclaims
      | _ => trivial

/-- A run of the deployment in which every claim is sole and no flow is named `x` any more. -/
def soleRun (x : String) (σ : Process oneSource) (e : Event (federation oneSource)) : Bool :=
  e.below 5 && decide (InProcess 0 e) && solely 5 σ e &&
    match e with
    | .step _ ω => decide (ω ≠ .drawn x)
    | .start _ _ => true

theorem soleRun_spec {σ : Process oneSource} {e : Event (federation oneSource)} (hσ : σ.Below 5)
    (h : soleRun x σ e = true) : e.below 5 = true ∧ (InProcess 0 e ∧ Sole k₀ σ e) ∧ NotDrawn x σ e := by
  simp only [soleRun, and_eq_true, decide_eq_true_eq] at h
  obtain ⟨⟨⟨hbelow, hin⟩, hsole⟩, hdrawn⟩ := h
  refine ⟨hbelow, ⟨hin, solely_spec hσ hsole⟩, ?_⟩
  cases e with
  | start i c => trivial
  | step i ω => exact fun _ => by simpa using hdrawn

/-- A flow begun against a binding that is then removed: its bind is refused as superseded. -/
theorem superseded_unbound : ∃ (τ : Process oneSource) (a : Except Error Reply),
    τ.reply 4 = some a ∧ (∃ e, a = .error e) ∧ a = .error .bindSuperseded := by
  have hrun : (unbound.runIf (soleRun "") (beginning 0 "first" ++ completing 1 "first" 5 ++
      beginning 2 "second" ++ shredding 3)).any (fun σ₁ =>
    (σ₁.next (.step 3 .done)).any fun σ₂ =>
    (σ₂.runIf (soleRun "second") (.step 3 .done :: (completing 4 "second" 6).dropLast)).any fun τ =>
    (τ.phase 4).any fun q => q.2.flow.any fun f => (τ.reply 4).any fun a =>
      ((List.range 5).all fun j => (σ₁.phase j).all fun q => q.2.drawn.isNone) &&
      (σ₁.phase 4).isNone &&
      decide ((σ₁.sh.row sampleRef).isSome ∧ σ₂.sh.row sampleRef = none ∧ f.ref = sampleRef ∧
        f.id = "second" ∧ q.2.claim = some (.ok false))) = true := by
    decide
  simp only [Option.any_eq_true, Bool.and_eq_true, decide_eq_true_eq] at hrun
  obtain ⟨σ₁, h₁, σ₂, h₂, τ, h₃, q, hq, f, hf, a, ha, ⟨hdrawn, hfresh⟩, hrow, hgone, href, hid,
    hclaim⟩ := hrun
  have hbelow : unbound.Below 5 := fun _ _ => rfl
  have hcheck : ∀ x (σ : Process oneSource) e, σ.Below 5 → soleRun x σ e = true →
      e.below 5 = true ∧ (InProcess 0 e ∧ Sole sampleRef σ e) ∧ NotDrawn x σ e :=
    fun x σ e hσ h => soleRun_spec hσ h
  obtain ⟨hreach₁, hbelow₁⟩ := reaches_of_runIf _ (hcheck "") hbelow h₁
  obtain ⟨hreach₂, -⟩ := reaches_of_runIf _ (hcheck "second") (hbelow₁.next rfl h₂) h₃
  have hbegun : HasBegun sampleRef "second" σ₁ := by
    intro j q hj _ hx
    have hnone := hbelow₁.forall_phase hdrawn hj
    rw [hx] at hnone
    cases hnone
  have hunanswered : Unanswered 4 σ₁ := by
    intro q hq
    rw [hq] at hfresh
    cases hfresh
  have hrefused := (superseded oneSource_validated (by decide) (fun _ => rfl) unbound_consistent nofun
    (hreach₁.mono fun _ _ h => h.1) h₂ (Option.isSome_iff_ne_none.1 hrow) hgone hbegun hreach₂ hq hf
    href hid).2 hunanswered a ha
  exact ⟨τ, a, ha, hrefused.1, hrefused.2 hclaim⟩

end Re0Auth.Federation

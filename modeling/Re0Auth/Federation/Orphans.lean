import Re0Auth.Federation.Conformance

/-!
# A secret without a row

The row of a binding and its secret lie in two stores. A writer claims the row before it stores the
secret, a removal shreds the secret before it deletes the row, and the lock that keeps the two apart is
the lock of one process. Between two processes the order of the writes has to do without it.

* **`exec_bindings`**, **`exec_vault`**: what an operation can do to the rows and the secrets;
* **`Paired`**: the invariant of one binding, kept while no claim and no removal of it overlap
  (**`Paired.step`**);
* **`secret_has_row`**: a secret has a row in every state of such a run;
* **`secret_orphaned`**: a refresh in one process and an unbind in another, after which it has none.
-/

namespace Re0Auth.Federation

open Lib OAuth Vault Function Pool Dict MemoryBindingStore Option

variable {cfg : Config} {op : Op} {ω : Choice} {sh sh' : Shared} {r : op.Res} {p : Phase}
  {ph : ℕ → Option Phase} {i j : ℕ} {k k₀ : Ref} {st st' : Stage}

/-! ## What an operation does -/

/-- A write that is settled has taken effect or has not. -/
theorem settle_cases {α : Type} {e : Error} {a : α} {x : Except Error α × Shared} {new : Shared}
    (h : settle ω e sh a new = some x) : x = (.ok a, new) ∨ x = (.error e, new) ∨ x = (.error e, sh) := by
  unfold settle at h
  split at h
  · rename_i landed
    cases landed
    · exact .inr (.inr (some.inj h).symm)
    · exact .inr (.inl (some.inj h).symm)
  · exact .inl (some.inj h).symm

theorem settle_state {α : Type} {e : Error} {a : α} {x : Except Error α} {new : Shared}
    (h : settle ω e sh a new = some (x, sh')) : sh' = sh ∨ sh' = new := by
  rcases settle_cases h with h | h | h <;> cases h
  · exact .inr rfl
  · exact .inr rfl
  · exact .inl rfl

variable (hex : exec op ω sh = some (r, sh'))

include hex in
/-- **Rows** are claimed and deleted, and nothing else happens to them. -/
theorem exec_bindings : sh'.bindings = sh.bindings ∨
    (∃ b old, op = .putIfVersion b old.version ∧ sh.bindings.m.get b.ref.bindingKey = some old ∧
      sh'.bindings = sh.bindings.set b) ∨
    (∃ b, op = .create b ∧ sh'.bindings = sh.bindings.set b) ∨
    ∃ k, op = .deleteBinding k ∧ sh'.bindings = sh.bindings.delete k := by
  cases op with
  | putIfVersion b expected =>
    obtain hsame | ⟨old, hold, rfl, hput⟩ := putIfVersion_cases (s := sh.bindings) (b := b) (v := expected)
    · rcases settle_state hex with rfl | rfl <;> simp [hsame]
    · obtain rfl | rfl := settle_state hex
      · exact .inl rfl
      · exact .inr (.inl ⟨b, old, rfl, hold, by simp [hput]⟩)
  | create b =>
    obtain hsame | ⟨hnone, hput⟩ := create_cases (s := sh.bindings) (b := b)
    · rcases settle_state hex with rfl | rfl <;> simp [hsame]
    · obtain rfl | rfl := settle_state hex
      · exact .inl rfl
      · exact .inr (.inr (.inl ⟨b, rfl, by simp [hput]⟩))
  | deleteBinding k =>
    obtain rfl | rfl := settle_state hex
    · exact .inl rfl
    · exact .inr (.inr (.inr ⟨k, rfl, rfl⟩))
  | putFlow | enroll | revokeSecret =>
    rcases settle_state hex with rfl | rfl <;> exact .inl rfl
  | _ =>
    left
    simp only [exec] at hex
    (repeat' split at hex) <;> cases hex <;> first | rfl | (simp only [Shared.issue]; split <;> rfl)

include hex in
/-- **Secrets** are stored and shredded, and nothing else happens to them. -/
theorem exec_vault : sh'.vault = sh.vault ∨
    (∃ k secret, op = .enroll k secret ∧ sh'.vault = sh.vault.set k.identity secret) ∨
    ∃ k, op = .revokeSecret k ∧ sh'.vault = sh.vault.del k.identity := by
  cases op with
  | enroll k secret =>
    obtain rfl | rfl := settle_state hex
    · exact .inl rfl
    · exact .inr (.inl ⟨k, secret, rfl, rfl⟩)
  | revokeSecret k =>
    obtain rfl | rfl := settle_state hex
    · exact .inl rfl
    · exact .inr (.inr ⟨k, rfl, rfl⟩)
  | putIfVersion | create | deleteBinding | putFlow =>
    rcases settle_state hex with rfl | rfl <;> exact .inl rfl
  | _ =>
    left
    simp only [exec] at hex
    (repeat' split at hex) <;> cases hex <;> first | rfl | (simp only [Shared.issue]; split <;> rfl)

/-- The row of a binding. -/
def Shared.row (sh : Shared) (k : Ref) : Option Binding := sh.bindings.m.get k.bindingKey

/-- The row that is read is the one that is stored. -/
theorem exec_getBinding {row : Row k₀} (hex : exec (.getBinding k₀) ω sh = some (.ok row, sh')) :
    sh.row k₀ = some row.1 := by
  simp only [exec] at hex
  split at hex
  · cases hex
  · cases hget : sh.bindings.get k₀ with
    | none => simp [hget] at hex
    | some row' =>
      rw [hget] at hex
      cases hex
      exact get_eq_some_iff.1 hget

/-- A row that is said to be missing is missing. -/
theorem exec_getBinding_none {e : Error} (he : e.isNotBound = true)
    (hex : exec (.getBinding k₀) ω sh = some (.error e, sh')) : sh.row k₀ = none := by
  simp only [exec] at hex
  split at hex
  · cases hex
    cases he
  · cases hget : sh.bindings.get k₀ with
    | none => exact get_eq_none_iff.1 hget
    | some row' => simp [hget] at hex

/-- The binding whose row the operation has claimed. -/
def Op.claimed : (op : Op) → op.Res → Option Ref
  | .putIfVersion b _, .ok true => some b.ref
  | .create b, .ok true => some b.ref
  | _, _ => none

/-- The binding whose secret the operation has shredded. -/
def Op.shredded : (op : Op) → op.Res → Option Ref
  | .revokeSecret k, .ok () => some k
  | _, _ => none

include hex in
/-- A claim that was won has written the row. -/
theorem exec_claimed (h : op.claimed r = some k) : ∃ b, b.ref = k ∧ sh'.bindings = sh.bindings.set b := by
  unfold Op.claimed at h
  split at h
  · rename_i b expected
    cases h
    refine ⟨b, rfl, ?_⟩
    obtain hsame | ⟨old, -, -, hput⟩ := putIfVersion_cases (s := sh.bindings) (b := b) (v := expected)
    all_goals rcases settle_cases hex with h | h | h <;> simp_all
  · rename_i b
    cases h
    refine ⟨b, rfl, ?_⟩
    obtain hsame | ⟨-, hput⟩ := create_cases (s := sh.bindings) (b := b)
    all_goals rcases settle_cases hex with h | h | h <;> simp_all
  · cases h

include hex in
/-- A secret that was shredded is gone. -/
theorem exec_shredded (h : op.shredded r = some k) : sh'.vault = sh.vault.del k.identity := by
  unfold Op.shredded at h
  split at h
  · cases h
    rcases settle_cases hex with h | h | h <;> cases h
    rfl
  · cases h

/-! ## Where the calls stand -/

/-- The row of the binding is claimed and its secret not yet stored. -/
def Stage.storingAt (k₀ : Ref) : Stage → Bool
  | storing k _ _ => k.bindingKey == k₀.bindingKey
  | _ => false

/-- The secret of the binding is shredded and its row not yet deleted. -/
def Stage.removingAt (k₀ : Ref) : Stage → Bool
  | removing k _ => k.bindingKey == k₀.bindingKey
  | _ => false

theorem Move.storingAt (hm : Move op r st st') (h : st'.storingAt k₀ = true) :
    st.storingAt k₀ = true ∨ ∃ k, op.claimed r = some k ∧ k.bindingKey = k₀.bindingKey := by
  cases hm with
  | keep hop => exact .inl h
  | claim href hversion => exact .inr ⟨_, rfl, beq_iff_eq.1 h⟩
  | rebind => exact .inr ⟨_, rfl, beq_iff_eq.1 h⟩
  | create => exact .inr ⟨_, rfl, beq_iff_eq.1 h⟩
  | _ => cases h

theorem Move.removingAt (hm : Move op r st st') (h : st'.removingAt k₀ = true) :
    st.removingAt k₀ = true ∨ ∃ k, op.shredded r = some k ∧ k.bindingKey = k₀.bindingKey := by
  cases hm with
  | keep hop => exact .inl h
  | condemn => exact .inr ⟨_, rfl, beq_iff_eq.1 h⟩
  | shred hreading => exact .inr ⟨_, rfl, beq_iff_eq.1 h⟩
  | _ => cases h

/-! ## One binding -/

/-- The binding an operation is about. -/
def Op.ref : Op → Option Ref
  | getBinding k | deleteBinding k | enroll k _ | use k | revokeSecret k => some k
  | putIfVersion b _ | create b => some b.ref
  | _ => none

/-- The row and the secret the operation is about are both the binding's, or neither of them is. -/
def Op.Matches (k₀ : Ref) (op : Op) : Prop :=
  ∀ k, op.ref = some k → (k.bindingKey = k₀.bindingKey ↔ k.identity = k₀.identity)

/-- The binding whose secret an operation writes. -/
def Op.secret : Op → Option Ref
  | enroll k _ | revokeSecret k => some k
  | _ => none

/-- A secret that is written is the binding's along with its row, or neither of them is. -/
def Op.Pairs (k₀ : Ref) (op : Op) : Prop :=
  ∀ k, op.secret = some k → (k.bindingKey = k₀.bindingKey ↔ k.identity = k₀.identity)

theorem Op.Matches.pairs (h : op.Matches k₀) : op.Pairs k₀ := by
  intro k hk
  unfold Op.secret at hk
  split at hk <;> first | exact h k hk | cases hk

/-- **A claim and a removal do not overlap**: a row is claimed only while no secret of the binding is
shredded with its row still there, a secret shredded only while no claim still has its secret to store. -/
def Op.Apart (k₀ : Ref) (ph : ℕ → Option Phase) : Op → Prop
  | .putIfVersion b _ | .create b => b.ref.bindingKey = k₀.bindingKey →
    ∀ j q, ph j = some q → q.stage.removingAt k₀ = false
  | .revokeSecret k => k.bindingKey = k₀.bindingKey →
    ∀ j q, ph j = some q → q.stage.storingAt k₀ = false
  | _ => True

/-- **Invariant** of one binding. -/
structure Paired (k₀ : Ref) (sh : Shared) (ph : ℕ → Option Phase) : Prop where
  /-- A secret has a row. -/
  row : ∀ secret, sh.vault.get k₀.identity = some secret → sh.bindings.get k₀ ≠ none
  /-- A claimed row is there. -/
  storing : ∀ j q, ph j = some q → q.stage.storingAt k₀ = true → sh.bindings.get k₀ ≠ none
  /-- A shredded secret is gone, and nobody is about to store one. -/
  removing : ∀ j q, ph j = some q → q.stage.removingAt k₀ = true → sh.vault.get k₀.identity = none ∧
    ∀ l q', ph l = some q' → q'.stage.storingAt k₀ = false

include hex in
/-- A row goes only when it is deleted. -/
theorem row_kept (hrow : sh.bindings.get k₀ ≠ none)
    (hdelete : ∀ k, op = .deleteBinding k → k.bindingKey ≠ k₀.bindingKey) : sh'.bindings.get k₀ ≠ none := by
  rw [Ne, get_eq_none_iff] at hrow ⊢
  obtain hsame | ⟨b, old, rfl, -, hset⟩ | ⟨b, rfl, hset⟩ | ⟨k, rfl, hdel⟩ := exec_bindings hex
  · rwa [hsame]
  · rw [hset]
    exact get_set_ne_none hrow
  · rw [hset]
    exact get_set_ne_none hrow
  · rw [hdel]
    have hkey := hdelete k rfl
    simpa [delete, get_del, hkey.symm] using hrow

/-- A deletion is made by a call that has shredded the secret. -/
theorem removingAt_of_delete (ha : Allowed p (.deleteBinding k)) (hk : k.bindingKey = k₀.bindingKey) :
    p.stage.removingAt k₀ = true := by
  obtain ⟨-, k', cause, hst, hkey⟩ := ha
  simp [hst, Stage.removingAt, hkey, hk]

/-- A secret is stored by a call that has claimed the row. -/
theorem storingAt_of_enroll {secret : BindingSecret} (ha : Allowed p (.enroll k secret))
    (hk : k.bindingKey = k₀.bindingKey) : p.stage.storingAt k₀ = true := by
  obtain ⟨-, spent, hst⟩ := ha
  simp [hst, Stage.storingAt, hk]

/-- A removal that is under way is not met by a claim or by the write of a secret. -/
theorem Paired.kept_removing (h : Paired k₀ sh ph) (hi : ph i = some p) (ha : Allowed p op)
    (hex : exec op ω sh = some (r, sh')) (hmatch : op.Pairs k₀) (hapart : op.Apart k₀ ph)
    (hremoving : ∃ j q, ph j = some q ∧ q.stage.removingAt k₀ = true) :
    sh'.vault.get k₀.identity = none ∧ ∀ l q, update ph i (some (p.advance op r)) l = some q →
        q.stage.storingAt k₀ = false := by
  obtain ⟨j, q, hj, hremoving⟩ := hremoving
  obtain ⟨hvault, hstoring⟩ := h.removing j q hj hremoving
  constructor
  · obtain hsame | ⟨k, secret, rfl, hset⟩ | ⟨k, rfl, hdel⟩ := exec_vault hex
    · rw [hsame, hvault]
    · have hid : k₀.identity ≠ k.identity := by
        intro hid
        have hst := storingAt_of_enroll ha ((hmatch k rfl).2 hid.symm)
        rw [hstoring i p hi] at hst
        cases hst
      rw [hset, get_set, if_neg hid, hvault]
    · rw [hdel, get_del, hvault, ite_self]
  · refine forall_kept ?_ hstoring
    by_contra hst
    rcases (Move.of_advance r ha).storingAt (by simpa using hst) with hbefore | ⟨k, hclaimed, hk⟩
    · rw [hstoring i p hi] at hbefore
      cases hbefore
    · have hnone : q.stage.removingAt k₀ = false := by
        unfold Op.claimed at hclaimed
        split at hclaimed <;> cases hclaimed
        all_goals exact hapart hk j q hj
      rw [hremoving] at hnone
      cases hnone

include hex in
/-- A removal begins with nobody about to store a secret. -/
theorem Paired.begun_removing (hmatch : op.Pairs k₀) (hapart : op.Apart k₀ ph)
    (hremoving : (p.advance op r).stage.removingAt k₀ = true) (hshredded : op.shredded r = some k)
    (hk : k.bindingKey = k₀.bindingKey) :
    sh'.vault.get k₀.identity = none ∧ ∀ l q, update ph i (some (p.advance op r)) l = some q →
        q.stage.storingAt k₀ = false := by
  have hvault := exec_shredded hex hshredded
  unfold Op.shredded at hshredded
  split at hshredded
  · cases hshredded
    constructor
    · rw [hvault, (hmatch k rfl).1 hk, get_del_self]
    · refine forall_kept ?_ (hapart hk)
      unfold Stage.removingAt at hremoving
      split at hremoving
      · rename_i hst
        rw [hst]
        rfl
      · cases hremoving
  · cases hshredded

/-- **Step lemma**: an operation keeps the invariant, unless a claim and a removal overlap. -/
theorem Paired.step (h : Paired k₀ sh ph) (hi : ph i = some p) (ha : Allowed p op)
    (hex : exec op ω sh = some (r, sh')) (hmatch : op.Pairs k₀) (hapart : op.Apart k₀ ph) :
    Paired k₀ sh' (update ph i (some (p.advance op r))) := by
  have hm : Move op r p.stage (p.advance op r).stage := .of_advance r ha
  -- a deletion of the row finds no secret and no call that stores one
  have hdelete : ∀ k, op = .deleteBinding k → k.bindingKey = k₀.bindingKey →
      sh.vault.get k₀.identity = none ∧ ∀ l q, ph l = some q → q.stage.storingAt k₀ = false := by
    rintro k rfl hk
    exact h.removing i p hi (removingAt_of_delete ha hk)
  -- what stores or shreds the secret of the binding is about its row as well
  have hrow : ∀ j q, ph j = some q → q.stage.storingAt k₀ = true → sh'.bindings.get k₀ ≠ none := by
    intro j q hj hstoring
    refine row_kept hex (h.storing j q hj hstoring) ?_
    intro k hop hk
    have hnone := (hdelete k hop hk).2 j q hj
    rw [hstoring] at hnone
    cases hnone
  have hstored : ∀ j q, update ph i (some (p.advance op r)) j = some q →
      q.stage.storingAt k₀ = true → sh'.bindings.get k₀ ≠ none := by
    refine forall_kept (fun hstoring => ?_) hrow
    rcases hm.storingAt hstoring with hbefore | ⟨k, hclaimed, hk⟩
    · exact hrow i p hi hbefore
    · obtain ⟨b, rfl, hset⟩ := exec_claimed hex hclaimed
      rw [hset, Ne, get_eq_none_iff, ← hk]
      simp [MemoryBindingStore.set]
  refine ⟨?_, hstored, ?_⟩
  · intro secret hsecret
    obtain hsame | ⟨k, secret', rfl, hset⟩ | ⟨k, rfl, hdel⟩ := exec_vault hex
    · rw [hsame] at hsecret
      refine row_kept hex (h.row secret hsecret) ?_
      intro k hop hk
      rw [(hdelete k hop hk).1] at hsecret
      cases hsecret
    · rw [hset] at hsecret
      obtain hold | ⟨hid, -⟩ := get_of_get_set hsecret
      · exact row_kept hex (h.row secret hold) (by rintro _ ⟨⟩)
      · have hk : k.bindingKey = k₀.bindingKey := (hmatch k rfl).2 hid.symm
        exact hrow i p hi (storingAt_of_enroll ha hk)
    · rw [hdel] at hsecret
      exact row_kept hex (h.row secret (get_of_get_del hsecret).1) (by rintro _ ⟨⟩)
  · refine forall_kept (fun hremoving => ?_) fun j q hj hremoving => ?_
    · rcases hm.removingAt hremoving with hbefore | ⟨k, hshredded, hk⟩
      · exact h.kept_removing hi ha hex hmatch hapart ⟨i, p, hi, hbefore⟩
      · exact Paired.begun_removing hex hmatch hapart hremoving hshredded hk
    · exact h.kept_removing hi ha hex hmatch hapart ⟨j, q, hj, hremoving⟩

theorem Paired.start (h : Paired k₀ sh ph) (c : Call) :
    Paired k₀ sh (update ph i (some (Phase.start c))) := by
  have hnone : ∀ l q', update ph i (some (Phase.start c)) l = some q' →
      q'.stage.storingAt k₀ = true → ∃ j q, ph j = some q ∧ q.stage.storingAt k₀ = true := by
    exact forall_kept nofun fun j q hj hst => ⟨j, q, hj, hst⟩
  refine ⟨h.row, ?_, ?_⟩
  · exact forall_kept nofun h.storing
  · refine forall_kept nofun fun j q hj hremoving => ?_
    obtain ⟨hvault, hstoring⟩ := h.removing j q hj hremoving
    refine ⟨hvault, fun l q' hl => ?_⟩
    by_contra hst
    obtain ⟨j', q'', hj', hst'⟩ := hnone l q' hl (by simpa using hst)
    rw [hstoring j' q'' hj'] at hst'
    cases hst'

/-! ## Runs -/

/-- **The processes**: calls, in any number of processes, over one binding store and one vault. -/
abbrev Processes (cfg : Config) : Type := Pool (federation cfg) (typestate cfg)

/-- Every operation is about the binding, or about one that shares neither its row nor its secret. -/
def About (k₀ : Ref) (σ : Processes cfg) : Event (federation cfg) → Prop
  | .start _ _ => True
  | .step i _ => ∀ op, σ.nextOp i = some op → op.Matches k₀

/-- No claim and no removal of the binding overlap. -/
def Disjoint (k₀ : Ref) (σ : Processes cfg) : Event (federation cfg) → Prop
  | .start _ _ => True
  | .step i _ => ∀ op, σ.nextOp i = some op → op.Apart k₀ σ.phase

/-- No call has started, and a secret of the binding has a row. -/
structure Started (k₀ : Ref) (σ : Processes cfg) : Prop where
  idle : ∀ i, σ.threads i = none
  row : ∀ secret, σ.sh.vault.get k₀.identity = some secret → σ.sh.bindings.get k₀ ≠ none

variable {σ τ : Processes cfg}

theorem conforming_of_idle (h : ∀ i, σ.threads i = none) : σ.Conforming fun _ _ => True := by
  intro i th hi
  rw [h i] at hi
  cases hi

theorem phase_of_idle (h : ∀ i, σ.threads i = none) (j : ℕ) : σ.phase j = none := by
  rw [phase, h j]
  rfl

theorem Started.paired (h : Started k₀ σ) : Paired k₀ σ.sh σ.phase := by
  refine ⟨h.row, ?_, ?_⟩
  all_goals
    intro j q hj
    rw [phase_of_idle h.idle j] at hj
    cases hj

/-- **No orphaned secret**: in every run in which no claim and no removal of a binding overlap, in one
process or in several, and whatever operations fail, a secret of the binding has a row. -/
theorem secret_has_row (h₀ : Started k₀ σ)
    (h : Pool.Reaches (fun σ e => About k₀ σ e ∧ Disjoint k₀ σ e) σ τ) {secret : BindingSecret}
    (hsecret : τ.sh.vault.get k₀.identity = some secret) : τ.sh.bindings.get k₀ ≠ none := by
  have hpaired : Paired k₀ τ.sh τ.phase := by
    refine h.invariant (I := fun (sh : Shared) (ph : ℕ → Option Phase) => Paired k₀ sh ph) body_follows
      ?_ ?_ (conforming_of_idle h₀.idle) h₀.paired
    · exact fun σ i c _ hI _ => hI.start c
    · intro σ i ω p op r sh hok hI hi hop ha hex
      exact hI.step hi ha hex (hok.1 op hop).pairs (hok.2 op hop)
  exact hpaired.row secret hsecret

/-! ### A refresh in one process and an unbind in another -/

/-- Nothing the stores are asked to do fails. -/
def Unfailing : Event (federation cfg) → Bool
  | .step _ (.failed _) => false
  | _ => true

/-- The first `m` calls, with operations on one binding only. -/
def aboutOnly (k₀ : Ref) (m : ℕ) (σ : Processes cfg) (e : Event (federation cfg)) : Bool :=
  e.below m && match e with
    | .start _ _ => true
    | .step i _ => (σ.nextOp i).all fun op => op.ref.all (· == k₀)

theorem aboutOnly_spec {m : ℕ} {e : Event (federation cfg)} (h : aboutOnly k₀ m σ e = true) :
    e.below m = true ∧ About k₀ σ e := by
  obtain ⟨hbelow, hall⟩ := Bool.and_eq_true_iff.1 h
  refine ⟨hbelow, ?_⟩
  cases e with
  | start i c => trivial
  | step i ω =>
    intro op hop k hk
    have hk₀ : k = k₀ := by simpa [hop, hk] using hall
    rw [hk₀]
    simp

/-- A source that is asked for everything the service knows. -/
def sampleSource : Source := ⟨"g", "s", .active, .revocable, "client", ""⟩

def sampleConfig : Config := ⟨fun _ _ => some sampleSource, "https://auth", 600⟩

def sampleRef : Ref := ⟨"u", "g", "s"⟩

/-- Nothing is bound. -/
def sampleStart : Processes sampleConfig :=
  ⟨⟨0, .empty, ∅, ∅, [], [], []⟩, fun _ => none⟩

theorem sampleStart_started : Started sampleRef sampleStart := ⟨fun _ => rfl, nofun⟩

/-- A call that starts and makes operations at the choices given. -/
def making (i : ℕ) (c : Call) (ωs : List Choice) : List (Event (federation sampleConfig)) :=
  .start i c :: ωs.map (.step i)

/-- The account is bound, with a token that is about to expire. -/
def binding : List (Event (federation sampleConfig)) :=
  making 0 (.beginBind sampleRef "") [.drawn "state", .drawn "verifier", .done, .done, .done] ++
  making 1 (.completeBind 0 "u" "state" "code")
    [.done, .done, .done, .granted ⟨"at", "rt", "bearer", 1⟩, .word 5, .done, .done, .done]

/-- A process refreshes the binding, up to its claim of the row. -/
def claiming : List (Event (federation sampleConfig)) :=
  making 2 (.fetch 0 sampleSource sampleRef)
    [.done, .done, .done, .done, .done, .done, .granted ⟨"at2", "rt2", "bearer", 1⟩, .done]

/-- Another process removes the binding. -/
def unbinding : List (Event (federation sampleConfig)) :=
  making 3 (.unbind 1 sampleRef) [.done, .done, .done, .done, .done, .done, .done]

/-- The refresh goes on: it stores the secret and makes its request. -/
def storing : List (Event (federation sampleConfig)) :=
  [.step 2 .done, .step 2 .done, .step 2 .done, .step 2 .done]

/-- **A secret is orphaned**: the refresh has claimed the row when the unbind shreds the secret and
deletes the row, and then it stores the secret it was granted. -/
theorem secret_orphaned : Started sampleRef sampleStart ∧ ∃ τ : Processes sampleConfig,
    Pool.Reaches (fun σ e => About sampleRef σ e ∧ Unfailing e = true) sampleStart τ ∧
      (∀ i, ¬ τ.InFlight i) ∧ (∃ secret, τ.sh.vault.get sampleRef.identity = some secret) ∧
      τ.sh.bindings.get sampleRef = none := by
  have hcheck : ∀ (σ : Processes sampleConfig) e, σ.Below 4 →
      (aboutOnly sampleRef 4 σ e && Unfailing e) = true →
      e.below 4 = true ∧ About sampleRef σ e ∧ Unfailing e = true := by
    intro σ e _ h
    obtain ⟨habout, hfail⟩ := Bool.and_eq_true_iff.1 h
    obtain ⟨hbelow, habout⟩ := aboutOnly_spec habout
    exact ⟨hbelow, habout, hfail⟩
  obtain ⟨h, hτ⟩ := reaches_of_runIf (binding ++ claiming ++ unbinding ++ storing) hcheck
    (fun _ _ => rfl) (show sampleStart.runIf _ _ = some _ from rfl)
  exact ⟨sampleStart_started, _, h, hτ.not_inFlight (by decide), ⟨_, rfl⟩, rfl⟩

/-- Whether a claim and a removal overlap, among the first `m` calls. -/
def disjointly (k₀ : Ref) (m : ℕ) (σ : Processes cfg) : Event (federation cfg) → Bool
  | .start _ _ => true
  | .step i _ => (σ.nextOp i).all fun op =>
    match op with
    | .putIfVersion _ _ | .create _ =>
      (List.range m).all fun j => (σ.phase j).all fun q => !q.stage.removingAt k₀
    | .revokeSecret _ => (List.range m).all fun j => (σ.phase j).all fun q => !q.stage.storingAt k₀
    | _ => true

theorem disjointly_spec {m : ℕ} {e : Event (federation cfg)} (hσ : σ.Below m)
    (h : disjointly k₀ m σ e = true) : Disjoint k₀ σ e := by
  cases e with
  | start i c => trivial
  | step i ω =>
    intro op hop
    rw [disjointly, hop, all_some] at h
    cases op with
    | putIfVersion b v => exact fun _ j q hj => by simpa using hσ.forall_phase h hj
    | create b => exact fun _ j q hj => by simpa using hσ.forall_phase h hj
    | revokeSecret k => exact fun _ j q hj => by simpa using hσ.forall_phase h hj
    | _ => trivial

/-- A binding that is refreshed and kept. -/
theorem secret_has_row_refreshed : ∃ τ : Processes sampleConfig,
    (∃ secret, τ.sh.vault.get sampleRef.identity = some secret) ∧
      τ.sh.bindings.get sampleRef ≠ none := by
  have hcheck : ∀ (σ : Processes sampleConfig) e, σ.Below 3 →
      (aboutOnly sampleRef 3 σ e && disjointly sampleRef 3 σ e) = true →
      e.below 3 = true ∧ About sampleRef σ e ∧ Disjoint sampleRef σ e := by
    intro σ e hσ h
    obtain ⟨habout, hdisjoint⟩ := Bool.and_eq_true_iff.1 h
    obtain ⟨hbelow, habout⟩ := aboutOnly_spec habout
    exact ⟨hbelow, habout, disjointly_spec hσ hdisjoint⟩
  obtain ⟨h, -⟩ := reaches_of_runIf (binding ++ claiming ++ storing) hcheck (fun _ _ => rfl)
    (show sampleStart.runIf _ _ = some _ from rfl)
  exact ⟨_, ⟨_, rfl⟩, secret_has_row sampleStart_started h rfl⟩

end Re0Auth.Federation

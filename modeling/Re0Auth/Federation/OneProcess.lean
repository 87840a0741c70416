import Re0Auth.Federation.Orphans

/-!
# The bindings of one process

Within one process the keyed mutex is what keeps a claim and a removal of a binding apart, and the names
the registry admits are what makes the key of the mutex, the key of the row and the identity of the
secret stand for one binding.

* **`Exclusive`**: no two calls hold one mutex (**`Exclusive.step`**), and a write of a binding is made
  under its mutex;
* **`Clean`**: every row, every flow and every secret belongs to an admitted name (**`Clean.step`**);
* **`no_orphan`**: a secret has a row in every state, whatever calls fail.
-/

namespace Re0Auth.Federation

open Lib OAuth Vault Function Pool Dict MemoryBindingStore Option

variable {cfg : Config} {op : Op} {ω : Choice} {sh sh' : Shared} {r : op.Res} {i j P : ℕ}
  {k k₀ : Ref} {p q : Phase × Custody} {ph : ℕ → Option (Phase × Custody)}

/-- **The calls of one process**, with both views. -/
abbrev Process (cfg : Config) : Type := Pool (federation cfg) (views cfg)

/-! ## Mutexes -/

variable (hi : ph i = some p) (ha : (views cfg).allowed p op) (hex : exec op ω sh = some (r, sh'))

include hex in
/-- The mutexes change when one is taken or given back. -/
theorem exec_locks : (∃ process key, op = .lock process key ∧ (process, key) ∉ sh.locks ∧
      sh'.locks = (process, key) :: sh.locks) ∨
    (∃ process key, op = .unlock process key ∧ sh'.locks = sh.locks.erase (process, key)) ∨
    op.onLock = false ∧ sh'.locks = sh.locks := by
  cases op with
  | lock process key =>
    simp only [exec] at hex
    split at hex
    · cases hex
    · rename_i hfree
      cases hex
      exact .inl ⟨process, key, rfl, by simpa using hfree, rfl⟩
  | unlock process key =>
    cases hex
    exact .inr (.inl ⟨process, key, rfl, rfl⟩)
  | putIfVersion | create | deleteBinding | putFlow | enroll | revokeSecret =>
    rcases settle_state hex with rfl | rfl <;> exact .inr (.inr ⟨rfl, rfl⟩)
  | _ =>
    refine .inr (.inr ⟨rfl, ?_⟩)
    simp only [exec] at hex
    (repeat' split at hex) <;> cases hex <;> first | rfl | (simp only [Shared.issue]; split <;> rfl)

/-- **The two views of a call agree**, and a claim or a removal that is under way is made under the
binding's mutex. -/
structure Agree (p : Phase × Custody) : Prop where
  held : p.1.held = p.2.held
  storing : ∀ k next spent, p.1.stage = .storing k next spent → p.1.Holds k
  removing : ∀ k cause, p.1.stage = .removing k cause → p.1.Holds k

theorem Agree.start (c : Call) : Agree ((views cfg).start c) := ⟨rfl, nofun, nofun⟩

include ha in
theorem Agree.advance (h : Agree p) : Agree ((views cfg).advance p op r) := by
  by_cases hop : op.onLock = true
  · -- the mutex is taken or given back with nothing under way
    cases op with
    | lock process key => exact ⟨rfl, nofun, nofun⟩
    | unlock process key => exact ⟨rfl, nofun, nofun⟩
    | _ => cases hop
  · have hop : op.onLock = false := by simpa using hop
    have hm : Move op r p.1.stage (p.1.advance op r).stage := .of_advance r ha.1
    refine ⟨?_, fun k next spent hst => Phase.Holds.advance ?_ hop, fun k cause hst =>
      Phase.Holds.advance ?_ hop⟩
    · exact (Phase.held_advance hop r).trans (h.held.trans (Custody.stays_advance hop r).held.symm)
    · change (p.1.advance op r).stage = _ at hst
      rw [hst] at hm
      generalize hst₀ : p.1.stage = st at hm
      cases hm with
      | keep _ => exact h.storing k next spent hst₀
      | claim | rebind | create => exact ha.1.1
    · change (p.1.advance op r).stage = _ at hst
      rw [hst] at hm
      generalize hst₀ : p.1.stage = st at hm
      cases hm with
      | keep _ => exact h.removing k cause hst₀
      | condemn | shred => exact ha.1.1

/-- **Mutual exclusion.** -/
structure Exclusive (sh : Shared) (ph : ℕ → Option (Phase × Custody)) : Prop where
  agree : ∀ j q, ph j = some q → Agree q
  /-- A mutex that a call holds is taken. -/
  taken : ∀ j q, ph j = some q → ∀ l, q.2.held = some l → l ∈ sh.locks
  /-- Two calls hold two mutexes. -/
  apart : ∀ j q j' q', ph j = some q → ph j' = some q' →
    ∀ l, q.2.held = some l → q'.2.held = some l → j = j'

variable (h : Exclusive sh ph) (c : Call)

include h c in
theorem Exclusive.start : Exclusive sh (update ph i (some ((views cfg).start c))) := by
  have hfirst : Agree ((views cfg).start c) := .start c
  refine ⟨?_, ?_, ?_⟩
  · exact forall_kept hfirst h.agree
  · exact forall_kept nofun h.taken
  · exact forall_update₂ (fun _ _ _ => rfl) (fun _ _ _ _ _ h => by cases h)
      (fun _ _ _ _ _ _ h => by cases h) h.apart

include hi ha hex in
/-- **Step lemma**: an operation keeps mutual exclusion. -/
theorem Exclusive.step (h : Exclusive sh ph) :
    Exclusive sh' (update ph i (some ((views cfg).advance p op r))) := by
  have hagree : ∀ j q, update ph i (some ((views cfg).advance p op r)) j = some q → Agree q :=
    forall_kept ((h.agree i p hi).advance ha) h.agree
  obtain ⟨process, key, rfl, hfree, hlocks⟩ | ⟨process, key, rfl, hlocks⟩ | ⟨hop, hlocks⟩ := exec_locks hex
  · -- a mutex that is taken was held by nobody
    have hnobody : ∀ j q, ph j = some q → q.2.held ≠ some (process, key) :=
      fun j q hj hheld => hfree (h.taken j q hj _ hheld)
    refine ⟨hagree, forall_kept ?_ fun j q hj l hl => ?_, ?_⟩
    · rintro l ⟨⟩
      rw [hlocks]
      exact List.mem_cons_self
    · rw [hlocks]
      exact List.mem_cons_of_mem _ (h.taken j q hj l hl)
    · refine forall_update₂ (fun _ _ _ => rfl) ?_ ?_ h.apart
      · rintro l q _ hl _ ⟨⟩ hheld
        exact absurd hheld (hnobody l q hl)
      · rintro l q _ hl _ hheld ⟨⟩
        exact absurd hheld (hnobody l q hl)
  · -- the mutex that is given back is the call's own
    have hheld : p.2.held = some (process, key) := ha.2
    refine ⟨hagree, forall_update nofun fun j q hij hj l hl => ?_, ?_⟩
    · have hne : l ≠ (process, key) := by
        rintro rfl
        exact hij (h.apart j q i p hj hi _ hl hheld)
      rw [hlocks]
      exact (List.mem_erase_of_ne hne).2 (h.taken j q hj l hl)
    · exact forall_update₂ (fun _ _ _ => rfl) (fun _ _ _ _ _ h => by cases h)
        (fun _ _ _ _ _ _ h => by cases h) h.apart
  · -- nothing else changes what a call holds
    have hheld : ((views cfg).advance p op r).2.held = p.2.held := (Custody.stays_advance hop r).held
    refine ⟨hagree, forall_kept ?_ fun j q hj => ?_, ?_⟩
    · rw [hheld, hlocks]
      exact h.taken i p hi
    · rw [hlocks]
      exact h.taken j q hj
    · refine forall_update₂ (fun _ _ _ => rfl) ?_ ?_ h.apart
      · rw [hheld]
        exact fun l q _ hl => h.apart i p l q hi hl
      · rw [hheld]
        exact fun l q _ hl => h.apart l q i p hl hi

/-! ## Names -/

/-- The rows of admitted names. -/
def MemoryBindingStore.Clean (s : MemoryBindingStore) : Prop :=
  ∀ key b, s.m.get key = some b → b.ref.Named

/-- **Every row, every flow and every secret** belongs to an admitted name, and so does whatever a call
has come across. -/
structure Clean (sh : Shared) (ph : ℕ → Option (Phase × Custody)) : Prop where
  rows : sh.bindings.Clean
  flows : ∀ state f, sh.flows.get state = some f → f.ref.Named
  secrets : ∀ identity secret, sh.vault.get identity = some secret → ∃ k : Ref, k.Named ∧ k.identity = identity
  calls : ∀ j q, ph j = some q → q.2.clean = true

include hex in
/-- Flows are stored and taken out, and nothing else happens to them. -/
theorem exec_flows :
    sh'.flows = sh.flows ∨ (∃ f, op = .putFlow f ∧ sh'.flows = sh.flows.set f.state f) ∨
      ∃ state, op = .consumeFlow state ∧ sh'.flows = sh.flows.del state := by
  cases op with
  | putFlow f =>
    obtain rfl | rfl := settle_state hex
    · exact .inl rfl
    · exact .inr (.inl ⟨f, rfl, rfl⟩)
  | consumeFlow state =>
    simp only [exec] at hex
    split at hex
    · rename_i landed
      cases landed <;> cases hex
      · exact .inl rfl
      · exact .inr (.inr ⟨state, rfl, rfl⟩)
    · split at hex <;> cases hex
      · exact .inl rfl
      · exact .inr (.inr ⟨state, rfl, rfl⟩)
  | putIfVersion | create | deleteBinding | enroll | revokeSecret =>
    rcases settle_state hex with rfl | rfl <;> exact .inl rfl
  | _ =>
    left
    simp only [exec] at hex
    (repeat' split at hex) <;> cases hex <;> first | rfl | (simp only [Shared.issue]; split <;> rfl)

/-- A flow that was taken out was in the store. -/
theorem exec_consumeFlow {state : String} {f : BindFlow}
    (hex : exec (.consumeFlow state) ω sh = some (.ok f, sh')) : sh.flows.get state = some f := by
  simp only [exec] at hex
  split at hex
  · cases hex
  · split at hex <;> cases hex
    assumption

theorem Clean.start (h : Clean sh ph) {c : Call} (hc : ∀ k, c.listed = some k → k.Named) :
    Clean sh (update ph i (some ((views cfg).start c))) := by
  refine ⟨h.rows, h.flows, h.secrets, forall_kept ?_ h.calls⟩
  change c.listed.all Ref.named = true
  cases hl : c.listed with
  | none => rfl
  | some k => exact hc k hl

include hex in
/-- What a call comes across is clean. -/
theorem Clean.advance (h : Clean sh ph) {p : Custody} (hp : p.clean = true) : (p.advance op r).clean = true := by
  cases op with
  | getBinding k =>
    rcases r with e | row
    · exact hp
    · exact Bool.and_eq_true_iff.2 ⟨hp, h.rows _ _ (exec_getBinding hex)⟩
  | consumeFlow state =>
    rcases r with e | f
    · exact hp
    · exact Bool.and_eq_true_iff.2 ⟨hp, h.flows _ _ (exec_consumeFlow hex)⟩
  | newBindID => rcases r with e | id <;> exact hp
  | _ => exact hp

include hi ha hex in
/-- **Step lemma**: an operation keeps the names clean. -/
theorem Clean.step (h : Clean sh ph) : Clean sh' (update ph i (some ((views cfg).advance p op r))) := by
  have hp := h.calls i p hi
  have hset : ∀ b : Binding, b.ref.Named → (sh.bindings.set b).Clean := by
    intro b hb key b' hget
    obtain hold | ⟨-, rfl⟩ := get_of_get_set hget
    · exact h.rows key b' hold
    · exact hb
  refine ⟨?_, ?_, ?_, forall_kept (h.advance hex hp) h.calls⟩
  · obtain hsame | ⟨b, old, rfl, -, hrows⟩ | ⟨b, rfl, hrows⟩ | ⟨k, rfl, hrows⟩ := exec_bindings hex
    · rw [hsame]
      exact h.rows
    · rw [hrows]
      exact hset b (ha.2.1.2 hp)
    · rw [hrows]
      exact hset b (ha.2.1.2 hp)
    · rw [hrows]
      exact fun key b hget => h.rows key b (get_of_get_del hget).1
  · obtain hsame | ⟨f, rfl, hflows⟩ | ⟨state, rfl, hflows⟩ := exec_flows hex
    · rw [hsame]
      exact h.flows
    · rw [hflows]
      intro state f' hget
      obtain hold | ⟨-, rfl⟩ := get_of_get_set hget
      · exact h.flows state f' hold
      · exact ha.2.1 hp
    · rw [hflows]
      exact fun state f hget => h.flows state f (get_of_get_del hget).1
  · obtain hsame | ⟨k, secret, rfl, hvault⟩ | ⟨k, rfl, hvault⟩ := exec_vault hex
    · rw [hsame]
      exact h.secrets
    · rw [hvault]
      intro identity secret' hget
      obtain hold | ⟨rfl, -⟩ := get_of_get_set hget
      · exact h.secrets identity secret' hold
      · exact ⟨k, ha.2.1.2 hp, rfl⟩
    · rw [hvault]
      exact fun identity secret hget => h.secrets identity secret (get_of_get_del hget).1

/-! ## A claim and a removal -/

/-- The mutexes a call takes are those of its process. -/
def Within (P : ℕ) (p : Custody) : Prop :=
  (∀ process, p.call.process = some process → process = P) ∧ ∀ l, p.held = some l → l.1 = P

theorem Within.advance {p : Custody} (h : Within P p) (ha : InCustody p op) : Within P (p.advance op r) := by
  by_cases hop : op.onLock = true
  · cases op with
    | lock process key =>
      refine ⟨h.1, ?_⟩
      rintro l ⟨⟩
      exact h.1 process ha.2.1
    | unlock process key => exact ⟨h.1, nofun⟩
    | _ => cases hop
  · have hstays := Custody.stays_advance (p := p) (by simpa using hop) r
    rw [Within, hstays.call, hstays.held]
    exact h

variable (hP : ∀ j q, ph j = some q → Within P q.2)

include hi h hP in
/-- **Two calls of one process do not hold the lock of one binding.** -/
theorem Exclusive.eq_of_holds (hj : ph j = some q) (hp : p.1.Holds k) (hq : q.1.Holds k₀)
    (hk : k.bindingKey = k₀.bindingKey) : i = j := by
  obtain ⟨process, hp⟩ := hp
  obtain ⟨process', hq⟩ := hq
  rw [(h.agree i p hi).held] at hp
  rw [(h.agree j q hj).held] at hq
  obtain rfl : process = P := (hP i p hi).2 _ hp
  obtain rfl : process' = process := (hP j q hj).2 _ hq
  exact h.apart i p j q hi hj _ hp (hk ▸ hq)

/-- The first view of the calls. -/
def writers (ph : ℕ → Option (Phase × Custody)) : ℕ → Option Phase := Option.map Prod.fst ∘ ph

theorem writers_update (x : Phase × Custody) :
    writers (update ph i (some x)) = update (writers ph) i (some x.1) :=
  comp_update (Option.map Prod.fst) ph i (some x)

theorem writers_eq_some {w : Phase} (h : writers ph j = some w) : ∃ q, ph j = some q ∧ q.1 = w :=
  map_eq_some_iff.1 h

theorem Agree.removingAt (h : Agree p) (hst : p.1.stage.removingAt k₀ = true) :
    ∃ k, p.1.Holds k ∧ k.bindingKey = k₀.bindingKey := by
  unfold Stage.removingAt at hst
  split at hst
  · exact ⟨_, h.removing _ _ (by assumption), by simpa using hst⟩
  · cases hst

theorem Agree.storingAt (h : Agree p) (hst : p.1.stage.storingAt k₀ = true) :
    ∃ k, p.1.Holds k ∧ k.bindingKey = k₀.bindingKey := by
  unfold Stage.storingAt at hst
  split at hst
  · exact ⟨_, h.storing _ _ _ (by assumption), by simpa using hst⟩
  · cases hst

include hi h hP in
/-- What is done only under the binding's lock is not done by another call. -/
theorem Exclusive.alone (hk : p.1.Holds k) (hkey : k.bindingKey = k₀.bindingKey) {busy : Stage → Bool}
    (hbusy : ∀ q, Agree q → busy q.1.stage = true → ∃ k', q.1.Holds k' ∧ k'.bindingKey = k₀.bindingKey)
    (hself : busy p.1.stage = false) : ∀ j w, writers ph j = some w → busy w.stage = false := by
  intro j w hw
  obtain ⟨q, hj, rfl⟩ := writers_eq_some hw
  by_contra hno
  obtain ⟨k', hk', hkey'⟩ := hbusy q (h.agree j q hj) (by simpa using hno)
  obtain rfl := h.eq_of_holds hi hP hj hk hk' (hkey.trans hkey'.symm)
  rw [hi] at hj
  cases hj
  exact hno hself

include hi h hP in
/-- **The mutex keeps a claim and a removal apart.** -/
theorem Exclusive.op_apart (ha : Allowed p.1 op) : op.Apart k₀ (writers ph) := by
  cases op with
  | putIfVersion b v =>
    intro hkey
    refine h.alone hi hP ha.1 hkey (fun q hq => hq.removingAt) ?_
    obtain ⟨-, ⟨next, hst⟩ | ⟨old, token, next, hst, -⟩⟩ := ha <;> rw [hst] <;> rfl
  | create b =>
    intro hkey
    refine h.alone hi hP ha.1 hkey (fun q hq => hq.removingAt) ?_
    obtain ⟨-, next, hst⟩ := ha
    rw [hst]
    rfl
  | revokeSecret k =>
    intro hkey
    refine h.alone hi hP ha.1 hkey (fun q hq => hq.storingAt) ?_
    obtain ⟨-, ⟨-, hst⟩ | ⟨b, token, hst, -⟩ | ⟨-, hreading⟩⟩ := ha
    · rw [hst]
      rfl
    · rw [hst]
      rfl
    · cases hst : p.1.stage <;> rw [hst] at hreading <;> first | rfl | cases hreading
  | _ => trivial

/-! ## Runs -/

/-- The row of the identity's binding is there. -/
def HasRow (sh : Shared) (identity : Identity) : Prop :=
  ∃ b : Binding, sh.bindings.get b.ref = some ⟨b, rfl⟩ ∧ b.ref.identity = identity

/-- **The stores before the calls**: rows and flows have admitted names, and a secret has its row. -/
structure Consistent (sh : Shared) : Prop where
  rows : sh.bindings.Clean
  flows : ∀ state f, sh.flows.get state = some f → f.ref.Named
  secrets : ∀ identity secret, sh.vault.get identity = some secret → HasRow sh identity

/-- Calls of the process `P`. What the kill switch removes has an admitted name: it is from the list of
the rows. -/
def InProcess (P : ℕ) : Event (federation cfg) → Prop
  | .start _ c => (∀ process, c.process = some process → process = P) ∧
    ∀ k, c.listed = some k → k.Named
  | .step _ _ => True

/-- **Invariant** of the calls of one process. -/
structure Orderly (P : ℕ) (sh : Shared) (ph : ℕ → Option (Phase × Custody)) : Prop where
  exclusive : Exclusive sh ph
  clean : Clean sh ph
  within : ∀ j q, ph j = some q → Within P q.2

theorem Orderly.start (h : Orderly P sh ph) {c : Call} (hc : InProcess P (.start i c : Event (federation cfg))) :
    Orderly P sh (update ph i (some ((views cfg).start c))) :=
  ⟨h.exclusive.start c, h.clean.start hc.2, forall_kept ⟨hc.1, nofun⟩ h.within⟩

include hi ha hex in
theorem Orderly.step (h : Orderly P sh ph) :
    Orderly P sh' (update ph i (some ((views cfg).advance p op r))) :=
  ⟨h.exclusive.step hi ha hex, h.clean.step hi ha hex, forall_kept ((h.within i p hi).advance ha.2) h.within⟩

include hi in
/-- A secret that is written in one process is its binding's. -/
theorem Orderly.pairs (h : Orderly P sh ph) (ha : InCustody p.2 op) (hk₀ : k₀.Named) : op.Pairs k₀ := by
  intro k hk
  have hclean := h.clean.calls i p hi
  unfold Op.secret at hk
  split at hk
  · cases hk
    exact (ha.1.2 hclean).key_iff_identity hk₀
  · cases hk
    exact (ha.1.2 hclean).key_iff_identity hk₀
  · cases hk

variable {σ τ : Process cfg}

theorem Consistent.orderly (h : Consistent σ.sh) (hidle : ∀ i, σ.threads i = none) :
    Orderly P σ.sh σ.phase := by
  have hnone : ∀ j q, σ.phase j ≠ some q := by
    intro j q hj
    rw [phase, hidle j] at hj
    cases hj
  refine ⟨⟨?_, ?_, ?_⟩, ⟨h.rows, h.flows, ?_, ?_⟩, ?_⟩
  · exact fun j q hj => absurd hj (hnone j q)
  · exact fun j q hj => absurd hj (hnone j q)
  · exact fun j q _ _ hj => absurd hj (hnone j q)
  · intro identity secret hsecret
    obtain ⟨b, hrow, hid⟩ := h.secrets identity secret hsecret
    exact ⟨b.ref, h.rows _ b (get_eq_some_iff.1 hrow), hid⟩
  all_goals exact fun j q hj => absurd hj (hnone j q)

theorem Consistent.paired (h : Consistent σ.sh) (hidle : ∀ i, σ.threads i = none) (hk₀ : k₀.Named) :
    Paired k₀ σ.sh (writers σ.phase) := by
  have hnone : ∀ j w, writers σ.phase j ≠ some w := by
    intro j w hj
    obtain ⟨q, hq, -⟩ := writers_eq_some hj
    rw [phase, hidle j] at hq
    cases hq
  refine ⟨fun secret hsecret => ?_, fun j w hj => absurd hj (hnone j w), fun j w hj =>
    absurd hj (hnone j w)⟩
  obtain ⟨b, hrow, hid⟩ := h.secrets _ secret hsecret
  have hb := h.rows _ b (get_eq_some_iff.1 hrow)
  rw [← hb.identity_inj hk₀ hid, hrow]
  exact some_ne_none _

/-- **No unreachable credential**: in every run of the calls of one process, and whatever operations of
the stores and the vault fail, a secret of a binding has its row, in every state of the run. -/
theorem credential_reachable (hcfg : cfg.Validated) (hidle : ∀ i, σ.threads i = none)
    (h₀ : Consistent σ.sh) (h : Pool.Reaches (fun _ e => InProcess P e) σ τ) {identity : Identity}
    {secret : BindingSecret} (hsecret : τ.sh.vault.get identity = some secret) : HasRow τ.sh identity := by
  have hτ : Orderly P τ.sh τ.phase ∧ ∀ k₀ : Ref, k₀.Named → Paired k₀ τ.sh (writers τ.phase) := by
    refine h.invariant (I := fun (sh : Shared) (ph : ℕ → Option (Phase × Custody)) =>
      Orderly P sh ph ∧ ∀ k₀ : Ref, k₀.Named → Paired k₀ sh (writers ph)) (body_views hcfg) ?_ ?_ ?_
      ⟨h₀.orderly hidle, fun k₀ hk₀ => h₀.paired hidle hk₀⟩
    · rintro σ i c hc ⟨hI, hpaired⟩ -
      refine ⟨hI.start hc, fun k₀ hk₀ => ?_⟩
      rw [writers_update]
      exact (hpaired k₀ hk₀).start c
    · rintro σ i ω p op r sh - ⟨hI, hpaired⟩ hi - ha hex
      refine ⟨hI.step hi ha hex, fun k₀ hk₀ => ?_⟩
      rw [writers_update]
      have hw : writers σ.phase i = some p.1 := by rw [writers, comp_apply, hi]; rfl
      exact (hpaired k₀ hk₀).step hw ha.1 hex (hI.pairs hi ha.2 hk₀) (hI.exclusive.op_apart hi hI.within ha.1)
    · intro i th hi
      rw [hidle i] at hi
      cases hi
  obtain ⟨hI, hpaired⟩ := hτ
  obtain ⟨k, hk, rfl⟩ := hI.clean.secrets identity secret hsecret
  obtain ⟨b, hb⟩ := ne_none_iff_exists'.1 ((hpaired k hk).row secret hsecret)
  have hget := get_eq_some_iff.1 hb
  have href : b.1.ref = k := (hI.clean.rows _ _ hget).bindingKey_inj hk b.2
  exact ⟨b.1, get_eq_some_iff.2 ((congrArg _ b.2).trans hget), congrArg Ref.identity href⟩

/-! ### A bind and a refresh whose secret is not stored -/

/-- A deployment with one source. -/
def oneSource : Config :=
  ⟨fun game source => if game = "g" ∧ source = "s" then some sampleSource else none, "https://auth", 600⟩

theorem oneSource_validated : oneSource.Validated := by
  rintro ⟨user, game, source⟩ h
  have hname : game = "g" ∧ source = "s" := by
    by_contra hno
    simp only [oneSource, if_neg hno] at h
    cases h
  obtain ⟨rfl, rfl⟩ := hname
  -- the user has no part in it
  exact (by decide : Ref.Named ⟨"", "g", "s"⟩)

/-- Nothing is bound. -/
def unbound : Process oneSource := ⟨⟨0, .empty, ∅, ∅, [], [], []⟩, fun _ => none⟩

theorem unbound_consistent : Consistent unbound.sh := ⟨nofun, nofun, nofun⟩

/-- A call of the deployment, at the choices given. -/
def calling (i : ℕ) (c : Call) (ωs : List Choice) : List (Event (federation oneSource)) :=
  .start i c :: ωs.map (.step i)

/-- The account is bound. -/
def bound : List (Event (federation oneSource)) :=
  calling 0 (.beginBind sampleRef "") [.drawn "state", .drawn "verifier", .done, .done, .done] ++
  calling 1 (.completeBind 0 "u" "state" "code")
    [.done, .done, .done, .granted ⟨"at", "rt", "bearer", 1⟩, .word 5, .done, .done, .done]

/-- The row is claimed for a rotated token, and the vault fails. -/
def halfRefreshed : List (Event (federation oneSource)) :=
  calling 2 (.fetch 0 sampleSource sampleRef) [.done, .done, .done, .done, .done, .done,
    .granted ⟨"at2", "rt2", "bearer", 1⟩, .done, .failed false, .done]

instance (P : ℕ) : DecidablePred fun e : Event (federation cfg) => InProcess P e := fun e =>
  match e with
  | .start _ c =>
    inferInstanceAs (Decidable ((∀ process, c.process = some process → process = P) ∧
      ∀ k, c.listed = some k → k.Named))
  | .step _ _ => isTrue trivial

/-- The first secret is still there, and so is the row. -/
theorem credential_reachable_half_refreshed : ∃ τ : Process oneSource,
    (∃ secret, τ.sh.vault.get sampleRef.identity = some secret) ∧
      HasRow τ.sh sampleRef.identity := by
  have hrun : (unbound.runIf (fun _ _ => true) (bound ++ halfRefreshed)).any (fun τ =>
      (τ.sh.vault.get sampleRef.identity).isSome && (τ.reply 2).isSome) = true := by
    decide
  obtain ⟨τ, hτ, hend⟩ := (any_eq_true _ _).1 hrun
  obtain ⟨secret, hsecret⟩ := isSome_iff_exists.1 (Bool.and_eq_true_iff.1 hend).1
  have hcalls : ∀ e ∈ bound ++ halfRefreshed, InProcess 0 e := by decide
  exact ⟨τ, ⟨secret, hsecret⟩, credential_reachable oneSource_validated (fun _ => rfl)
    unbound_consistent (reaches_of_forall _ (fun e he _ => hcalls e he) hτ) hsecret⟩

end Re0Auth.Federation

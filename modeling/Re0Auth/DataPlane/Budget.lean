import Re0Auth.DataPlane.Service

/-!
# The joint budget for response bodies

Every reservation goes from the method that makes it to the result that is returned, or back to the budget,
and its `Release` may be called by anybody at any time and more than once. The budget's counters are
compared with the list of all reservations, and each reservation that is not released with the call that
holds it.

* **`Hold`**, **`holding`**: what a call holds, as a typestate; **`body_holds`**: every call keeps to it;
* **`Balanced`**: the counters against the reservations; **`Owned`**: the reservations against the calls;
* **`budget_exact`**: both in every run, and the budget empty when everything was released.
-/

namespace Re0Auth.DataPlane

open Lib OAuth Federation Function Pool Dict Prog List Option Ledger

variable {cfg : Config} {α β : Type} {own : Option ℕ} {m : Read α} {f : α → Read β}
  {g : α → Option ℕ} {h : β → Option ℕ} {src : DataSource} {resp : Response}
  {caller token path query resource game : String} {info : TokenInfo} {b₀ b b' : BufferBudget}
  {l : List (Entry String)} {key : String} {n : ℤ} {e : Entry String}

/-! ## What a call holds -/

/-- **Hold** of a call. -/
inductive Hold
  /-- A read, with the reservation it has made and not released. -/
  | reading (own : Option ℕ)
  /-- A `Release`, and whether it has been executed. -/
  | releasing (id : ℕ) (done : Bool)
  | other
  deriving DecidableEq

/-- The call reads from a source. -/
def Call.isRead : Call → Bool
  | .fetch _ | .raw _ | .gameResource .. | .gameRaw .. => true
  | .release _ | .other _ => false

/-- The hold of a call that has made no operation. -/
def Hold.start : Call → Hold
  | .release id => .releasing id false
  | .other _ => .other
  | _ => .reading none

/-- The operations that are in order: a read makes one reservation at a time and releases its own. -/
def Hold.Allowed : Hold → Op → Prop
  | .reading own, .acquire _ n => own = none ∧ 0 < n
  | .reading own, .release id => own = some id
  | .releasing id _, .release id' => id' = id
  | .releasing _ _, .acquire _ _ => False
  | .other, .acquire _ _ | .other, .release _ => False
  | _, _ => True

/-- The hold after an operation. -/
def Hold.advance : Hold → (op : Op) → op.Res → Hold
  | .reading _, .acquire _ _, r => .reading r
  | .reading _, .release _, _ => .reading none
  | .releasing id _, .release _, _ => .releasing id true
  | p, _, _ => p

/-- The typestate of holds. -/
abbrev holding (cfg : Config) : Typestate (dataPlane cfg) where
  Phase := Hold
  start := Hold.start
  allowed := Hold.Allowed
  advance := Hold.advance

/-- What a call holds when it returns: what its result carries, and nothing after an error. -/
def Returned (r : Except ReadError Reply) : Hold → Prop
  | .reading own => own = r.toOption.bind Reply.release?
  | .releasing _ done => done = true
  | .other => True

/-! ## The programs keep to it -/

/-- From holding `own` the method returns holding what `g` says of its value, or nothing where it fails. -/
def Holds (cfg : Config) (own : Option ℕ) (m : Read α) (g : α → Option ℕ) : Prop :=
  m.run.Follows (holding cfg) (.reading own) fun r q => q = .reading (r.toOption.bind g)

theorem Holds.bind (hm : Holds cfg own m g) (hf : ∀ a, Holds cfg (g a) (f a) h) :
    Holds cfg own (m >>= f) h := by
  refine Follows.bindE hm ?_ ?_
  · rintro a q rfl
    exact hf a
  · rintro e q rfl
    rfl

theorem Holds.attempt (hm : Holds cfg own m g) : Holds cfg own (attempt m) fun r => r.toOption.bind g := by
  refine follows_lift.2 (Follows.mono hm ?_)
  rintro r q rfl
  rfl

theorem holds_return {a : α} (ha : g a = own) : Holds cfg own (pure a) g := by
  subst ha
  rfl

theorem holds_throw {e : ReadError} : Holds cfg none (throw e : Read α) g := rfl

/-- An operation that has nothing to do with the budget. -/
theorem holds_act (op : Op) (hop : Hold.Allowed (.reading own) op)
    (hkeep : ∀ r, Hold.advance (.reading own) op r = .reading own) : Holds cfg own (act op) fun _ => own := by
  refine follows_lift.2 ⟨hop, fun r => ?_⟩
  exact hkeep r

theorem holds_release {id : ℕ} : Holds cfg (some id) (act (.release id)) fun _ => none :=
  follows_lift.2 ⟨rfl, fun _ => rfl⟩

/-- A method that makes no reservation and releases none. -/
def Neutral (cfg : Config) (own : Option ℕ) (m : Read α) : Prop :=
  m.run.Follows (holding cfg) (.reading own) fun _ q => q = .reading own

theorem Neutral.holds (hm : Neutral cfg none m) : Holds cfg none m fun _ => none := by
  refine Follows.mono hm ?_
  rintro (e | a) q rfl <;> rfl

theorem Neutral.bind (hm : Neutral cfg own m) (hf : ∀ a, Neutral cfg own (f a)) :
    Neutral cfg own (m >>= f) := by
  refine Follows.bindE hm ?_ ?_
  · rintro a q rfl
    exact hf a
  · exact fun e q hq => hq

theorem neutral_federated {m : Svc α} : Neutral cfg own (federated m) := by
  have hask : ∀ op : Federation.Op, (ask (.fed op)).Follows (holding cfg) (.reading own)
      fun _ q => q = .reading own := fun op => ⟨trivial, fun _ => rfl⟩
  refine (Follows.embed hask m.run).bind ?_
  rintro r q rfl
  rfl

theorem neutral_readBody : Neutral cfg own readBody := by
  refine Neutral.bind (m := call (ask .readAll)) ⟨trivial, fun _ => rfl⟩ fun body => ?_
  split_ifs <;> rfl

theorem neutral_readResource : Neutral cfg own (readResource cfg src resp) := by
  refine neutral_readBody.bind fun body => ?_
  split_ifs <;> rfl

theorem reserveFor_pos : 0 < reserveFor resp (maxBody + 1) := by
  rw [reserveFor]
  split_ifs <;> omega

/-- The reservation goes to the caller with the result, and back to the budget otherwise. -/
theorem holds_reserving (hm : ∀ id, Neutral cfg (some id) m) :
    Holds cfg none (reserving caller resp m) fun x => some x.2 := by
  have hacquire : Holds cfg none (act (.acquire caller (reserveFor resp (maxBody + 1)))) id :=
    follows_lift.2 ⟨⟨rfl, reserveFor_pos⟩, fun r => rfl⟩
  refine hacquire.bind fun reserved => ?_
  cases reserved with
  | none => exact holds_throw
  | some id =>
    have hattempt : Holds cfg (some id) (attempt m) fun _ => some id :=
      follows_lift.2 (hm id)
    refine hattempt.bind fun r => ?_
    cases r with
    | ok a => exact holds_return rfl
    | error e => exact holds_release.bind fun _ => holds_throw

theorem holds_send {target : Target} : Holds cfg none (call (ask (.send src target token))) fun _ => none :=
  Neutral.holds (m := call (ask (.send src target token))) ⟨trivial, fun _ => rfl⟩

theorem holds_rawFetch :
    Holds cfg none (rawFetch cfg src path query token caller) fun r => some r.release := by
  unfold rawFetch
  cases cfg.cleanRawPath path with
  | error e => exact holds_throw
  | ok cleaned =>
    refine holds_send.bind fun resp => ?_
    exact (holds_reserving fun _ => neutral_readBody).bind fun x => holds_return rfl

theorem holds_fetchResource :
    Holds cfg none (fetchResource cfg src resource token caller) fun x => some x.2 :=
  holds_send.bind fun _ => holds_reserving fun _ => neutral_readResource

section Callback

variable {fn : String → Read α} {process : ℕ}

theorem holds_withAccessToken {b : Binding} (hfn : ∀ token, Holds cfg none (fn token) g) :
    Holds cfg none (withAccessToken b fn) g :=
  neutral_federated.holds.bind fun secret => hfn secret.accessToken

/-- A 401 ends the first attempt without a reservation, so the second one starts as the first did. -/
theorem holds_callWithRefresh {src : Source} {binding : Binding}
    (hfn : ∀ token, Holds cfg none (fn token) g) :
    Holds cfg none (callWithRefresh process src binding fn) g := by
  refine neutral_federated.holds.bind fun binding => ?_
  refine (holds_withAccessToken hfn).attempt.bind fun r => ?_
  cases r with
  | ok a => exact holds_return rfl
  | error e =>
    dsimp only
    split_ifs
    · exact holds_throw
    · exact neutral_federated.holds.bind fun refreshed => holds_withAccessToken hfn

theorem holds_readBound {src : DataSource} {k : Ref}
    (hfn : ∀ token, Holds cfg none (fn token) g) : Holds cfg none (readBound process src k fn) g := by
  have hnote : ∀ own b, Holds cfg own (act (.noteOutcome k.bindingKey b)) fun _ => own :=
    fun own b => holds_act _ trivial fun _ => rfl
  refine (holds_act (.fed (.getBinding k)) trivial fun _ => rfl).bind fun bound => ?_
  cases bound with
  | error e =>
    dsimp only
    split_ifs <;> exact holds_throw
  | ok binding =>
    refine (holds_act (.cooling k.bindingKey) trivial fun _ => rfl).bind fun cooling => ?_
    split_ifs
    · exact holds_throw
    · refine (holds_callWithRefresh hfn).attempt.bind fun r => ?_
      cases r with
      | ok a => exact (hnote _ _).bind fun _ => holds_return rfl
      | error e => exact (hnote _ _).bind fun _ => holds_throw

end Callback

theorem holds_fetch {req : FetchRequest} : Holds cfg none (fetch cfg req) fun r => some r.release := by
  have htry : ∀ src, Holds cfg none (trySource cfg src req) fun r => some r.release := fun src =>
    (holds_readBound fun _ => holds_fetchResource).bind fun x => holds_return rfl
  have hall : ∀ srcs i tried, Holds cfg none (tryAll cfg req i tried srcs) fun r => some r.release := by
    intro srcs
    induction srcs with
    | nil => exact fun i tried => holds_throw
    | cons src rest ih =>
      intro i tried
      refine (htry src).attempt.bind fun r => ?_
      cases r with
      | ok result => exact holds_return rfl
      | error e => exact ih (i + 1) (tried.note e)
  unfold fetch
  cases cfg.registry.candidates req.game req.resource req.source with
  | error e => exact holds_throw
  | ok candidates => exact hall candidates 0 _

theorem holds_raw {req : RawRequest} : Holds cfg none (raw cfg req) fun r => some r.release := by
  have honce : ∀ src token, Holds cfg none (rawOnce cfg src req token) fun r => some r.release := by
    intro src token
    refine holds_rawFetch.bind fun result => ?_
    split_ifs
    · exact holds_release.bind fun _ => holds_throw
    · exact holds_return rfl
  unfold raw
  cases cfg.registry.get req.game req.source with
  | none => exact holds_throw
  | some src =>
    dsimp only
    split_ifs
    · exact holds_throw
    · exact holds_throw
    · exact (holds_readBound (honce src)).bind fun result => holds_return rfl

theorem holds_handleGameResource {pinned : String} :
    Holds cfg none (handleGameResource cfg info game resource pinned) fun _ => none := by
  unfold handleGameResource
  cases gate cfg info.scopes game resource pinned with
  | error e => exact holds_throw
  | ok _ => exact holds_fetch.bind fun result => holds_release.bind fun _ => holds_return rfl

theorem holds_handleGameRaw {source : String} :
    Holds cfg none (handleGameRaw cfg info game source path query) fun _ => none := by
  unfold handleGameRaw
  cases rawGate cfg game source with
  | none => exact holds_throw
  | some scope =>
    dsimp only
    split
    · exact holds_throw
    · exact holds_raw.bind fun result => holds_release.bind fun _ => holds_return rfl

/-- **Every call keeps to what it holds**, and its result carries what it holds at the end. -/
theorem body_holds (cfg : Config) (c : Call) :
    (c.body cfg).run.Follows (holding cfg) (Hold.start c) Returned := by
  have hread : ∀ {γ : Type} {m : Read γ} {g : γ → Option ℕ} {k : γ → Reply}, Holds cfg none m g →
      (∀ a, (k a).release? = g a) → (k <$> m).run.Follows (holding cfg) (.reading none) Returned := by
    intro γ m g k hm hk
    refine Follows.mapE hm ?_
    rintro (e | a) q rfl
    · rfl
    · exact (hk a).symm
  cases c with
  | fetch req => exact hread holds_fetch fun _ => rfl
  | raw req => exact hread holds_raw fun _ => rfl
  | gameResource info game resource pinned => exact hread holds_handleGameResource fun _ => rfl
  | gameRaw info game source path query => exact hread holds_handleGameRaw fun _ => rfl
  | release id => exact ⟨rfl, fun _ => rfl⟩
  | other c =>
    have hask : ∀ op : Federation.Op, (ask (.fed op)).Follows (holding cfg) .other
        fun _ q => q = .other := fun op => ⟨trivial, fun _ => rfl⟩
    have hkeep : (federated (c.body cfg.binding)).run.Follows (holding cfg) .other
        fun _ q => q = .other := by
      refine (Follows.embed hask _).bind ?_
      rintro r q rfl
      rfl
    refine Follows.mapE hkeep ?_
    rintro r q rfl
    trivial

/-! ## The counters against the reservations -/

/-- **Balanced**: the counters of the budget are the sums over the reservations that are not released, in
all and for each caller, and they stay within the limits of `b₀`. -/
structure Balanced (b₀ : BufferBudget) (b : BufferBudget) (l : List (Entry String)) : Prop where
  limit : b.limit = b₀.limit
  share : b.share = b₀.share
  held : b.held = Ledger.due l
  perKey : ∀ k, b.perKey.get k = if Ledger.dueTo k l = 0 then none else some (Ledger.dueTo k l)
  total : b.perKey.total = b.held
  positive : ∀ e ∈ l, 0 < e.amount
  held_le : b.held ≤ b.limit
  perKey_le : ∀ k, Ledger.dueTo k l ≤ b.share

theorem Balanced.getD (h : Balanced b₀ b l) (k : String) : (b.perKey.get k).getD 0 = dueTo k l := by
  rw [h.perKey k]
  split_ifs with hk
  · exact hk.symm
  · rfl

/-- A new budget. -/
theorem balanced_new {limit : ℤ} (hlimit : 0 ≤ limit) :
    Balanced (newBufferBudget limit) (newBufferBudget limit) [] where
  limit := rfl
  share := rfl
  held := rfl
  perKey _ := rfl
  total := rfl
  positive := nofun
  held_le := hlimit
  perKey_le _ := by
    simp only [newBufferBudget, bufferShare, dueTo_nil]
    split_ifs <;> omega

/-- A reservation that fits. -/
theorem Balanced.acquire (h : Balanced b₀ b l) (hn : 0 < n) (hb : b.acquire key n = some b') :
    Balanced b₀ b' (l ++ [⟨key, n, false⟩]) := by
  rw [BufferBudget.acquire, h.getD] at hb
  split_ifs at hb with hlimit hshare
  cases hb
  have hnonneg := dueTo_nonneg (k := key) h.positive
  have hsum : ∀ k, dueTo k (l ++ [⟨key, n, false⟩]) =
      dueTo k l + if key = k then n else 0 := fun k => dueTo_concat
  refine ⟨h.limit, h.share, ?_, fun k => ?_, ?_, ?_, ?_, fun k => ?_⟩
  · rw [due_concat, ← h.held]
    rfl
  · rw [get_set, hsum, h.perKey k]
    by_cases hk : k = key
    · subst hk
      rw [if_pos rfl, if_pos rfl, if_neg (by omega)]
    · rw [if_neg hk, if_neg (Ne.symm hk), Int.add_zero]
  · rw [total_set, total_del, h.getD, h.total]
    dsimp only
    omega
  · intro e he
    rcases mem_append.1 he with he | he
    · exact h.positive e he
    · rw [mem_singleton.1 he]
      exact hn
  · exact Int.not_lt.1 hlimit
  · rw [hsum]
    split_ifs with hk
    · subst hk
      exact Int.not_lt.1 hshare
    · rw [Int.add_zero]
      exact h.perKey_le k

/-- A reservation that goes back for the first time. -/
theorem Balanced.release {id : ℕ} (h : Balanced b₀ b l) (he : l[id]? = some e)
    (hopen : e.settled = false) : Balanced b₀ (b.release e.key e.amount) (settle l id) := by
  have hmem : e ∈ l := mem_of_getElem? he
  have hpos := h.positive e hmem
  have hdue : e.due = e.amount := by simp [Entry.due, hopen]
  have hdueTo : ∀ k, e.dueTo k = if e.key = k then e.amount else 0 := fun k => by rw [Entry.dueTo, hdue]
  have hkey : e.amount ≤ dueTo e.key l := by
    have hle := dueTo_le (k := e.key) h.positive hmem
    rwa [hdueTo, if_pos rfl] at hle
  have hheld : e.amount ≤ b.held := by
    rw [h.held]
    exact hkey.trans (dueTo_le_due h.positive)
  have hsum : ∀ k, dueTo k (settle l id) =
      dueTo k l - if e.key = k then e.amount else 0 := fun k => by
    rw [dueTo_settle he, hdueTo]
  have hrelease : b.release e.key e.amount = { b with
      held := b.held - e.amount
      perKey := if dueTo e.key l - e.amount ≤ 0 then b.perKey.del e.key
        else b.perKey.set e.key (dueTo e.key l - e.amount) } := by
    simp only [BufferBudget.release, h.getD]
    rw [if_neg (by omega : ¬ b.held - e.amount < 0)]
  rw [hrelease]
  refine ⟨h.limit, h.share, ?_, fun k => ?_, ?_, ?_, ?_, fun k => ?_⟩
  · rw [due_settle he, hdue, ← h.held]
  · rw [hsum]
    by_cases hk : k = e.key
    · subst hk
      rw [if_pos rfl]
      split_ifs with hle hzero hzero
      · exact get_del_self ..
      · omega
      · omega
      · exact get_set_self ..
    · rw [if_neg (Ne.symm hk), Int.sub_zero, ← h.perKey k]
      split_ifs
      · rw [get_del, if_neg hk]
      · rw [get_set, if_neg hk]
  · dsimp only
    split_ifs with hle
    · rw [total_del, h.getD, h.total]
      omega
    · rw [total_set, total_del, h.getD, h.total]
      omega
  · exact forall_settle (P := fun _ n => 0 < n) h.positive
  · have hle := h.held_le
    dsimp only
    omega
  · have hle := h.perKey_le k
    rw [hsum]
    dsimp only
    omega

/-! ## The reservations against the calls -/

/-- **Owned**: a reservation that is not released is held by a read, and a `Release` that was executed has
released its reservation. -/
structure Owned (l : List (Entry String)) (phase : ℕ → Option Hold) : Prop where
  held : ∀ id e, l[id]? = some e → e.settled = false → ∃ i, phase i = some (.reading (some id))
  released : ∀ i id, phase i = some (.releasing id true) → ∃ e, l[id]? = some e ∧ e.settled = true

variable {phase : ℕ → Option Hold} {l' : List (Entry String)} {i id : ℕ} {p : Hold} {ω : Choice}
  {sh sh' : Shared} {fed : Federation.Shared} {cooldown : BindingCooldown}
  {τ : Pool (dataPlane cfg) (holding cfg)} {th : Thread (dataPlane cfg) (holding cfg)}

/-- A read makes a reservation; it held none. -/
theorem Owned.acquire (h : Owned l phase) (hp : phase i = some (.reading none)) :
    Owned (l ++ [e]) (update phase i (some (.reading (some l.length)))) := by
  constructor
  · intro id x hx hopen
    rcases Nat.lt_or_ge id l.length with hid | hid
    · rw [getElem?_append_left hid] at hx
      obtain ⟨j, hj⟩ := h.held id x hx hopen
      have hji : j ≠ i := by
        rintro rfl
        rw [hp] at hj
        cases hj
      exact ⟨j, by rw [update_of_ne hji, hj]⟩
    · have hlen : id < (l ++ [e]).length := (List.getElem?_eq_some_iff.1 hx).1
      rw [length_append, length_singleton] at hlen
      obtain rfl : id = l.length := by omega
      exact ⟨i, update_self ..⟩
  · intro j id hj
    rw [update_apply] at hj
    split_ifs at hj
    · cases hj
    · obtain ⟨x, hx, hdone⟩ := h.released j id hj
      have hlen := (List.getElem?_eq_some_iff.1 hx).1
      exact ⟨x, by rw [getElem?_append_left hlen, hx], hdone⟩

/-- A call after which one reservation is released and the others are as before. -/
theorem Owned.release {p' : Hold} (h : Owned l phase) (hp : phase i = some p)
    (he : l'[id]? = some e) (hsettled : e.settled = true) (hrest : ∀ j, j ≠ id → l'[j]? = l[j]?)
    (hfrom : ∀ own, p = .reading (some own) → own = id) (hto : ∀ id', p' = .releasing id' true → id' = id) :
    Owned l' (update phase i (some p')) := by
  constructor
  · intro j x hx hopen
    by_cases hj : j = id
    · subst hj
      rw [he] at hx
      cases hx
      rw [hsettled] at hopen
      cases hopen
    · rw [hrest j hj] at hx
      obtain ⟨o, ho⟩ := h.held j x hx hopen
      have hoi : o ≠ i := by
        rintro rfl
        rw [hp] at ho
        exact hj (hfrom j (some.inj ho))
      exact ⟨o, by rw [update_of_ne hoi, ho]⟩
  · intro j id' hj
    rw [update_apply] at hj
    split_ifs at hj
    · rw [hto id' (some.inj hj)]
      exact ⟨e, he, hsettled⟩
    · by_cases hid : id' = id
      · rw [hid]
        exact ⟨e, he, hsettled⟩
      · obtain ⟨x, hx, hdone⟩ := h.released j id' hj
        exact ⟨x, by rw [hrest id' hid, hx], hdone⟩

/-- **What a `Release` does**: its reservation is released, once. -/
theorem exec_release {r : Unit} (h : exec (.release id) ω sh = some (r, sh'))
    (hbal : Balanced b₀ sh.budget sh.reservations) :
    Balanced b₀ sh'.budget sh'.reservations ∧
    (∃ e, sh'.reservations[id]? = some e ∧ e.settled = true) ∧
    ∀ j, j ≠ id → sh'.reservations[j]? = sh.reservations[j]? := by
  rw [exec] at h
  cases he : sh.reservations[id]? with
  | none => simp [he] at h
  | some e =>
    simp only [he] at h
    split_ifs at h with hsettled
    · cases h
      exact ⟨hbal, ⟨e, he, hsettled⟩, fun _ _ => rfl⟩
    · cases h
      refine ⟨hbal.release he (Bool.eq_false_iff.2 hsettled), ⟨e.settle, ?_, rfl⟩, fun j hj => ?_⟩
      · rw [getElem?_settle, if_pos rfl, he]
        rfl
      · rw [getElem?_settle, if_neg (Ne.symm hj)]

/-- The invariant of the shared state and of the calls. -/
structure Accounted (b₀ : BufferBudget) (sh : Shared) (phase : ℕ → Option Hold) : Prop where
  balanced : Balanced b₀ sh.budget sh.reservations
  owned : Owned sh.reservations phase

/-- **One operation** keeps the accounts. -/
theorem Accounted.step {op : Op} {r : op.Res}
    (h : Accounted b₀ sh phase) (hp : phase i = some p) (hop : p.Allowed op)
    (hex : exec op ω sh = some (r, sh')) : Accounted b₀ sh' (update phase i (some (p.advance op r))) := by
  have hsame : ∀ {sh'}, sh'.budget = sh.budget → sh'.reservations = sh.reservations →
      Accounted b₀ sh' (update phase i (some p)) := by
    intro sh' hbudget hres
    rw [update_eq_self_iff.2 hp.symm]
    exact ⟨by rw [hbudget, hres]; exact h.balanced, by rw [hres]; exact h.owned⟩
  cases op with
  | fed op =>
    cases ω with
    | fed ω =>
      obtain ⟨x, -, hx⟩ := map_eq_some_iff.1 hex
      cases hx
      cases p <;> exact hsame rfl rfl
    | _ => cases hex
  | cooling key =>
    cases hex
    cases p <;> exact hsame rfl rfl
  | noteOutcome key unauthorized =>
    cases hex
    cases p <;> exact hsame rfl rfl
  | send src target token =>
    obtain rfl : sh = sh' := by
      cases ω <;> cases hex <;> rfl
    cases p <;> exact hsame rfl rfl
  | readAll =>
    obtain rfl : sh = sh' := by
      cases ω with
      | body b =>
        simp only [exec] at hex
        split_ifs at hex
        cases hex
        rfl
      | failed =>
        cases hex
        rfl
      | _ => cases hex
    cases p <;> exact hsame rfl rfl
  | acquire caller n =>
    cases p with
    | reading own =>
      obtain ⟨rfl, hn⟩ := hop
      rw [exec] at hex
      cases hb : sh.budget.acquire caller n with
      | none =>
        simp only [hb] at hex
        cases hex
        exact hsame rfl rfl
      | some b =>
        simp only [hb] at hex
        cases hex
        exact ⟨h.balanced.acquire hn hb, h.owned.acquire hp⟩
    | releasing id done => cases hop
    | other => cases hop
  | release id =>
    obtain ⟨hbal, ⟨e, he, hsettled⟩, hrest⟩ := exec_release hex h.balanced
    cases p with
    | reading own =>
      obtain rfl : own = some id := hop
      exact ⟨hbal, h.owned.release hp he hsettled hrest (fun _ heq => by cases heq; rfl) nofun⟩
    | releasing id' done =>
      obtain rfl : id = id' := hop
      exact ⟨hbal, h.owned.release hp he hsettled hrest nofun fun _ heq => by cases heq; rfl⟩
    | other => cases hop

/-! ## Runs -/

/-- A data plane at rest, with its budget untouched; the stores and the cooldown are in any state. -/
def atRest (cfg : Config) (fed : Federation.Shared) (cooldown : BindingCooldown) (b : BufferBudget) :
    Pool (dataPlane cfg) (holding cfg) :=
  ⟨⟨fed, b, [], cooldown⟩, fun _ => none⟩

theorem atRest_conforming : (atRest cfg fed cooldown b).Conforming Returned := by
  intro i th hi
  cases hi

theorem balanced_configured {maxBufferedBytes : ℤ} (hb : configuredBudget maxBufferedBytes = some b) :
    Balanced b b [] := by
  rw [configuredBudget] at hb
  split_ifs at hb with hzero hneg hneg
  all_goals
    cases hb
    exact balanced_new (Int.not_lt.1 hneg)

variable (hb : Balanced b b []) (hr : Pool.Reaches (fun _ _ => True) (atRest cfg fed cooldown b) τ)

include hb hr in
theorem accounted_of_reaches : Accounted b τ.sh τ.phase := by
  refine hr.invariant (I := Accounted b) (body_holds cfg) ?_ ?_ atRest_conforming ⟨hb, nofun, nofun⟩
  · intro σ i c _ hI hi
    refine ⟨hI.balanced, fun id e he hopen => ?_, fun j id hj => ?_⟩
    · obtain ⟨j, hj⟩ := hI.owned.held id e he hopen
      exact ⟨j, update_of_none hi hj⟩
    · rw [update_apply] at hj
      split_ifs at hj
      · cases c <;> cases hj
      · exact hI.owned.released j id hj
  · intro σ i ω p op r sh _ hI hp _ hop hex
    exact hI.step hp hop hex

/-- What of a hold no operation changes: that it is a read's, or the reservation of a `Release`. -/
def Hold.subject : Hold → Option (Option ℕ)
  | .reading _ => none
  | .releasing id _ => some (some id)
  | .other => some none

include hr in
theorem subject_of_reaches (hi : τ.threads i = some th) :
    th.phase.subject = (Hold.start th.call).subject := by
  refine hr.unchanged (f := Hold.subject) ?_ (fun i th hi => nomatch hi) i th hi
  intro q op r
  cases q <;> cases op <;> rfl

include hb hr in
/-- A `Release` that has returned has released its reservation. -/
theorem settled_of_released {a : Except ReadError Reply} (hi : τ.threads i = some th)
    (hcall : th.call = .release id) (ha : τ.reply i = some a) :
    ∃ e, τ.sh.reservations[id]? = some e ∧ e.settled = true := by
  have hsubject := subject_of_reaches hr hi
  have hphase : τ.phase i = some th.phase := by rw [phase, hi, map_some]
  have hdone := (hr.conforming (body_holds cfg) atRest_conforming).done hphase ha
  rw [hcall] at hsubject
  cases hq : th.phase with
  | reading own =>
    rw [hq] at hsubject
    cases hsubject
  | other =>
    rw [hq] at hsubject
    cases hsubject
  | releasing id' done =>
    rw [hq] at hsubject hdone hphase
    obtain rfl : id' = id := some.inj (some.inj hsubject)
    obtain rfl : done = true := hdone
    exact (accounted_of_reaches hb hr).owned.released i id' hphase

include hb hr in
/-- A reservation that is not released is held by a read, which goes on or has returned with it. -/
theorem holder_of_open (hid : τ.sh.reservations[id]? = some e) (hopen : e.settled = false) :
    ∃ i th, τ.threads i = some th ∧ th.call.isRead = true ∧
      ∀ a, τ.reply i = some a → ∃ r, a = .ok r ∧ r.release? = some id := by
  obtain ⟨i, hi⟩ := (accounted_of_reaches hb hr).owned.held id e hid hopen
  obtain ⟨th, hth, hphase⟩ := map_eq_some_iff.1 hi
  refine ⟨i, th, hth, ?_, fun a ha => ?_⟩
  · have hsubject := subject_of_reaches hr hth
    rw [hphase] at hsubject
    cases hc : th.call <;> rw [hc] at hsubject <;> first | rfl | cases hsubject
  · have hdone : some id = a.toOption.bind Reply.release? :=
      (hr.conforming (body_holds cfg) atRest_conforming).done hi ha
    cases a with
    | error e => cases hdone
    | ok r => exact ⟨r, rfl, hdone.symm⟩

/-- **The response buffer budget.** In every run of any number of reads, handlers and releases: the held
total is the sum of the per-key totals and the sum of the reservations that are not released, each key's
total is that of its own reservations, and neither the limit nor a key's share is exceeded; when every read
has returned and every result that was returned has been released, all counters are zero. -/
theorem budget_exact {maxBufferedBytes : ℤ} (hb : configuredBudget maxBufferedBytes = some b)
    (h : Pool.Reaches (fun _ _ => True) (atRest cfg fed cooldown b) τ) :
    τ.sh.budget.held = τ.sh.budget.perKey.total ∧
    τ.sh.budget.held = Ledger.due τ.sh.reservations ∧
    (∀ k, (τ.sh.budget.perKey.get k).getD 0 = Ledger.dueTo k τ.sh.reservations) ∧
    τ.sh.budget.held ≤ b.limit ∧ (∀ k n, τ.sh.budget.perKey.get k = some n → n ≤ b.share) ∧
    ((∀ i th, τ.threads i = some th → th.call.isRead = true → ∃ a, τ.reply i = some a) →
      (∀ i r id, τ.reply i = some (.ok r) → r.release? = some id →
        ∃ j th a, τ.threads j = some th ∧ th.call = .release id ∧ τ.reply j = some a) →
      τ.sh.budget.held = 0 ∧ ∀ k, τ.sh.budget.perKey.get k = none) := by
  have hacc := accounted_of_reaches (balanced_configured hb) h
  have hbal := hacc.balanced
  refine ⟨hbal.total.symm, hbal.held, hbal.getD, hbal.limit ▸ hbal.held_le, fun k n hn => ?_,
    fun hreturned hreleased => ?_⟩
  · have hle := hbal.perKey_le k
    rw [← hbal.getD k, hn, hbal.share] at hle
    exact hle
  have hsettled : ∀ e ∈ τ.sh.reservations, e.settled = true := by
    intro e he
    obtain ⟨id, hid⟩ := mem_iff_getElem?.1 he
    by_contra hopen
    obtain ⟨i, th, hth, hread, hresult⟩ :=
      holder_of_open (balanced_configured hb) h hid (Bool.eq_false_iff.2 hopen)
    -- the read returned, and its result was released
    obtain ⟨a, ha⟩ := hreturned i th hth hread
    obtain ⟨r, rfl, hr⟩ := hresult a ha
    obtain ⟨j, th', a', hj, hcall, ha'⟩ := hreleased i r id ha hr
    obtain ⟨x, hx, hdone⟩ := settled_of_released (balanced_configured hb) h hj hcall ha'
    rw [hid] at hx
    cases hx
    exact hopen hdone
  have hzero : due τ.sh.reservations = 0 := due_eq_zero hsettled
  refine ⟨hbal.held.trans hzero, fun k => ?_⟩
  have hkey : dueTo k τ.sh.reservations = 0 := by
    have hle := dueTo_le_due (k := k) hbal.positive
    have hnonneg := dueTo_nonneg (k := k) hbal.positive
    omega
  rw [hbal.perKey k, if_pos hkey]

/-- A read whose result is released twice. -/
def releasedTwice : List (Event (dataPlane sampleConfig)) :=
  .start 0 (.fetch ⟨"u", "g", "profile", ""⟩) :: sampleChoices.map (fun ω => .step 0 ω) ++
  [.start 1 (.release 0), .start 2 (.release 0), .step 1 .failed, .step 2 .failed]

/-- The first of three calls has a result with the first reservation, and the second released it. -/
def releasedOnly (τ : Pool (dataPlane sampleConfig) (holding sampleConfig)) : Bool :=
  (match τ.reply 0 with | some (.ok (.fetched r)) => r.release == 0 | _ => false) &&
  (match τ.threads 1 with | some ⟨.release id, _, .ret (.ok .released)⟩ => id == 0 | _ => false) &&
  match τ.reply 2 with | some (.ok .released) => true | _ => false

/-- A read whose result is released twice leaves nothing. -/
theorem budget_exact_released : ∃ τ : Pool (dataPlane sampleConfig) (holding sampleConfig),
    Pool.Reaches (fun _ _ => True)
      (atRest sampleConfig sampleBound sampleCooldown (newBufferBudget 100)) τ ∧
    (∃ r, τ.reply 0 = some (.ok (.fetched r))) ∧ τ.sh.budget.held = 0 := by
  have hrun : ((atRest sampleConfig sampleBound sampleCooldown (newBufferBudget 100)).runIf
      (fun _ e => e.below 3) releasedTwice).any releasedOnly = true := by
    decide
  obtain ⟨τ, h, hτ, hend⟩ := exists_of_runIf (G := fun _ _ => True)
    (fun _ _ _ he => ⟨he, trivial⟩) (fun _ _ => rfl) hrun
  obtain ⟨⟨hfetched, hreleased⟩, hagain⟩ : (_ ∧ _) ∧ _ := by
    simpa only [releasedOnly, Bool.and_eq_true] using hend
  split at hfetched <;> [rename_i r hr; cases hfetched]
  split at hreleased <;> [rename_i id p hth; cases hreleased]
  split at hagain <;> [rename_i hr₂; cases hagain]
  obtain rfl : id = 0 := beq_iff_eq.1 hreleased
  have hrelease : r.release = 0 := beq_iff_eq.1 hfetched
  have hr₁ : τ.reply 1 = some (.ok .released) := by rw [reply, hth]
  have hcases : ∀ i th, τ.threads i = some th → i = 0 ∨ i = 1 ∨ i = 2 := by
    intro i th hi
    by_contra hne
    rw [hτ i (by omega)] at hi
    cases hi
  have hconfigured : configuredBudget 100 = some (newBufferBudget 100) := rfl
  have hzero := (budget_exact hconfigured h).2.2.2.2.2 ?_ ?_
  · exact ⟨τ, h, ⟨r, hr⟩, hzero.1⟩
  · intro i th hi _
    rcases hcases i th hi with rfl | rfl | rfl
    · exact ⟨_, hr⟩
    · exact ⟨_, hr₁⟩
    · exact ⟨_, hr₂⟩
  · intro i x id hi hid
    obtain ⟨th, hth'⟩ : ∃ th, τ.threads i = some th := by
      by_contra hnone
      rw [reply, eq_none_iff_forall_not_mem.2 fun th hth' => hnone ⟨th, hth'⟩] at hi
      cases hi
    rcases hcases i th hth' with rfl | rfl | rfl
    · rw [hr] at hi
      cases hi
      obtain rfl : r.release = id := some.inj hid
      exact ⟨1, _, _, hth, by rw [hrelease], hr₁⟩
    · rw [hr₁] at hi
      cases hi
      cases hid
    · rw [hr₂] at hi
      cases hi
      cases hid

end Re0Auth.DataPlane

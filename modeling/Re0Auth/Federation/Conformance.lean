import Re0Auth.Federation.Custody

/-!
# Every call keeps to the order and to what it holds

The programs of the service, checked one by one against both views of a call: the order of its writes and
its custody.

* **`body_views`**: every call keeps to both, whatever the stores and the sources answer; a bind that was
  not given its claim is refused;
* **`body_follows`**: the order alone, which asks nothing of the registry's names.
-/

namespace Re0Auth.Federation

open Lib OAuth Vault

variable {cfg : Config} {p q : Phase} {x y : Custody} {α β : Type} {k k' : Ref} {o : Op} {m : Svc α}
  {Q : Except Error β → Phase → Custody → Prop} {R : Except Error α → Phase → Custody → Prop}
  {process : ℕ} {spent fresh binding : Binding} {flow : BindFlow} {secret : BindingSecret} {token : String}
  {clean : Bool}

/-! ## Rules -/

/-- Both views of a call: the order of its writes, and what it holds. -/
abbrev views (cfg : Config) : Typestate (federation cfg) := (typestate cfg).prod (custody cfg)

/-- A program keeps to both views and ends with `Q`. -/
abbrev Keeps (cfg : Config) (p : Phase) (x : Custody) (m : Prog machine α) (Q : α → Phase → Custody → Prop) :
    Prop :=
  Prog.Follows (views cfg) (p, x) m fun r s => Q r s.1 s.2

/-- A method does. -/
abbrev Performs (cfg : Config) (p : Phase) (x : Custody) (m : Svc α)
    (Q : Except Error α → Phase → Custody → Prop) : Prop := Keeps cfg p x m.run Q

theorem performs_op {f : o.Res → Svc β} (h : Allowed p o) (hx : InCustody x o)
    (hf : ∀ r, Performs cfg (p.advance o r) (x.advance o r) (f r) Q) : Performs cfg p x (act o >>= f) Q :=
  ⟨⟨h, hx⟩, hf⟩

/-- One operation that may be made. -/
theorem performs_ask (h : Allowed p o) (hx : InCustody x o) :
    Keeps cfg p x (ask o) fun r q y => q = p.advance o r ∧ y = x.advance o r :=
  ⟨⟨h, hx⟩, fun _ => ⟨rfl, rfl⟩⟩

theorem Performs.bind {f : α → Svc β} (hm : Performs cfg p x m R)
    (hok : ∀ a q y, R (.ok a) q y → Performs cfg q y (f a) Q)
    (herr : ∀ e q y, R (.error e) q y → Q (.error e) q y) : Performs cfg p x (m >>= f) Q :=
  Prog.Follows.bindE hm (fun a s => hok a s.1 s.2) fun e s => herr e s.1 s.2

theorem Performs.attempt {f : Except Error α → Svc β} (hm : Performs cfg p x m R)
    (hf : ∀ r q y, R r q y → Performs cfg q y (f r) Q) : Performs cfg p x (ExceptT.lift m.run >>= f) Q :=
  Prog.Follows.attemptE hm fun r s => hf r s.1 s.2

/-- What is wrapped is the error, not the views. -/
theorem Performs.wrapping {context : String}
    (hm : Performs cfg p x m fun r q y => R (r.mapError (.wrap context)) q y) :
    Performs cfg p x (wrapping context m) R :=
  Prog.follows_bind.2 hm

/-- The method ends with the call and its mutex as they were. -/
abbrev Custody.Keeping (x : Custody) (_ : Except Error α) (_ : Phase) (y : Custody) : Prop := x.Stays y

theorem Performs.act {f : o.Res → Svc α} (h : Allowed p o) (hx : InCustody x o) (ho : o.onLock = false)
    (hf : ∀ r, Performs cfg (p.advance o r) (x.advance o r) (f r) (x.advance o r).Keeping) :
    Performs cfg p x (act o >>= f) x.Keeping :=
  performs_op h hx fun r => (hf r).mono fun _ _ hy => (Custody.stays_advance ho r).trans hy

/-- A part whose effect on both views is known, and then another. -/
theorem Performs.seq {f : α → Svc β} {F : Except Error α → Phase} {G : Except Error α → Custody}
    (hm : Performs cfg p x m fun r q y => q = F r ∧ y = G r) (hG : ∀ r, x.Stays (G r))
    (hf : ∀ a, Performs cfg (F (.ok a)) (G (.ok a)) (f a) (G (.ok a)).Keeping) :
    Performs cfg p x (m >>= f) x.Keeping := by
  refine hm.bind ?_ ?_
  · rintro a _ _ ⟨rfl, rfl⟩
    exact (hf a).mono fun _ _ hy => (hG _).trans hy
  · rintro e _ _ ⟨-, rfl⟩
    exact hG _

/-! ## Refreshing -/

/-- A call that does not bind, with the lock of a binding whose name it has from its row. -/
structure Works (p : Phase) (x : Custody) (k : Ref) : Prop where
  holds : p.Holds k
  guards : x.Guards k
  serves : x.call.Serves

theorem Works.advance (h : Works p x k) (ho : o.onLock = false) (r : o.Res) :
    Works (p.advance o r) (x.advance o r) k :=
  have hstays := Custody.stays_advance ho r
  ⟨h.holds.advance ho, h.guards.stays hstays, hstays.call ▸ h.serves⟩

theorem Works.shreds (h : Works p x k) : InCustody x (.revokeSecret k) :=
  ⟨h.guards, fun hb => absurd hb h.serves.free⟩

theorem needsRefresh_performs (b : Binding) :
    Performs cfg p x (needsRefresh b) fun _ q y => q = p ∧ y = x := by
  unfold needsRefresh
  split_ifs
  · exact ⟨rfl, rfl⟩
  · exact performs_op trivial trivial fun _ => ⟨rfl, rfl⟩

theorem removeRejected_performs (h : Works p x spent.ref) (hst : p.stage = .condemned spent token) :
    Performs cfg p x (removeRejected spent) x.Keeping := by
  refine .act ⟨h.holds, .inr (.inl ⟨spent, token, hst, rfl⟩)⟩ h.shreds rfl fun r => ?_
  rcases r with e | _
  · exact .refl
  · have hremoving : p.stage.shred spent.ref (.ok ()) = .removing spent.ref (some (spent, token)) := by
      rw [hst]
      rfl
    exact .act ⟨h.holds.advance rfl, spent.ref, _, hremoving, rfl⟩
      ⟨h.guards.1, h.serves.free⟩ rfl fun _ => .refl

theorem refreshRejected_performs (h : Works p x spent.ref) (hst : p.stage = .rejected spent token) :
    Performs cfg p x (refreshRejected spent) x.Keeping := by
  have hget : Allowed p (.getBinding spent.ref) := by
    intro b token' hb
    rw [hst] at hb
    cases hb
    rfl
  refine .act hget h.serves.reads rfl fun r => ?_
  have h' := h.advance (o := .getBinding spent.ref) rfl r
  have hread := h.holds.read r
  rw [hst] at hread
  rcases r with e | latest
  · -- a row that is gone shares the fate of one that has not moved
    dsimp only
    by_cases he : e.isNotBound = true
    · rw [if_pos he]
      exact removeRejected_performs h' (hread.trans (if_pos he))
    · rw [if_neg he]
      exact .refl
  · dsimp only
    by_cases hv : latest.1.version ≠ spent.version
    · rw [if_pos hv]
      exact .refl
    · rw [if_neg hv]
      exact removeRejected_performs h' (hread.trans (if_neg hv))

theorem storeRotated_performs {rotated : BindingSecret} (t : Token) (h : Works p x fresh.ref)
    (hst : p.stage = .renewed fresh token rotated) :
    Performs cfg p x (storeRotated fresh rotated t) x.Keeping := by
  have hfree : ∀ {P : Prop}, x.call.binds → P := fun hb => absurd hb h.serves.free
  refine Performs.seq (performs_ask ⟨h.holds, .inr ⟨fresh, token, rotated, hst, rfl, rfl, rfl⟩⟩
    ⟨h.guards, h.serves.inside, hfree⟩) (fun _ => Custody.stays_advance rfl _) fun won => ?_
  cases won with
  | false =>
    have hlost : p.stage.claim fresh.ref (.ok false) = .idle := by
      rw [hst]
      rfl
    exact Performs.seq (performs_ask (allowed_getBinding hlost) h.serves.reads) (fun _ => Custody.stays_advance rfl _)
      fun _ => .refl
  | true =>
    have hstoring : p.stage.claim fresh.ref (.ok true) = .storing fresh.ref rotated (some token) := by
      rw [hst]
      rfl
    exact Performs.seq (performs_ask ⟨h.holds.advance rfl, _, hstoring⟩ ⟨h.guards, hfree⟩)
      (fun _ => Custody.stays_advance rfl _) fun _ => .refl

theorem spendRefresh_performs (src : Source) (h : Works p x fresh.ref) (hst : p.stage = .fresh fresh) :
    Performs cfg p x (spendRefresh src fresh) x.Keeping := by
  have huse : Allowed p (.use fresh.ref) := by
    intro b hb
    rw [hst] at hb
    cases hb
    rfl
  refine Performs.seq (performs_ask huse trivial) (fun _ => Custody.stays_advance rfl _) fun secret => ?_
  have hopened : p.stage.open (.ok secret) = .opened fresh secret.refreshToken := by
    rw [hst]
    rfl
  split_ifs with hempty
  · exact .refl
  refine Performs.act ⟨fresh, hopened⟩ trivial rfl fun answer => ?_
  have h' := (h.advance (o := .use fresh.ref) rfl (.ok secret)).advance
    (o := .refreshGrant src secret.refreshToken) rfl answer
  have hgrant : ((p.advance (.use fresh.ref) (.ok secret)).advance
      (.refreshGrant src secret.refreshToken) answer).stage =
        Stage.grant answer (.opened fresh secret.refreshToken) := congrArg (Stage.grant answer) hopened
  cases answer with
  | granted t => exact storeRotated_performs t h' hgrant
  | rejected => exact refreshRejected_performs h' hgrant
  | transient => exact .refl

theorem refreshDue_performs (b : Binding) (force : Bool) :
    Performs cfg p x (refreshDue b force) fun _ q y => q = p ∧ y = x := by
  unfold refreshDue
  split_ifs
  · exact ⟨rfl, rfl⟩
  · exact needsRefresh_performs b

theorem refreshLocked_performs (src : Source) (current : Binding) (force : Bool) (hk : p.Holds current.ref)
    (hst : p.stage = .idle) (hheld : x.held = some (process, current.ref.bindingKey))
    (hserves : x.call.Serves) : Performs cfg p x (refreshLocked src current force) x.Keeping := by
  refine Performs.seq (performs_ask (allowed_getBinding hst) hserves.reads) (fun _ => Custody.stays_advance rfl _)
    fun row => ?_
  obtain ⟨fresh, hkey⟩ := row
  have hfresh : (p.advance (.getBinding current.ref) (.ok ⟨fresh, hkey⟩)).stage = .fresh fresh := by
    rw [hk.read, hst]
    rfl
  dsimp only
  split
  · exact .refl
  refine Performs.seq (refreshDue_performs fresh force) (fun _ => .refl) fun due => ?_
  split_ifs
  · exact .refl
  · exact .refl
  · exact spendRefresh_performs src
      ⟨(hk.advance rfl).congr hkey, Custody.guards_row hheld ⟨fresh, hkey⟩, hserves⟩ hfresh

/-! ## Locks -/

/-- A call that does not bind, between two locks. -/
structure Idle (p : Phase) (x : Custody) (process : ℕ) : Prop where
  lock : p.held = none
  stage : p.stage = .idle
  held : x.held = none
  process : x.call.process = some process
  free : ¬x.call.binds

theorem Idle.serves (h : Idle p x process) : x.call.Serves :=
  ⟨by rw [h.process]; exact Option.some_ne_none process, h.free⟩

/-- The call is between two locks again. -/
structure Rests (p : Phase) (x : Custody) (q : Phase) (y : Custody) : Prop where
  lock : q.held = none
  stage : q.stage = .idle
  call : q.call = p.call
  stays : x.Stays y

theorem Idle.self (h : Idle p x process) : Rests p x p x := ⟨h.lock, h.stage, rfl, .refl⟩

theorem Idle.rests (h : Idle p x process) (hr : Rests p x q y) : Idle q y process :=
  ⟨hr.lock, hr.stage, hr.stays.held.trans h.held, hr.stays.call ▸ h.process, hr.stays.call ▸ h.free⟩

/-- A method under the lock starts with nothing in hand, and the lock is given back however it ends. -/
theorem withLock_performs {R : Except Error α → Custody → Prop} (hlock : p.held = none)
    (hx : InCustody x (.lock process k.bindingKey))
    (hm : Performs cfg (p.advance (.lock process k.bindingKey) ()) (x.advance (.lock process k.bindingKey) ())
      m fun r _ y => y.held = some (process, k.bindingKey) ∧ R r { y with held := none }) :
    Performs cfg p x (withLock process k m) fun r q y =>
      q.held = none ∧ q.stage = .idle ∧ q.call = p.call ∧ R r y := by
  refine performs_op hlock hx fun _ => ?_
  have hcall := hm.unchanged (f := fun s : Phase × Custody => s.1.call) fun s op r => advance_call op r
  refine .attemptE (hm.and hcall) ?_
  rintro r ⟨q, y⟩ ⟨⟨hheld, hR⟩, hcall⟩
  exact ⟨⟨trivial, hheld⟩, fun _ => ⟨rfl, rfl, hcall, hR⟩⟩

/-- A method under the lock that keeps the mutex leaves the call as it was. -/
theorem Idle.withLock (h : Idle p x process)
    (hm : Performs cfg (p.advance (.lock process k.bindingKey) ()) (x.advance (.lock process k.bindingKey) ())
      m (x.advance (.lock process k.bindingKey) ()).Keeping) :
    Performs cfg p x (withLock process k m) fun _ => Rests p x := by
  refine (withLock_performs (R := fun _ y => x.Stays y) h.lock ⟨h.held, h.process, fun hb => absurd hb h.free⟩
    (hm.mono fun _ _ hy => ?_)).mono fun _ _ hs => ⟨hs.1, hs.2.1, hs.2.2.1, hs.2.2.2⟩
  exact ⟨hy.held, hy.call, h.held.symm, hy.clean⟩

theorem refreshBinding_performs (src : Source) (current : Binding) (force : Bool) (h : Idle p x process) :
    Performs cfg p x (refreshBinding process src current force) fun _ => Rests p x :=
  h.withLock (refreshLocked_performs src current force ⟨process, rfl⟩ rfl rfl h.serves)

/-- A read of the secret outside the lock leaves nothing in hand. -/
theorem withAccessToken_performs (src : Source) (b : Binding) (hst : p.stage = .idle) :
    Performs cfg p x (withAccessToken src b) fun _ q y => q = p ∧ y = x := by
  have hidle : ∀ r, p.advance (.use b.ref) r = p := by
    intro r
    simp [Phase.advance, hst, Stage.open]
    rw [← hst]
  have huse : Allowed p (.use b.ref) := by simp [Allowed, hst]
  refine .bind (performs_ask huse trivial) ?_ fun e q y hq => ⟨hq.1.trans (hidle _), hq.2⟩
  rintro secret _ _ ⟨rfl, rfl⟩
  rw [hidle]
  exact performs_ask trivial trivial

theorem refreshIfDue_performs (src : Source) (binding : Binding) (h : Idle p x process) :
    Performs cfg p x (refreshIfDue process src binding) fun _ => Rests p x := by
  refine (needsRefresh_performs binding).bind ?_ ?_
  · rintro due _ _ ⟨rfl, rfl⟩
    split_ifs
    · exact refreshBinding_performs src binding false h
    · exact h.self
  · rintro e _ _ ⟨rfl, rfl⟩
    exact h.self

theorem callWithRefresh_performs (src : Source) (binding : Binding) (h : Idle p x process) :
    Performs cfg p x (callWithRefresh process src binding) x.Keeping := by
  refine (refreshIfDue_performs src binding h).bind ?_ fun _ _ _ hr => hr.stays
  intro b q y hr
  refine (withAccessToken_performs src b hr.stage).attempt ?_
  rintro r _ _ ⟨rfl, rfl⟩
  rcases r with e | _
  · dsimp only
    split_ifs
    · exact hr.stays
    · refine (refreshBinding_performs src b true (h.rests hr)).bind ?_ fun _ _ _ hr' =>
        hr.stays.trans hr'.stays
      intro refreshed q y hr'
      refine (withAccessToken_performs src refreshed hr'.stage).mono fun _ s hs => ?_
      exact hs.2 ▸ hr.stays.trans hr'.stays
  · exact hr.stays

theorem trySource_performs (src : Source) (k : Ref) (h : Idle p x process) :
    Performs cfg p x (trySource process src k) x.Keeping := by
  refine .act (allowed_getBinding h.stage) h.serves.reads rfl fun r => ?_
  have hstays : x.Stays (x.advance (.getBinding k) r) := Custody.stays_advance rfl r
  have hsame : p.advance (.getBinding k) r = p := by simp [advance_getBinding, h.lock]
  rw [hsame]
  have h' := h.rests ⟨h.lock, h.stage, rfl, hstays⟩
  rcases r with e | binding
  · dsimp only
    split_ifs <;> exact .refl
  · exact callWithRefresh_performs src binding.1 h'

/-! ## Removing -/

theorem revokeUpstream_performs (src : Source) (binding : Binding) (huse : Allowed p (.use binding.ref))
    (hp : p.Removes k) : Performs cfg p x (revokeUpstream src binding) fun _ q y => q.Removes k ∧ y = x := by
  refine performs_op huse trivial fun r => ?_
  have hp' : (p.advance (.use binding.ref) r).Removes k := hp.use r
  rcases r with e | secret
  · dsimp only
    split_ifs <;> exact ⟨hp', rfl⟩
  · dsimp only
    split_ifs
    · exact ⟨hp', rfl⟩
    · refine performs_op trivial trivial fun told => ?_
      split_ifs <;> exact ⟨hp', rfl⟩

theorem tellUpstream_performs (binding : Binding) (huse : Allowed p (.use binding.ref)) (hp : p.Removes k) :
    Performs cfg p x (tellUpstream cfg k binding) fun _ q y => q.Removes k ∧ y = x := by
  unfold tellUpstream
  split
  · exact ⟨hp, rfl⟩
  · split_ifs
    · exact ⟨hp, rfl⟩
    · exact revokeUpstream_performs _ binding huse hp

/-- A removal that is asked for: the secret goes, and then the row may. -/
theorem shred_performs (hkey : k'.bindingKey = k.bindingKey) (hp : p.Removes k)
    (hx : InCustody x (.revokeSecret k')) :
    Keeps cfg p x (ask (.revokeSecret k')) fun r q y =>
      y = x ∧ (r = .ok () → Allowed q (.deleteBinding k)) := by
  have hshred : Allowed p (.revokeSecret k') := ⟨hp.holds.congr hkey, .inr (.inr ⟨hp.call, hp.stage⟩)⟩
  refine (performs_ask hshred hx).mono ?_
  rintro r ⟨_, _⟩ ⟨rfl, rfl⟩
  refine ⟨rfl, ?_⟩
  rintro rfl
  have hremoving : p.stage.shred k' (.ok ()) = .removing k' none := by
    have hreading := hp.stage
    cases hst : p.stage <;> rw [hst] at hreading <;> trivial
  exact ⟨hp.holds.advance rfl, k', none, hremoving, hkey⟩

theorem removeLocally_performs (binding : Row k) (hp : p.Removes k)
    (hshred : InCustody x (.revokeSecret binding.1.ref)) (hdel : InCustody x (.deleteBinding k)) :
    Performs cfg p x (removeLocally k binding) fun _ _ y => y = x := by
  have hfirst : Performs cfg p x (wrapping "federation: shred binding secret"
      (call (ask (.revokeSecret binding.1.ref)))) fun r q y =>
        y = x ∧ (r = .ok () → Allowed q (.deleteBinding k)) := by
    refine Performs.wrapping ((shred_performs binding.2 hp hshred).mono ?_)
    rintro (e | _) s ⟨hy, hdelete⟩
    · exact ⟨hy, nofun⟩
    · exact ⟨hy, fun _ => hdelete rfl⟩
  refine hfirst.bind ?_ fun _ _ _ h => h.1
  rintro _ q _ ⟨rfl, hdelete⟩
  exact Performs.wrapping ((performs_ask (hdelete rfl) hdel).mono fun _ _ h => h.2)

section

variable (h : Idle p x process)
include h

/-- The row that was read is removed, under the lock of the binding. -/
theorem removeRead_performs (binding : Row k) (f : Unit → Svc β) (hq : q.Removes k)
    (hf : ∀ a q y, Performs cfg q y (f a) y.Keeping) :
    Performs cfg q ((x.advance (.lock process k.bindingKey) ()).advance (.getBinding k) (.ok binding))
      (removeLocally k binding >>= f)
      ((x.advance (.lock process k.bindingKey) ()).advance (.getBinding k) (.ok binding)).Keeping := by
  have hrow := Custody.guards_row (p := x.advance (.lock process k.bindingKey) ()) rfl binding
  refine (removeLocally_performs binding hq ⟨hrow, fun hb => absurd hb h.free⟩
    ⟨⟨process, rfl⟩, h.free⟩).bind ?_ fun _ _ _ hy => hy ▸ .refl
  rintro a q _ rfl
  exact hf a q _

variable (hcall : p.call.removes)
include hcall

theorem unbind_performs : Performs cfg p x (unbind cfg process k) fun _ => Rests p x := by
  unfold unbind
  split
  · exact h.self
  have hr : (p.advance (.lock process k.bindingKey) ()).Removes k := ⟨⟨process, rfl⟩, hcall, trivial⟩
  refine h.withLock (.act (allowed_getBinding rfl) h.serves.reads rfl fun r => ?_)
  rcases r with e | binding
  · dsimp only
    split
    · exact .refl
    · split <;> exact .refl
  · obtain ⟨hr', huse⟩ := hr.row rfl binding
    refine (tellUpstream_performs binding.1 huse hr').bind ?_ fun _ _ _ hy => hy.2 ▸ .refl
    rintro result q _ ⟨hr'', rfl⟩
    exact removeRead_performs h binding _ hr'' fun _ _ _ => .refl

theorem cascadeRevoke_performs : Performs cfg p x (cascadeRevoke cfg process k) fun _ => Rests p x := by
  unfold cascadeRevoke
  split_ifs
  · exact h.self
  split
  · exact h.self
  split_ifs
  · exact h.self
  have hr : (p.advance (.lock process k.bindingKey) ()).Removes k := ⟨⟨process, rfl⟩, hcall, trivial⟩
  refine h.withLock (.seq (performs_ask (allowed_getBinding rfl) h.serves.reads)
    (fun _ => Custody.stays_advance rfl _) fun binding => ?_)
  obtain ⟨hr', huse⟩ := hr.row rfl binding
  have hsecret : ∀ z, Performs cfg _ z (wrapping "federation: read binding secret" (call (ask (.use binding.1.ref))))
      fun _ q y => q.Removes k ∧ y = z :=
    fun z => .wrapping ((performs_ask huse trivial).mono fun r _ hs => ⟨hs.1 ▸ hr'.use r, hs.2⟩)
  refine (hsecret _).bind ?_ fun _ _ _ hy => hy.2 ▸ .refl
  rintro secret q _ ⟨hr'', rfl⟩
  dsimp only
  split_ifs
  · exact .refl
  refine performs_op trivial trivial fun told => ?_
  split_ifs
  · exact .refl
  · exact removeRead_performs h binding _ hr'' fun _ _ _ => .refl

theorem shredBinding_performs (hk : x.clean = true → k.Named) :
    Performs cfg p x (shredBinding process k) fun _ => Rests p x := by
  have hr : (p.advance (.lock process k.bindingKey) ()).Removes k := ⟨⟨process, rfl⟩, hcall, trivial⟩
  refine h.withLock (Performs.bind (shred_performs rfl hr ⟨⟨⟨process, rfl⟩, hk⟩, fun hb => absurd hb h.free⟩)
    ?_ fun _ _ _ hy => hy.1 ▸ .refl)
  rintro _ q _ ⟨rfl, hdelete⟩
  have hdel : InCustody (x.advance (.lock process k.bindingKey) ()) (.deleteBinding k) := ⟨⟨process, rfl⟩, h.free⟩
  refine (performs_ask (hdelete rfl) hdel).mono ?_
  rintro _ ⟨_, _⟩ ⟨-, rfl⟩
  exact .refl

theorem revokeByUnbind_performs : Performs cfg p x (revokeByUnbind cfg process k) x.Keeping := by
  refine (unbind_performs h hcall).attempt ?_
  intro r q y hr
  split <;> exact hr.stays

theorem revokeBinding_performs (hk : x.clean = true → k.Named) :
    Performs cfg p x (revokeBinding cfg process k) x.Keeping := by
  unfold revokeBinding
  split
  · refine (shredBinding_performs h hcall hk).attempt ?_
    intro r q y hr
    split <;> exact hr.stays
  split_ifs
  · exact revokeByUnbind_performs h hcall
  refine (cascadeRevoke_performs h hcall).attempt ?_
  intro r q y hr
  rcases r with e | _
  · -- a cascade that fails is followed by an unbind, with the lock given back in between
    exact (revokeByUnbind_performs (h.rests hr) (hr.call ▸ hcall)).mono fun _ _ hy => hr.stays.trans hy
  · exact hr.stays

end

/-! ## Binding -/

/-- What a call holds that has done nothing, whatever it has come across. -/
abbrev Custody.opening (c : Call) (clean : Bool) : Custody := ⟨c, none, clean, none, none, none, none⟩

theorem beginBind_performs {returnTo : String} (hcfg : clean = true → cfg.Validated) :
    Performs cfg (.start (.beginBind k returnTo)) (.opening (.beginBind k returnTo) clean)
      (beginBind cfg k returnTo) fun _ _ y => y.call = .beginBind k returnTo := by
  unfold beginBind
  split
  · exact rfl
  next src hsrc =>
  split
  · exact rfl
  split
  · exact rfl
  have hnamed : clean = true → k.Named := fun hc => hcfg hc k (by rw [hsrc]; rfl)
  refine Performs.bind (performs_ask trivial rfl) ?_ ?_
  · rintro id _ _ ⟨rfl, rfl⟩
    refine performs_op trivial trivial fun verifier => ?_
    refine performs_op trivial trivial fun now => ?_
    refine performs_op (allowed_getBinding rfl) (fun _ => ⟨⟨returnTo, rfl⟩, rfl⟩) fun current => ?_
    rcases current with e | b
    · dsimp only
      split
      · exact rfl
      next hb =>
        have he : e.isNotBound = true := by simpa using hb
        refine Performs.bind (performs_ask trivial ⟨hnamed, rfl, rfl, ?_⟩) ?_ ?_
        · simp [Custody.advance, he]
        all_goals exact fun _ _ _ hs => hs.2 ▸ rfl
    · refine Performs.bind (performs_ask trivial ⟨fun hc => hnamed (Bool.and_eq_true_iff.1 hc).1, rfl, rfl, rfl⟩)
        ?_ ?_
      all_goals exact fun _ _ _ hs => hs.2 ▸ rfl
  · rintro e _ _ ⟨-, rfl⟩
    rfl

theorem claimBound_performs (binding : Binding) {next : BindingSecret} (h : x.Bringing flow)
    (hheld : x.held = some (process, flow.ref.bindingKey)) (href : binding.ref = flow.ref)
    (hk : p.Holds binding.ref) (hst : p.stage = .exchanged next) :
    Performs cfg p x (claimBound flow binding) fun r q y => q.Holds binding.ref ∧ q.call = p.call ∧
      (r = .ok true → q.stage = .storing binding.ref next none) ∧ x.Stays y ∧ y.claim = some r := by
  have hclaim : p.stage.claim binding.ref (.ok true) = .storing binding.ref next none := by
    rw [hst]
    rfl
  have hguards : x.Guards binding.ref := href ▸ ⟨⟨process, hheld⟩, h.named⟩
  unfold claimBound
  split
  next version hbound =>
    refine (performs_ask (o := .putIfVersion binding version) ⟨hk, .inl ⟨next, hst⟩⟩
      ⟨hguards, h.binds.process, fun _ => ⟨h.claim, flow, h.flow, href.symm, hbound⟩⟩).mono ?_
    rintro r ⟨_, _⟩ ⟨rfl, rfl⟩
    refine ⟨hk.advance rfl, rfl, ?_, Custody.stays_advance rfl r, rfl⟩
    rintro rfl
    exact hclaim
  next hbound =>
    refine (performs_ask (o := .create binding) ⟨hk, next, hst⟩
      ⟨hguards, h.binds, h.claim, flow, h.flow, href.symm, hbound⟩).mono ?_
    rintro r ⟨_, _⟩ ⟨rfl, rfl⟩
    refine ⟨hk.advance rfl, rfl, ?_, Custody.stays_advance rfl r, rfl⟩
    rintro rfl
    exact hclaim

theorem storeBound_performs (hk : p.Holds binding.ref) (hcall : p.call.binds)
    (hst : p.stage = .storing binding.ref secret none) (hguards : x.Guards binding.ref)
    (hclaim : x.claim = some (.ok true)) :
    Performs cfg p x (storeBound binding secret) fun _ _ y => y = x := by
  refine performs_op ⟨hk, none, hst⟩ ⟨hguards, fun _ => hclaim⟩ fun r => ?_
  rcases r with e | _
  · -- a failed write is rolled back
    refine performs_op ⟨hk.advance rfl, .inl ⟨hcall, rfl⟩⟩ ⟨hguards, fun _ => hclaim⟩ fun r => ?_
    rcases r with e' | _ <;> exact rfl
  · exact rfl

theorem exchangeAndStore_performs (code : String) (h : x.Bringing flow)
    (hheld : x.held = some (process, flow.ref.bindingKey)) (hk : p.Holds flow.ref) (hcall : p.call.binds) :
    Performs cfg p x (exchangeAndStore cfg flow.ref flow code) fun r _ y => x.Bound r y := by
  have hstop : ∀ e : Error, x.Bound (.error e : Except Error Binding) x :=
    fun e => ⟨.refl, Custody.answers_unclaimed h.claim e⟩
  unfold exchangeAndStore
  split
  · exact hstop _
  next src _ =>
  split
  · exact hstop _
  have hexchange : Performs cfg p x (wrapping "federation: bind exchange"
      (call (ask (.exchange src code flow.verifier)))) fun r q y => y = x ∧ ∀ t, r = .ok t →
        q.Holds flow.ref ∧ q.call = p.call ∧ q.stage = .exchanged ⟨t.accessToken, t.refreshToken⟩ := by
    refine Performs.wrapping ((performs_ask (o := .exchange src code flow.verifier) hcall trivial).mono ?_)
    rintro (e | t) ⟨_, _⟩ ⟨rfl, rfl⟩
    · exact ⟨rfl, nofun⟩
    · refine ⟨rfl, fun t' ht' => ?_⟩
      cases ht'
      exact ⟨hk.advance rfl, rfl, rfl⟩
  refine hexchange.bind ?_ fun e _ _ hy => hy.1 ▸ hstop e
  rintro token q _ ⟨rfl, hq⟩
  obtain ⟨hk', hq, hst⟩ := hq token rfl
  refine Performs.bind (performs_ask trivial trivial) ?_ fun e _ _ hy => hy.2 ▸ hstop e
  rintro generation _ _ ⟨rfl, rfl⟩
  refine (claimBound_performs
    ⟨flow.ref, token.tokenType, token.expiry, token.refreshToken != "", generation⟩ h hheld rfl hk' hst).bind ?_ ?_
  · rintro won q' y ⟨hk'', hq', hstoring, hy, hclaim⟩
    cases won with
    | false => exact ⟨hy, nofun, fun _ => rfl⟩
    | true =>
      have hbinds : q'.call.binds := by
        rw [hq', hq]
        exact hcall
      have hguards := Custody.Guards.stays ⟨⟨process, hheld⟩, h.named⟩ hy
      refine (storeBound_performs hk'' hbinds (hstoring rfl) hguards hclaim).mono ?_
      rintro r ⟨_, _⟩ rfl
      refine ⟨hy, fun _ _ => hclaim, fun hfalse => ?_⟩
      rw [hclaim] at hfalse
      cases hfalse
  · rintro e q' y ⟨-, -, -, hy, hclaim⟩
    refine ⟨hy, nofun, fun hfalse => ?_⟩
    rw [hclaim] at hfalse
    cases hfalse

theorem completeBind_performs {user state code : String} :
    Performs cfg (.start (.completeBind process user state code))
      (.opening (.completeBind process user state code) clean) (completeBind cfg process user state code)
      fun r _ y => y.call = .completeBind process user state code ∧ y.Answers r := by
  refine Performs.bind (performs_ask trivial ⟨trivial, rfl, rfl⟩) ?_ ?_
  · rintro flow _ _ ⟨rfl, rfl⟩
    have hnamed : (clean && flow.ref.named) = true → flow.ref.Named := fun hc => (Bool.and_eq_true_iff.1 hc).2
    split
    · refine Performs.bind (performs_ask trivial ⟨hnamed, rfl, rfl⟩) ?_ ?_
      · rintro _ _ _ ⟨-, rfl⟩
        exact ⟨rfl, Custody.answers_unclaimed rfl _⟩
      · rintro e _ _ ⟨-, rfl⟩
        exact ⟨rfl, Custody.answers_unclaimed rfl _⟩
    refine performs_op trivial trivial fun now => ?_
    split
    · exact ⟨rfl, Custody.answers_unclaimed rfl _⟩
    split
    · exact ⟨rfl, Custody.answers_unclaimed rfl _⟩
    refine (withLock_performs (R := fun r y => y.call = .completeBind process user state code ∧ y.Answers r)
      rfl ⟨rfl, rfl, fun _ => rfl⟩ ?_).mono fun _ _ hs => hs.2.2.2
    refine Prog.Follows.mono (exchangeAndStore_performs code ?_ rfl ⟨process, rfl⟩ trivial) ?_
    · exact ⟨trivial, rfl, rfl, hnamed⟩
    · exact fun r s hs => ⟨hs.1.held, hs.1.call, hs.2⟩
  · rintro e _ _ ⟨-, rfl⟩
    exact ⟨rfl, Custody.answers_unclaimed rfl _⟩

/-! ## Calls -/

theorem body_performs (clean : Bool) (c : Call) (hcfg : clean = true → cfg.Validated)
    (hnamed : ∀ k, c.listed = some k → clean = true → k.Named) :
    Performs cfg (.start c) (.opening c clean) (c.body cfg) fun r _ y => y.call = c ∧ (c.binds → y.Answers r) := by
  have hidle : ∀ process, c.process = some process → ¬c.binds → Idle (.start c) (.opening c clean) process :=
    fun process hprocess hfree => ⟨rfl, rfl, rfl, hprocess, hfree⟩
  have hmap : ∀ {α : Type} {m : Svc α} {f : α → Reply}, ¬c.binds →
      Performs cfg (.start c) (.opening c clean) m (fun _ _ y => y.call = c) →
      Performs cfg (.start c) (.opening c clean) (f <$> m) fun r _ y => y.call = c ∧ (c.binds → y.Answers r) :=
    fun hfree hm => .mapE hm fun _ _ hy => ⟨hy, fun hb => absurd hb hfree⟩
  cases c with
  | beginBind k returnTo => exact hmap id (beginBind_performs hcfg)
  | completeBind process user state code =>
    refine .mapE completeBind_performs fun r s hs => ⟨hs.1, fun _ => ⟨?_, fun hfalse => ?_⟩⟩
    · rcases r with e | b
      · nofun
      · exact fun _ _ => hs.2.1 b rfl
    · rw [hs.2.2 hfalse]
      rfl
  | unbind process k =>
    exact hmap id ((unbind_performs (hidle process rfl id) trivial).mono fun _ _ hr => hr.stays.call)
  | cascadeRevoke process k =>
    exact hmap id ((cascadeRevoke_performs (hidle process rfl id) trivial).mono fun _ _ hr => hr.stays.call)
  | revokeBinding process k =>
    refine hmap id ((revokeBinding_performs (hidle process rfl id) trivial (hnamed k rfl)).mono ?_)
    exact fun _ _ hy => hy.call
  | fetch process src k =>
    exact hmap id ((trySource_performs src k (hidle process rfl id)).mono fun _ _ hy => hy.call)
  | advanceClock d => exact ⟨⟨trivial, trivial⟩, fun _ => ⟨rfl, fun hb => hb.elim⟩⟩

/-- **Every call keeps to the order.** -/
theorem body_follows (c : Call) :
    Prog.Follows (typestate cfg) (Phase.start c) ((federation cfg).body c) fun _ _ => True :=
  .fst (body_performs false c nofun nofun) fun _ _ _ => trivial

/-- How a call ends. -/
def Ends (a : Except Error Reply) (q : Phase × Custody) : Prop := q.2.call.binds → q.2.Answers a

/-- **Every call keeps to both views**, and a bind is answered by what its claim was answered. -/
theorem body_views (hcfg : cfg.Validated) (c : Call) :
    Prog.Follows (views cfg) ((views cfg).start c) ((federation cfg).body c) Ends := by
  have hnamed : ∀ k, c.listed = some k → c.listed.all Ref.named = true → k.Named := by
    intro k hk hclean
    rw [hk] at hclean
    exact hclean
  exact (body_performs _ c (fun _ => hcfg) hnamed).mono fun _ _ hs hb => hs.2 (hs.1 ▸ hb)

end Re0Auth.Federation

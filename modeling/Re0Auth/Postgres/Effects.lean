import Re0Auth.Postgres.Provider

/-!
# What each transaction of the adapter leaves behind

One lemma for each transaction, over the rows committed before and after it.

* **`Narrows`**: no grant or token is added and no generation goes back, which is all that most
  transactions can do;
* **`Revokes`**: the rows of the owners a filter matches are gone;
* **`Mints`**: the pair of a token request, and the tombstone of the token it was minted from, are
  added;
* **`TxEffect`**: what a transaction does to the committed rows.
-/

namespace Re0Auth.Postgres

open Lib OAuth Oidc View List Prog

variable {env : Env} {C C' C'' V : View Row} {key k subject clientID familyID value c d : String}
  {keys : List String} {i : Tbl} {fuel t : ℕ} {now : Time} {m : Mint}

/-- What is decided about a device request: all but the time of its last poll. -/
def DeviceRow.decision (d : DeviceRow) : DeviceRow := { d with lastPoll := none }

/-- **Nothing is added**: every row was there before (of a device request, the time of the last poll
may be another), and no generation goes back. -/
structure Narrows (C C' : View Row) : Prop where
  rows : ∀ i k row, i ≠ .revocationEpochs → i ≠ .devices → C' i k = some row → C i k = some row
  devices : ∀ k d, C' .devices k = some d →
    ∃ d₀, C .devices k = some d₀ ∧ d₀.decision = d.decision
  epochs : ∀ key, epoch C key ≤ epoch C' key
  seeded : (C .revocationEpochs "*").isSome → (C' .revocationEpochs "*").isSome

namespace Narrows

theorem refl : Narrows C C where
  rows _ _ _ _ _ h := h
  devices _ d h := ⟨d, h, rfl⟩
  epochs _ := Int.le_refl _
  seeded h := h

theorem trans (h : Narrows C C') (h' : Narrows C' C'') : Narrows C C'' where
  rows i k row hi hd hrow := h.rows i k row hi hd (h'.rows i k row hi hd hrow)
  devices k d hd := by
    obtain ⟨d₁, hd₁, heq₁⟩ := h'.devices k d hd
    obtain ⟨d₀, hd₀, heq₀⟩ := h.devices k d₁ hd₁
    exact ⟨d₀, hd₀, heq₀.trans heq₁⟩
  epochs key := Int.le_trans (h.epochs key) (h'.epochs key)
  seeded hs := h'.seeded (h.seeded hs)

theorem drop {i : Tbl} {p : String → Row i → Bool} (hi : i ≠ .revocationEpochs) : Narrows C (C.drop i p) where
  rows _ _ _ _ _ h := of_drop h
  devices _ d h := ⟨d, of_drop h, rfl⟩
  epochs key := Int.le_of_eq (by rw [epoch, epoch, drop_of_ne hi.symm])
  seeded h := by rwa [drop_of_ne hi.symm]

theorem clear {f : TokenFilter} {tables : List Tbl} (h : .revocationEpochs ∉ tables) :
    Narrows C (Postgres.clear f tables C) := by
  induction tables generalizing C with
  | nil => exact .refl
  | cons i tables ih =>
    rw [mem_cons, not_or] at h
    exact (drop fun hi => h.1 hi.symm).trans (ih h.2)

theorem poll {k : String} {now : Time} :
    Narrows C (C.set .devices k ((C .devices k).map fun d => { d with lastPoll := some now })) where
  rows i l row _ hd h := by rwa [set_of_ne (.inl hd)] at h
  devices l d h := by
    by_cases hl : l = k
    · subst hl
      rw [set_self, Option.map_eq_some_iff] at h
      obtain ⟨d₀, hd₀, rfl⟩ := h
      exact ⟨d₀, hd₀, rfl⟩
    · rw [set_of_ne (.inr hl)] at h
      exact ⟨d, h, rfl⟩
  epochs key := Int.le_of_eq (by rw [epoch, epoch, set_of_ne (.inl (by decide))])
  seeded h := by rwa [set_of_ne (.inl (by decide))]

end Narrows

/-! ## Generations -/

theorem epoch_bumpedKey (hseed : (C .revocationEpochs "*").isSome) :
    epoch (bumpedKey C key) k = epoch C k + if k = key then 1 else 0 := by
  by_cases hk : k = key
  · subst hk
    rw [epoch, bumpedKey, set_self, if_pos rfl, epoch]
    split_ifs with hstar
    · subst hstar
      obtain ⟨e, he⟩ := Option.isSome_iff_exists.1 hseed
      rw [he]
      rfl
    · cases C .revocationEpochs k <;> rfl
  · rw [epoch, bumpedKey, set_of_ne (.inr hk), if_neg hk, Int.add_zero, epoch]

theorem Narrows.bumpedKey : Narrows C (bumpedKey C key) where
  rows i k row hi _ h := by rwa [Postgres.bumpedKey, set_of_ne (.inl hi)] at h
  devices k d h := ⟨d, by rwa [Postgres.bumpedKey, set_of_ne (.inl (by decide))] at h, rfl⟩
  epochs k := by
    by_cases hk : k = key
    · subst hk
      rw [epoch, epoch, bumpedKey, set_self]
      cases C .revocationEpochs k <;> split_ifs <;> simp only [Option.map_none, Option.map_some,
        Option.getD_none, Option.getD_some] <;> omega
    · exact Int.le_of_eq (by rw [epoch, epoch, Postgres.bumpedKey, set_of_ne (.inr hk)])
  seeded h := by
    by_cases hk : "*" = key
    · subst hk
      rw [bumpedKey, set_self, if_pos rfl, Option.isSome_map]
      exact h
    · rwa [Postgres.bumpedKey, set_of_ne (.inr hk)]

theorem Narrows.bumped : Narrows C (keys.foldl Postgres.bumpedKey C) := by
  induction keys generalizing C with
  | nil => exact .refl
  | cons key keys ih => exact bumpedKey.trans ih

theorem epoch_bumped (hkeys : keys.Nodup) (hseed : (C .revocationEpochs "*").isSome) :
    epoch (keys.foldl bumpedKey C) k = epoch C k + if k ∈ keys then 1 else 0 := by
  induction keys generalizing C with
  | nil => simp
  | cons key keys ih =>
    obtain ⟨hnot, hkeys⟩ := nodup_cons.1 hkeys
    rw [foldl_cons, ih hkeys (Narrows.bumpedKey.seeded hseed), epoch_bumpedKey hseed]
    by_cases hk : k = key
    · subst hk
      simp [hnot]
    · simp [hk]

/-! ## Revocations -/

/-- The tables that hold what a grant consists of and carry its owner. -/
def grantTables : List Tbl := [.accessTokens, .refreshTokens, .tombstones, .devices, .authRequests]

/-- **The filter is carried out**: the rows of the owners it matches are gone, and so are the codes of
their requests. -/
structure Revokes (f : TokenFilter) (C C' : View Row) : Prop where
  narrows : Narrows C C'
  cleared : ∀ i ∈ grantTables, ∀ k row, C' i k = some row → ownedBy f i row = false
  codes : ∀ k row r, C' .codes k = some row → C .authRequests row.requestID = some r →
    ownedBy f .authRequests r = false

section

variable {f : TokenFilter} {tables : List Tbl} {i : Tbl} {k : String}

theorem of_clear {row : Row i} (h : clear f tables V i k = some row) :
    V i k = some row ∧ (i ∈ tables → ownedBy f i row = false) := by
  induction tables generalizing V with
  | nil => exact ⟨h, fun hi => absurd hi not_mem_nil⟩
  | cons j tables ih =>
    obtain ⟨hdrop, hrest⟩ := ih h
    refine ⟨of_drop hdrop, fun hi => ?_⟩
    by_cases hj : i = j
    · subst hj
      exact not_of_drop hdrop
    · exact hrest ((mem_cons.1 hi).resolve_left hj)

theorem clear_of_not_mem (h : i ∉ tables) : clear f tables V i = V i := by
  induction tables generalizing V with
  | nil => rfl
  | cons j tables ih =>
    rw [mem_cons, not_or] at h
    exact (ih h.2).trans (drop_of_ne h.1)

theorem bumped_of_ne {keys : List String} (h : i ≠ .revocationEpochs) : keys.foldl bumpedKey V i = V i := by
  induction keys generalizing V with
  | nil => rfl
  | cons key keys ih =>
    refine ih.trans (funext fun k => ?_)
    rw [bumpedKey, set_of_ne (.inl h)]

/-- The order of the adapter: some tables, then the codes, then their requests, then the rest. The
codes are found through the requests, which must still be there. -/
theorem revokes_clear {B : View Row} (before after : List Tbl) (hB : Narrows C B)
    (hreq : B .authRequests = C .authRequests) (hbefore : .revocationEpochs ∉ before)
    (hafter : .revocationEpochs ∉ after) (hlate : .authRequests ∉ before)
    (hall : ∀ i ∈ grantTables, i ∈ before ∨ i = .authRequests ∨ i ∈ after) :
    Revokes f C (clear f after (clear f [.authRequests]
      (dropCodes (ownedBy f .authRequests) (clear f before B)))) where
  narrows := hB.trans ((Narrows.clear hbefore).trans ((Narrows.drop (by decide)).trans
    ((Narrows.clear (by decide)).trans (Narrows.clear hafter))))
  cleared i hi k row hrow := by
    obtain ⟨hrow, hlast⟩ := of_clear hrow
    obtain ⟨hrow, hmid⟩ := of_clear hrow
    obtain ⟨-, hfirst⟩ := of_clear (of_drop hrow)
    rcases hall i hi with hi | rfl | hi
    · exact hfirst hi
    · exact hmid mem_cons_self
    · exact hlast hi
  codes k row r hrow hr := by
    obtain ⟨hrow, -⟩ := of_clear hrow
    obtain ⟨hrow, -⟩ := of_clear hrow
    have hnone := not_of_drop hrow
    rw [clear_of_not_mem hlate, hreq, hr] at hnone
    exact hnone

end

/-- `RevokeGrant` selects as the filter of its pair does. -/
theorem ofGrant_eq (hs : subject ≠ "") (hc : clientID ≠ "") :
    ofGrant subject clientID i = ownedBy ⟨clientID, subject⟩ i := by
  funext row
  rw [ofGrant, ownedBy]
  congr 1
  funext o
  have hs' : (subject == "") = false := beq_eq_false_iff_ne.2 hs
  have hc' : (clientID == "") = false := beq_eq_false_iff_ne.2 hc
  rw [TokenFilter.matches, hs', hc', Bool.false_or, Bool.false_or, Bool.and_comm, Bool.beq_comm,
    Bool.beq_comm (a := o.2)]

/-- The generations a revocation moves. -/
def BumpedFor (f : TokenFilter) (C C' : View Row) : Prop :=
  ∀ k, epoch C' k = epoch ((revocationScopeKeys f.clientID f.subject).foldl bumpedKey C) k

/-- An approved device request that has not expired. -/
def DeviceRow.redeemable (d : DeviceRow) (now : Time) (clientID : String) : Bool :=
  d.clientID == clientID && d.done && !d.denied && decide (now < d.expiresAt)

/-- **A pair is written**: the generations are the captured ones; a presented refresh token was there
to be claimed; what is new belongs to the owner of the request, or to the owner of the claimed
token. -/
structure Mints (env : Env) (m : Mint) (C C' : View Row) : Prop where
  unchanged : revocationUnchanged m.captured (epochsAt C m.request.clientID m.request.subject) = true
  claimed : m.current ≠ "" → (C .refreshTokens (env.tokenHash m.current)).isSome
  access : ∀ k row, C' .accessTokens k = some row → C .accessTokens k = some row ∨
    row.clientID = m.request.clientID ∧ row.subject = m.request.subject
  refresh : ∀ k row, C' .refreshTokens k = some row → C .refreshTokens k = some row ∨
    k = env.tokenHash m.value ∧ row.clientID = m.request.clientID ∧ row.subject = m.request.subject
  tombstones : ∀ k row, C' .tombstones k = some row → C .tombstones k = some row ∨
    ∃ spent, C .refreshTokens (env.tokenHash m.current) = some spent ∧
      row.clientID = spent.clientID ∧ row.subject = spent.subject
  rest : ∀ i, i ≠ .accessTokens → i ≠ .refreshTokens → i ≠ .tombstones → C' i = C i

/-! ## Effects -/

/-- **Effect** of a transaction on the committed rows. -/
def TxEffect (env : Env) : (op : TxOp) → Except Err op.Answer → View Row → View Row → Prop
  | .authRequestByCode _, .ok (request, e), C, C' => Narrows C C' ∧
    ∃ id row, C .authRequests id = some row ∧ request = row.request ∧
      e = epochsAt C row.clientID row.subject
  | .loadRefresh value _, .ok (some row), C, C' => C' = C ∧
    C .refreshTokens (env.tokenHash value) = some row
  | .consumeDevice _ _ d, .ok (some (state, e)), C, C' => Narrows C C' ∧
    ∃ row, C .devices (env.tokenHash d) = some row ∧ state = row.state ∧
      e = epochsAt C row.clientID row.subject
  | .consumeDevice now c d, .ok none, C, C' => C' = C ∧
    ∀ row, C .devices (env.tokenHash d) = some row → row.redeemable now c = false
  | .recordDevicePoll _ _ d, .ok (some _), C, C' => Narrows C C' ∧
    ∀ row, C' .devices (env.tokenHash d) = some row → row.done = false
  | .deviceState c d, .ok state, C, C' => C' = C ∧
    ∃ row, C .devices (env.tokenHash d) = some row ∧ row.clientID = c ∧ state = row.state
  | .mint m, .ok _, C, C' => Mints env m C C'
  | .revokeGrant s c, .ok _, C, C' => s ≠ "" ∧ Revokes ⟨c, s⟩ C C' ∧ BumpedFor ⟨c, s⟩ C C'
  | .revokeTokens _ f, .ok _, C, C' => Revokes f C C' ∧ BumpedFor f C C'
  | .deleteClient _ id, .ok _, C, C' => Revokes ⟨id, ""⟩ C C' ∧
    ∀ r k row, C' (.retired r) k = some row → ownedBy ⟨id, ""⟩ (.retired r) row = false
  | _, _, C, C' => Narrows C C'

theorem commits_revokeGrant : Commits C (revokeGrant subject clientID : Sql env _)
    (TxEffect env (.revokeGrant subject clientID) · C) := by
  rw [revokeGrant]
  split_ifs with howner
  · exact fun sh hsh => ⟨C, hsh, Narrows.refl⟩
  · obtain ⟨hs, hc⟩ := not_or.1 howner
    simp only [ofGrant_eq hs hc]
    refine Commits.inTx (fun t => ?_) fun _ => Narrows.refl
    refine Works.bumpRevocationEpochs.bind ?_
    rintro _ _ rfl
    refine (Works.deleteWhere .const).bind ?_
    rintro _ _ ⟨rfl, -⟩
    refine (Works.deleteWhere .const).bind ?_
    rintro _ _ ⟨rfl, -⟩
    refine (Works.deleteWhere .const).bind ?_
    rintro _ _ ⟨rfl, -⟩
    refine (Works.deleteWhere .const).bind ?_
    rintro _ _ ⟨rfl, -⟩
    refine (Works.deleteWhere .codes).bind ?_
    rintro _ _ ⟨rfl, -⟩
    refine (Works.deleteWhere .const).bind ?_
    rintro _ _ ⟨rfl, -⟩
    refine .pure ⟨hs, ?_, ?_⟩
    · exact revokes_clear [.accessTokens, .refreshTokens, .tombstones, .devices] [] Narrows.bumped (bumped_of_ne (by decide)) (by decide) (by decide) (by decide)
        (by decide)
    · intro k
      rfl

theorem commits_revokeTokens {f : TokenFilter} :
    Commits C (revokeTokens fuel f : Sql env _) (TxEffect env (.revokeTokens fuel f) · C) := by
  refine Commits.inTx (fun t => ?_) fun _ => Narrows.refl
  refine Works.bumpRevocationEpochs.bind ?_
  rintro _ _ rfl
  refine Works.revokeMatching.bind ?_
  rintro total _ rfl
  refine Works.revokeMatching.bind ?_
  rintro _ _ rfl
  refine Works.revokePendingAuthorizations.bind ?_
  rintro _ _ rfl
  refine Works.revokeMatching.bind ?_
  rintro _ _ rfl
  refine .pure ⟨?_, fun k => rfl⟩
  exact revokes_clear [.accessTokens, .refreshTokens, .tombstones] [.devices] Narrows.bumped
    (bumped_of_ne (by decide)) (by decide) (by decide) (by decide) (by decide)

theorem commits_deleteClient {id : String} :
    Commits C (deleteClient fuel id : Sql env _) (TxEffect env (.deleteClient fuel id) · C) := by
  refine Commits.inTx (fun t => ?_) fun _ => Narrows.refl
  refine Works.revokeMatching.bind ?_
  rintro _ _ rfl
  refine Works.revokeMatching.bind ?_
  rintro _ _ rfl
  refine Works.revokePendingAuthorizations.bind ?_
  rintro _ _ rfl
  refine (Works.deleteWhere .const).bind ?_
  rintro _ _ ⟨rfl, -⟩
  refine .pure ⟨?_, ?_⟩
  · have hrevokes : Revokes ⟨id, ""⟩ C _ := revokes_clear [.accessTokens, .refreshTokens, .tombstones,
      .devices, .retired .accessTokens, .retired .refreshTokens, .retired .codes,
      .retired .refreshTombstones, .retired .deviceAuthorizations] [] Narrows.refl rfl (by decide)
      (by decide) (by decide) (by decide)
    exact ⟨hrevokes.narrows.trans (Narrows.drop (by decide)),
      fun i hi k row hrow => hrevokes.cleared i hi k row (of_drop hrow),
      fun k row r hrow => hrevokes.codes k row r (of_drop hrow)⟩
  · intro r k row hrow
    obtain ⟨hrow, -⟩ := of_clear (of_drop hrow)
    obtain ⟨-, hretired⟩ := of_clear (of_drop hrow)
    exact hretired (by cases r <;> decide)

/-! ## Resolving a grant -/

theorem commits_randomValue : Commits C (randomValue : Sql env _) (TxEffect env .random · C) := by
  rintro sh hsh (_ | v) r sh' hex
  · cases hex
    exact ⟨C, hsh, Narrows.refl⟩
  · dsimp only [exec] at hex
    split at hex <;> cases hex
    exact ⟨C, hsh, Narrows.refl⟩

theorem commits_authRequestByCode {code : String} :
    Commits C (authRequestByCode code : Sql env _) (TxEffect env (.authRequestByCode code) · C) := by
  refine Commits.inTx (fun t => ?_) fun _ => Narrows.refl
  refine Works.bind (Works.readClock (Q := fun _ V' => C = V') fun _ => rfl) ?_
  rintro now _ rfl
  refine (Works.deleteWhere .const).wrapping.bind ?_
  rintro codes _ ⟨rfl, -⟩
  rcases codes.head? with _ | claimed
  · exact .throw
  refine (Works.deleteWhere .const).wrapping.bind ?_
  rintro requests _ ⟨rfl, hfound, -⟩
  cases hrow : requests.head? with
  | none => exact .throw
  | some row =>
    obtain ⟨id, hid, -⟩ := hfound row (mem_of_mem_head? hrow)
    refine Works.captureRevocationEpochs.wrapping.bind ?_
    rintro _ _ ⟨rfl, rfl⟩
    exact .pure ⟨(Narrows.drop (by decide)).trans (Narrows.drop (by decide)), id, row,
      of_drop hid, rfl, rfl⟩

/-- A generation of the family, live or spent, names the access row. -/
def NamedBy (V : View Row) (familyID idHash : String) : Prop :=
  (∃ k r, V .refreshTokens k = some r ∧ r.familyID = familyID ∧ r.idHash = idHash) ∨
    ∃ k r, V .tombstones k = some r ∧ r.familyID = familyID ∧ r.idHash = idHash

open Classical in
/-- What the revocation of a family leaves. -/
noncomputable def withoutFamily (familyID : String) (V : View Row) : View Row :=
  ((V.drop .accessTokens fun k _ => decide (NamedBy V familyID k)).drop .refreshTokens
    fun _ row => row.familyID == familyID).drop .tombstones fun _ row => row.familyID == familyID

theorem Works.revokeFamilyTx : Works t C V (Postgres.revokeFamilyTx t familyID : Sql env Unit)
      fun _ V' => V' = withoutFamily familyID V := by
  classical
  refine (Works.deleteWhere (p := fun k _ => decide (NamedBy V familyID k)) ?_).bind ?_
  · intro V' hV' s hs k row
    rw [Bool.eq_iff_iff, decide_eq_true_iff]
    simp only [Bool.or_eq_true, any_eq_true, Bool.and_eq_true, beq_iff_eq,
      Prod.exists, hs .refreshTokens, hs .tombstones, hV' .refreshTokens (by decide),
      hV' .tombstones (by decide)]
    exact Iff.rfl
  rintro _ _ ⟨rfl, -⟩
  refine (Works.deleteWhere .const).bind ?_
  rintro _ _ ⟨rfl, -⟩
  refine (Works.deleteWhere .const).bind ?_
  rintro _ _ ⟨rfl, -⟩
  exact .pure rfl

theorem Narrows.withoutFamily : Narrows C (withoutFamily familyID C) :=
  (Narrows.drop (by decide)).trans ((Narrows.drop (by decide)).trans (Narrows.drop (by decide)))

theorem Works.spentFamily : Works t C V (Postgres.spentFamily t value now : Sql env (Option String))
      fun _ V' => V = V' := by
  refine Works.select.bind ?_
  rintro rows _ ⟨rfl, rfl⟩
  exact .pure rfl

theorem commits_replayed : Commits C (replayed value : Sql env _) (TxEffect env (.replayed value) · C) := by
  refine Commits.inTx (fun t => ?_) fun _ => Narrows.refl
  refine Works.bind (Works.readClock (Q := fun _ V' => C = V') fun _ => rfl) ?_
  rintro now _ rfl
  refine Works.spentFamily.wrapping.bind ?_
  rintro (_ | familyID) _ rfl
  · exact .throw
  · refine Works.revokeFamilyTx.wrapping.bind ?_
    rintro _ _ rfl
    exact .pure Narrows.withoutFamily

/-- A query outside a transaction. -/
theorem commits_select : Commits C (stmt (Prog.call (M := machine env) (.select none i keys))) fun r C' =>
      C' = C ∧ ∀ rows, r = .ok rows → rows = keys.filterMap fun k => (C i k).map (k, ·) := by
  intro sh hsh ω r sh' hex
  dsimp only [exec] at hex
  split at hex <;> cases hex
  · exact ⟨C, hsh, rfl, nofun⟩
  · refine ⟨C, hsh, rfl, ?_⟩
    rintro rows h
    cases h
    have hread : ∀ k, sh.db.read none i k = C i k := fun k => hsh.committed
    simp only [hread]

theorem commits_loadRefresh :
    Commits C (loadRefresh value now : Sql env _) (TxEffect env (.loadRefresh value now) · C) := by
  refine commits_select.wrapping.bind ?_ ?_
  · rintro rows _ ⟨rfl, hrows⟩
    cases hr : rows.find? fun r => decide (now < r.2.expiresAt) with
    | none => exact .pure Narrows.refl
    | some r =>
      refine .pure ⟨rfl, ?_⟩
      have hmem := mem_of_find?_eq_some hr
      rw [hrows rows rfl] at hmem
      obtain ⟨k, hk, hmap⟩ := mem_filterMap.1 hmem
      obtain ⟨v, hv, rfl⟩ := Option.map_eq_some_iff.1 hmap
      rwa [mem_singleton.1 hk] at hv
  · rintro e _ ⟨_, -, rfl, -⟩
    exact Narrows.refl

theorem commits_captureEpochs {s : String} :
    Commits C (captureRevocationEpochs none c s : Sql env RevocationEpochs) fun _ C' => C' = C := by
  refine commits_select.bind ?_ ?_
  · rintro rows _ ⟨rfl, -⟩
    exact .pure rfl
  · rintro e _ ⟨rfl, -⟩
    rfl

theorem commits_consumeDevice :
    Commits C (consumeDevice now c d : Sql env _) (TxEffect env (.consumeDevice now c d) · C) := by
  refine Commits.inTx (fun t => ?_) fun _ => Narrows.refl
  refine (Works.deleteWhere .const).wrapping.bind ?_
  rintro rows _ ⟨rfl, hfound, hnone⟩
  cases hrow : rows.head? with
  | none =>
    refine .pure ⟨rfl, fun row hd => ?_⟩
    have hcond := hnone hrow _ row hd
    simpa [DeviceRow.redeemable, Bool.and_assoc] using hcond
  | some row =>
    obtain ⟨k, hk, hcond⟩ := hfound row (mem_of_mem_head? hrow)
    obtain rfl : k = env.tokenHash d := by
      simp only [Bool.and_eq_true, beq_iff_eq] at hcond
      exact hcond.1.1.1.1
    refine Works.captureRevocationEpochs.wrapping.bind ?_
    rintro _ _ ⟨rfl, rfl⟩
    exact .pure ⟨Narrows.drop (by decide), row, hk, rfl, rfl⟩

theorem commits_recordDevicePoll :
    Commits C (recordDevicePoll now c d : Sql env _) (TxEffect env (.recordDevicePoll now c d) · C) := by
  refine Commits.inTx (fun t => ?_) fun _ => Narrows.refl
  refine (Works.scan .const).wrapping.bind ?_
  rintro keys _ ⟨rfl, -, hfound, -⟩
  cases hk : keys.head? with
  | none => exact .pure Narrows.refl
  | some k =>
    obtain ⟨_, -, hcond⟩ := hfound k (mem_of_mem_head? hk)
    obtain rfl : k = env.tokenHash d := by
      simp only [Bool.and_eq_true, beq_iff_eq] at hcond
      exact hcond.1.1.1
    refine Works.update.wrapping.bind ?_
    rintro row _ ⟨rfl, rfl⟩
    rw [set_eq (Option.map_id_apply).symm]
    cases hrow : (C .devices (env.tokenHash d)).filter fun d =>
        d.clientID == c && !d.done && !d.denied with
    | none => exact .pure Narrows.refl
    | some pending =>
      obtain ⟨hpending, hopen⟩ := Option.filter_eq_some_iff.1 hrow
      refine Works.update.wrapping.bind ?_
      rintro _ _ ⟨rfl, rfl⟩
      refine .pure ⟨Narrows.poll, fun row hrow => ?_⟩
      rw [set_self, hpending] at hrow
      cases hrow
      simp only [Bool.and_eq_true, Bool.not_eq_true'] at hopen
      exact hopen.1.2

theorem commits_deviceState :
    Commits C (deviceState c d : Sql env _) (TxEffect env (.deviceState c d) · C) := by
  refine commits_select.wrapping.bind ?_ ?_
  · rintro rows _ ⟨rfl, hrows⟩
    cases hfind : rows.find? fun r => r.2.clientID == c with
    | none => exact .throw Narrows.refl
    | some r =>
      refine .pure ⟨rfl, r.2, ?_, ?_, rfl⟩
      · have hmem := mem_of_find?_eq_some hfind
        rw [hrows rows rfl] at hmem
        obtain ⟨k, hk, hmap⟩ := mem_filterMap.1 hmem
        obtain ⟨v, hv, rfl⟩ := Option.map_eq_some_iff.1 hmap
        rwa [mem_singleton.1 hk] at hv
      · simpa using find?_some hfind
  · rintro e _ ⟨_, -, rfl, -⟩
    exact Narrows.refl

theorem commits_expireDevice :
    Commits C (expireDevice c d : Sql env _) (TxEffect env (.expireDevice c d) · C) := by
  refine Commits.inTx (fun t => ?_) fun _ => Narrows.refl
  refine (Works.deleteWhere .const).wrapping.bind ?_
  rintro _ _ ⟨rfl, -⟩
  exact .pure (Narrows.drop (by decide))

/-! ## Minting -/

theorem Works.insertPair {request : TokenRequest} {accessID : String} :
    Works t C V (Postgres.insertPair t request accessID value familyID now : Sql env Unit)
      fun _ V' => ∃ a r, V' = (V.set .accessTokens (env.tokenHash accessID) (some a)).set
        .refreshTokens (env.tokenHash value) (some r) ∧
        a.clientID = request.clientID ∧ a.subject = request.subject ∧
        r.clientID = request.clientID ∧ r.subject = request.subject := by
  refine Works.insert.wrapping.bind ?_
  rintro _ _ ⟨-, rfl⟩
  refine Works.insert.wrapping.mono ?_
  rintro _ _ ⟨-, rfl⟩
  exact ⟨_, _, rfl, rfl, rfl, rfl, rfl⟩

/-- The pair is written last, over what the claim of a presented token has left. -/
theorem mints_pair {a : AccessRow} {r : RefreshRow}
    (hsame : revocationUnchanged m.captured (epochsAt C m.request.clientID m.request.subject) = true)
    (hclaim : m.current ≠ "" → (C .refreshTokens (env.tokenHash m.current)).isSome)
    (hrefresh : ∀ k row, V .refreshTokens k = some row → C .refreshTokens k = some row)
    (htomb : ∀ k row, V .tombstones k = some row → C .tombstones k = some row ∨
      ∃ spent, C .refreshTokens (env.tokenHash m.current) = some spent ∧
        row.clientID = spent.clientID ∧ row.subject = spent.subject)
    (hrest : ∀ i, i ≠ .refreshTokens → i ≠ .tombstones → V i = C i)
    (ha : a.clientID = m.request.clientID ∧ a.subject = m.request.subject)
    (hr : r.clientID = m.request.clientID ∧ r.subject = m.request.subject) :
    Mints env m C ((V.set .accessTokens (env.tokenHash m.accessID) (some a)).set .refreshTokens
      (env.tokenHash m.value) (some r)) where
  unchanged := hsame
  claimed := hclaim
  access k row hrow := by
    rw [set_of_ne (.inl (by decide))] at hrow
    by_cases hk : k = env.tokenHash m.accessID
    · subst hk
      rw [set_self] at hrow
      cases hrow
      exact .inr ha
    · rw [set_of_ne (.inr hk), hrest _ (by decide) (by decide)] at hrow
      exact .inl hrow
  refresh k row hrow := by
    by_cases hk : k = env.tokenHash m.value
    · subst hk
      rw [set_self] at hrow
      cases hrow
      exact .inr ⟨rfl, hr⟩
    · rw [set_of_ne (.inr hk), set_of_ne (.inl (by decide))] at hrow
      exact .inl (hrefresh k row hrow)
  tombstones k row hrow := by
    exact htomb k row hrow
  rest i hi hi' hi'' := by
    funext k
    rw [set_of_ne (.inl hi'), set_of_ne (.inl hi), hrest i hi' hi'']

theorem commits_mint : Commits C (mint m : Sql env _) (TxEffect env (.mint m) · C) := by
  refine Commits.inTx (fun t => ?_) fun _ => Narrows.refl
  refine Works.checkRevocationEpochs.bind ?_
  rintro _ _ ⟨hsame, rfl⟩
  split_ifs with hcurrent
  · refine Works.bind (Works.randomValue (Q := fun _ V' => C = V') fun _ => rfl) ?_
    rintro familyID _ rfl
    refine Works.insertPair.bind ?_
    rintro _ _ ⟨a, r, rfl, ha, ha', hr, hr'⟩
    exact .pure (mints_pair hsame (absurd hcurrent) (fun _ _ h => h) (fun _ _ h => .inl h)
      (fun _ _ _ => rfl) ⟨ha, ha'⟩ ⟨hr, hr'⟩)
  · refine (Works.deleteWhere .const).wrapping.bind ?_
    rintro rows _ ⟨rfl, hfound, -⟩
    cases hspent : rows.head? with
    | some spent =>
      obtain ⟨k, hk, hcond⟩ := hfound spent (mem_of_mem_head? hspent)
      obtain rfl : k = env.tokenHash m.current := by
        simp only [Bool.and_eq_true, beq_iff_eq] at hcond
        exact hcond.1
      refine Works.insert.wrapping.bind ?_
      rintro _ _ ⟨-, rfl⟩
      refine Works.insertPair.bind ?_
      rintro _ _ ⟨a, r, rfl, ha, ha', hr, hr'⟩
      refine .pure (mints_pair hsame (fun _ => by rw [hk]; rfl) ?_ ?_ ?_ ⟨ha, ha'⟩ ⟨hr, hr'⟩)
      · intro l row hrow
        rw [set_of_ne (.inl (by decide))] at hrow
        exact of_drop hrow
      · intro l row hrow
        by_cases hl : l = env.tokenHash m.current
        · subst hl
          rw [set_self] at hrow
          cases hrow
          exact .inr ⟨spent, hk, rfl, rfl⟩
        · rw [set_of_ne (.inr hl), drop_of_ne (by decide)] at hrow
          exact .inl hrow
      · intro i hi hi'
        funext l
        rw [set_of_ne (.inl hi'), drop_of_ne hi]
    | none =>
      refine Works.spentFamily.wrapping.bind ?_
      rintro (_ | familyID) _ rfl
      · exact .throw
      · refine Works.revokeFamilyTx.wrapping.bind ?_
        rintro _ _ rfl
        exact .pure ((Narrows.drop (by decide)).trans Narrows.withoutFamily)

/-! ## What a transaction does -/

section

variable {op : TxOp} {ω : TxChoice} {r : Except Err op.Answer} {sh sh' : Shared} {C C' : View Row}

theorem effect_of_exec (h : (txMachine env).exec op ω sh = some (r, sh')) (hC : sh.db.Clean C) :
    ∃ C', sh'.db.Clean C' ∧ TxEffect env op r C C' := by
  cases op with
  | now | advanceClock | judge =>
    cases h
    exact ⟨C, hC, Narrows.refl⟩
  | captureEpochs c s =>
    obtain ⟨C', hC', hQ⟩ := wp_perform (commits_captureEpochs.wrapping sh hC) h
    rcases r with e | e
    · obtain ⟨-, -, rfl⟩ := hQ
      exact ⟨C', hC', Narrows.refl⟩
    · exact ⟨C', hC', hQ ▸ Narrows.refl⟩
  | random => exact wp_perform (commits_randomValue sh hC) h
  | authRequestByCode code => exact wp_perform (commits_authRequestByCode sh hC) h
  | loadRefresh value now => exact wp_perform (commits_loadRefresh sh hC) h
  | replayed value => exact wp_perform (commits_replayed sh hC) h
  | consumeDevice now c d => exact wp_perform (commits_consumeDevice sh hC) h
  | recordDevicePoll now c d => exact wp_perform (commits_recordDevicePoll sh hC) h
  | deviceState c d => exact wp_perform (commits_deviceState sh hC) h
  | expireDevice c d => exact wp_perform (commits_expireDevice sh hC) h
  | mint m => exact wp_perform (commits_mint sh hC) h
  | revokeGrant s c => exact wp_perform (commits_revokeGrant sh hC) h
  | revokeTokens fuel f => exact wp_perform (commits_revokeTokens sh hC) h
  | deleteClient fuel id => exact wp_perform (commits_deleteClient sh hC) h

/-- Only a mint that succeeds adds anything. -/
theorem TxEffect.narrows (h : TxEffect env op r C C') :
    Narrows C C' ∨ ∃ m, op = .mint m ∧ Mints env m C C' := by
  cases op with
  | authRequestByCode code =>
    rcases r with e | ⟨request, e⟩
    · exact .inl h
    · exact .inl h.1
  | loadRefresh value now =>
    rcases r with e | _ | row
    · exact .inl h
    · exact .inl h
    · exact .inl (h.1 ▸ .refl)
  | consumeDevice now c d =>
    rcases r with e | _ | ⟨state, e⟩
    · exact .inl h
    · exact .inl (h.1 ▸ .refl)
    · exact .inl h.1
  | recordDevicePoll now c d =>
    rcases r with e | _ | last
    · exact .inl h
    · exact .inl h
    · exact .inl h.1
  | deviceState c d =>
    rcases r with e | state
    · exact .inl h
    · exact .inl (h.1 ▸ .refl)
  | mint m =>
    rcases r with e | expires
    · exact .inl h
    · exact .inr ⟨m, rfl, h⟩
  | revokeGrant s c =>
    rcases r with e | _
    · exact .inl h
    · exact .inl h.2.1.narrows
  | revokeTokens | deleteClient =>
    rcases r with e | _
    · exact .inl h
    · exact .inl h.1.narrows
  | now | random | advanceClock | replayed | captureEpochs | expireDevice | judge =>
    exact .inl h

end

end Re0Auth.Postgres

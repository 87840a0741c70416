import Re0Auth.Memory.Effects

/-!
# The generations of a refresh token in the in-memory store

What the methods of the store do to its tables of tokens.

* **`TokenTables`**: the part of the store that holds tokens, with the indexes beside it;
* **`Marked`**: the key of a refresh token is taken by its row until it is spent and by its tombstone
  afterwards. Both name the family and the access token it was handed out with;
* **`Tidy`**: the invariant of the tables. Every access token is named by a mark;
* **`Prunes`**: what a deleting method does. A mark takes its access token along, and a mark that goes
  went for one of few reasons (`Lapsed`).
-/

namespace Re0Auth.Memory

open Lib OAuth Oidc OIDCStore Dict Option

/-! ## The tables of tokens -/

/-- **Token tables**: the tokens, the tombstones, the indexes beside them, and what bounds them. -/
structure TokenTables where
  accessTokens : Dict String AccessToken
  refreshTokens : Dict String RefreshToken
  refreshTombstones : Dict String RefreshTombstone
  accessBySubject : Index String String
  refreshBySubject : Index String String
  refreshByIDHash : Dict String String
  maxTombstones : ℕ
  accessTTL : Duration
  refreshTTL : Duration

/-- The tables of tokens of a store. -/
def OIDCStore.tokens (s : OIDCStore) : TokenTables where
  accessTokens := s.accessTokens
  refreshTokens := s.refreshTokens
  refreshTombstones := s.refreshTombstones
  accessBySubject := s.accessBySubject
  refreshBySubject := s.refreshBySubject
  refreshByIDHash := s.refreshByIDHash
  maxTombstones := s.maxTombstones
  accessTTL := s.accessTTL
  refreshTTL := s.refreshTTL

section Frame

variable (env : Env) (now : Time) (s : OIDCStore) {W : Type}

@[simp] theorem tokens_deleteRequest (id : String) : (s.deleteRequestLocked id).tokens = s.tokens := by
  rw [deleteRequestLocked]
  split <;> rfl

@[simp] theorem tokens_deleteCode (k : String) : (s.deleteCodeLocked k).tokens = s.tokens := by
  rw [deleteCodeLocked]
  split <;> rfl

@[simp] theorem tokens_deleteCodesForRequest (id : String) :
    (s.deleteCodesForRequestLocked id).2.tokens = s.tokens := by
  rw [deleteCodesForRequestLocked]
  split_ifs <;> rfl

/-- A loop that leaves a table alone. -/
theorem table_removeAll {V : Type} {rows : OIDCStore → Dict String V} {p : V → Bool}
    {del : OIDCStore → String → V → OIDCStore} {keys : List String} (table : OIDCStore → W)
    (hdel : ∀ s k v, table (del s k v) = table s) : table (removeAll rows p del keys s).2 = table s :=
  removeAll_induct (I := fun s' => table s' = table s) (fun s k v _ h => (hdel s k v).trans h) rfl

/-- The codes of requests leave a table alone. -/
theorem table_foldl_deleteCodes (table : OIDCStore → W)
    (hcodes : ∀ s id, table (deleteCodesForRequestLocked s id).2 = table s) (purged : List String) (n : ℕ) :
    table (purged.foldl (fun (n, s) id =>
      let (codes, s) := deleteCodesForRequestLocked s id
      (n + codes, s)) (n, s)).2 = table s := by
  induction purged generalizing n s with
  | nil => rfl
  | cons id purged ih => exact (ih _ _).trans (hcodes s id)

@[simp] theorem tokens_removeDevices (p : DeviceRecord → Bool) :
    (removeDevices env p s).2.tokens = s.tokens :=
  table_removeAll s tokens fun _ _ _ => rfl

@[simp] theorem tokens_removeRequests (p : AuthRequest → Bool) (keys : List String) :
    (removeRequests p keys s).2.tokens = s.tokens :=
  (table_foldl_deleteCodes _ _ tokens_deleteCodesForRequest _ _).trans
    (table_removeAll s tokens fun s id _ => tokens_deleteRequest s id)

@[simp] theorem tokens_createAuthRequest (id u : String) (req : AuthorizeParams) :
    (s.createAuthRequest now id req u).2.tokens = s.tokens := by
  rw [createAuthRequest]
  split_ifs <;> rfl

@[simp] theorem tokens_saveAuthCode (id code : String) :
    (s.saveAuthCode env now id code).tokens = s.tokens := rfl

@[simp] theorem tokens_authRequestByCode (code : String) :
    (s.authRequestByCode env now code).2.tokens = s.tokens := by
  rw [authRequestByCode]
  split
  · rfl
  · split
    · rfl
    · simp

@[simp] theorem tokens_deleteAuthRequest (id : String) : (s.deleteAuthRequest id).tokens = s.tokens := by
  simp [deleteAuthRequest]

@[simp] theorem tokens_setAuthTime (id : String) (t : Time) : (s.setAuthTime id t).2.tokens = s.tokens := by
  rw [setAuthTime]
  split <;> rfl

@[simp] theorem tokens_completeLogin (id u : String) (scopes : List String) :
    (s.completeLogin now id u scopes).2.tokens = s.tokens := by
  rw [completeLogin]
  split
  · rfl
  · split_ifs <;> rfl

theorem OnlyDevices.tokens {s s' : OIDCStore} (h : OnlyDevices s s') : s'.tokens = s.tokens := by
  obtain ⟨_, _, rfl⟩ := h
  rfl

@[simp] theorem tokens_purgeSubject (u : String) : (s.purgeSubject env u).2.tokens = s.tokens := by
  rw [purgeSubject]
  split_ifs
  · rfl
  · simp

end Frame

/-! ## Marks -/

/-- The tombstone a refresh token leaves when it is spent. -/
def RefreshToken.tombstone (t : RefreshToken) : RefreshTombstone where
  familyID := t.familyID
  idHash := t.idHash
  clientID := t.clientID
  subject := t.subject
  expiresAt := t.expiresAt

/-- **Marked**: the key of a refresh token, by its row or by its tombstone. -/
def Marked (T : TokenTables) (k : String) (m : RefreshTombstone) : Prop :=
  (∃ t, T.refreshTokens.get k = some t ∧ t.tombstone = m) ∨ T.refreshTombstones.get k = some m

/-- A mark names an access token: of the same owner, and expiring no later. -/
def Pairs (m : RefreshTombstone) (h : String) (t : AccessToken) : Prop :=
  m.idHash = h ∧ m.clientID = t.clientID ∧ m.subject = t.subject ∧ t.expiresAt ≤ m.expiresAt

/-- The indexes hold what is there and nothing else. -/
structure Filed (T : TokenTables) : Prop where
  access : T.accessBySubject.Exact (fun t : AccessToken => filedUnder t.subject) T.accessTokens
  refresh : T.refreshBySubject.Exact (fun t : RefreshToken => filedUnder t.subject) T.refreshTokens
  byIDHash : ∀ h k, T.refreshByIDHash.get h = some k →
    ∃ t, T.refreshTokens.get k = some t ∧ t.idHash = h

/-- **Tidy**: a key has a row or a tombstone, not both, and every access token is named by a mark. -/
structure Tidy (T : TokenTables) : Prop where
  filed : Filed T
  apart : ∀ k t, T.refreshTokens.get k = some t → T.refreshTombstones.get k = none
  named : ∀ h t, T.accessTokens.get h = some t → ∃ k m, Marked T k m ∧ Pairs m h t
  lifetimes : T.accessTTL ≤ T.refreshTTL

/-- The bounds and the lifetimes, which no method changes. -/
def TokenTables.bounds (T : TokenTables) : ℕ × Duration × Duration :=
  (T.maxTombstones, T.accessTTL, T.refreshTTL)

/-- **Trims**: records go. -/
structure Trims (T T' : TokenTables) : Prop where
  accessTokens : T'.accessTokens.Sub T.accessTokens
  refreshTokens : T'.refreshTokens.Sub T.refreshTokens
  refreshTombstones : T'.refreshTombstones.Sub T.refreshTombstones
  filed : Filed T → Filed T'
  bounds : T'.bounds = T.bounds

namespace Trims

variable {T T' T'' : TokenTables}

theorem refl (T : TokenTables) : Trims T T := ⟨.refl _, .refl _, .refl _, id, rfl⟩

theorem trans (h : Trims T T') (h' : Trims T' T'') : Trims T T'' where
  accessTokens := h'.accessTokens.trans h.accessTokens
  refreshTokens := h'.refreshTokens.trans h.refreshTokens
  refreshTombstones := h'.refreshTombstones.trans h.refreshTombstones
  filed hT := h'.filed (h.filed hT)
  bounds := h'.bounds.trans h.bounds

end Trims

section Deletions

variable (s : OIDCStore) (key : String)

@[simp, grind =] theorem refreshTokens_deleteAccess :
    (s.deleteAccessLocked key).refreshTokens = s.refreshTokens := by
  rw [deleteAccessLocked]
  split <;> rfl

@[simp, grind =] theorem refreshTombstones_deleteAccess :
    (s.deleteAccessLocked key).refreshTombstones = s.refreshTombstones := by
  rw [deleteAccessLocked]
  split <;> rfl

@[simp, grind =] theorem refreshTombstones_deleteRefresh :
    (s.deleteRefreshLocked key).refreshTombstones = s.refreshTombstones := by
  rw [deleteRefreshLocked]
  split <;> rfl

@[simp, grind =] theorem accessTokens_deleteRefresh :
    (s.deleteRefreshLocked key).accessTokens = s.accessTokens := by
  rw [deleteRefreshLocked]
  split <;> rfl

@[simp, grind =] theorem accessTokens_deleteTombstone : (s.deleteTombstone key).accessTokens = s.accessTokens := rfl

@[simp, grind =] theorem refreshTokens_deleteTombstone :
    (s.deleteTombstone key).refreshTokens = s.refreshTokens := rfl

theorem trims_deleteAccess : Trims s.tokens (s.deleteAccessLocked key).tokens := by
  rw [deleteAccessLocked]
  split
  · exact .refl _
  · rename_i t ht
    refine ⟨sub_del _ _, .refl _, .refl _, fun h => ⟨h.access.del_remove ht ?_, h.refresh, h.byIDHash⟩, rfl⟩
    exact fun j hj => (filedUnder_eq_some.1 hj).2.symm

theorem trims_deleteRefresh : Trims s.tokens (s.deleteRefreshLocked key).tokens := by
  rw [deleteRefreshLocked]
  split
  · exact .refl _
  · rename_i t ht
    refine ⟨.refl _, sub_del _ _, .refl _, fun h => ⟨h.access, h.refresh.del_remove ht ?_, ?_⟩, rfl⟩
    · exact fun j hj => (filedUnder_eq_some.1 hj).2.symm
    · -- an entry that named the record is under its id hash
      have hfiled := h.byIDHash
      dsimp only [tokens] at hfiled ⊢
      grind [get_del]

theorem trims_deleteTombstone : Trims s.tokens (s.deleteTombstone key).tokens :=
  ⟨.refl _, .refl _, sub_del _ _, fun h => ⟨h.access, h.refresh, h.byIDHash⟩, rfl⟩

theorem trims_removeAll {V : Type} {rows : OIDCStore → Dict String V} {p : V → Bool}
    {del : OIDCStore → String → V → OIDCStore} {keys : List String}
    (hdel : ∀ s k v, Trims s.tokens (del s k v).tokens) :
    Trims s.tokens (removeAll rows p del keys s).2.tokens :=
  removeAll_induct (I := fun s' => Trims s.tokens s'.tokens) (fun _ k v _ h => h.trans (hdel _ k v)) (.refl _)

end Deletions

theorem Deletes.trims {env : Env} {s s' : OIDCStore} (h : Deletes env s s') : Trims s.tokens s'.tokens := by
  induction h with
  | refl => exact .refl _
  | access _ k ih => exact ih.trans (trims_deleteAccess _ k)
  | refresh _ k ih => exact ih.trans (trims_deleteRefresh _ k)
  | tombstone _ k ih => exact ih.trans (trims_deleteTombstone _ k)
  | request _ id ih => simpa using ih
  | code _ k ih => simpa using ih
  | codes _ id ih => simpa using ih
  | device _ _ ih => exact ih

/-! ## Methods that delete tokens -/

/-- **Lapsed**: why a mark may go. It is past its deadline, has no subject, or nothing of its family or of
its owner is left. -/
inductive Lapsed (now : Time) (T : TokenTables) (m : RefreshTombstone) : Prop
  | expired (h : m.expiresAt ≤ now)
  | unowned (h : m.subject = "")
  | family (h : ∀ k m', Marked T k m' → m'.familyID ≠ m.familyID)
  | owner (h : ∀ k m', Marked T k m' → ¬ (m'.clientID = m.clientID ∧ m'.subject = m.subject))

/-- **Prunes**: records go. A mark whose access token is left stays, and one that goes has lapsed or is
among the marks `revoked` selects. -/
structure Prunes (now : Time) (revoked : String → RefreshTombstone → Prop) (T T' : TokenTables) :
    Prop extends Trims T T' where
  paired : ∀ k m h t, Marked T k m → T'.accessTokens.get h = some t → Pairs m h t → Marked T' k m
  lapsed : ∀ k m, Marked T k m → Marked T' k m ∨ Lapsed now T' m ∨ revoked k m

theorem Prunes.refl {now : Time} {revoked : String → RefreshTombstone → Prop} (T : TokenTables) :
    Prunes now revoked T T :=
  ⟨.refl T, fun _ _ _ _ h _ _ => h, fun _ _ h => .inl h⟩

/-- The tombstone goes with its access token. -/
theorem deletesOne_tombstone_access : DeletesOne refreshTombstones
      fun s k (ts : RefreshTombstone) => (s.deleteTombstone k).deleteAccessLocked ts.idHash := by
  intro s k ts k' ts'
  rw [refreshTombstones_deleteAccess]
  exact get_deleteTombstone s k

/-- The refresh token goes with its access token. -/
theorem deletesOne_refresh_access : DeletesOne refreshTokens
      fun s k (t : RefreshToken) => (s.deleteRefreshLocked k).deleteAccessLocked t.idHash := by
  intro s k t k' t'
  rw [refreshTokens_deleteAccess]
  exact get_deleteRefresh s k

section NamedLoops

variable (s : OIDCStore) {p : RefreshTombstone → Bool}

theorem trims_removeAccess (p : AccessToken → Bool) (keys : List String) :
    Trims s.tokens (removeAccess p keys s).2.tokens :=
  trims_removeAll s fun s k _ => trims_deleteAccess s k

theorem trims_removeRefresh (p : RefreshToken → Bool) (keys : List String) :
    Trims s.tokens (removeRefresh p keys s).2.tokens :=
  trims_removeAll s fun s k _ => trims_deleteRefresh s k

theorem trims_removeTombstones (p : RefreshTombstone → Bool) : Trims s.tokens (removeTombstones p s).tokens :=
  trims_removeAll s fun s k _ => (trims_deleteTombstone s k).trans (trims_deleteAccess _ _)

@[simp, grind =] theorem refreshTokens_removeAccess (p : AccessToken → Bool) (keys : List String) :
    (removeAccess p keys s).2.refreshTokens = s.refreshTokens :=
  table_removeAll s refreshTokens fun s k _ => refreshTokens_deleteAccess s k

@[simp, grind =] theorem refreshTombstones_removeAccess (p : AccessToken → Bool) (keys : List String) :
    (removeAccess p keys s).2.refreshTombstones = s.refreshTombstones :=
  table_removeAll s refreshTombstones fun s k _ => refreshTombstones_deleteAccess s k

@[simp, grind =] theorem accessTokens_removeRefresh (p : RefreshToken → Bool) (keys : List String) :
    (removeRefresh p keys s).2.accessTokens = s.accessTokens :=
  table_removeAll s accessTokens fun s k _ => accessTokens_deleteRefresh s k

@[simp, grind =] theorem refreshTombstones_removeRefresh (p : RefreshToken → Bool) (keys : List String) :
    (removeRefresh p keys s).2.refreshTombstones = s.refreshTombstones :=
  table_removeAll s refreshTombstones fun s k _ => refreshTombstones_deleteRefresh s k

@[simp, grind =] theorem refreshTokens_removeTombstones (p : RefreshTombstone → Bool) :
    (removeTombstones p s).refreshTokens = s.refreshTokens :=
  table_removeAll s refreshTokens fun s k _ =>
    (refreshTokens_deleteAccess _ _).trans (refreshTokens_deleteTombstone s k)

@[grind =] theorem get_removeTombstones {k : String} {ts : RefreshTombstone} :
    (removeTombstones p s).refreshTombstones.get k = some ts ↔
      s.refreshTombstones.get k = some ts ∧ p ts = false :=
  get_removeAll_keys deletesOne_tombstone_access

/-- An access token stays unless the tombstone that names it goes. -/
@[grind =] theorem get_access_removeTombstones {h : String} {t : AccessToken} :
    (removeTombstones p s).accessTokens.get h = some t ↔ s.accessTokens.get h = some t ∧
        ∀ k ts, s.refreshTombstones.get k = some ts → p ts = true → ts.idHash ≠ h := by
  refine (get_beside_removeAll deletesOne_tombstone_access fun s k ts h t => get_deleteAccess _ _).trans ?_
  refine and_congr_right fun _ => forall₂_congr fun k ts => ?_
  exact ⟨fun hall hts => hall (mem_keys_iff.2 ⟨ts, hts⟩) hts, fun hall _ => hall⟩

end NamedLoops

section Methods

variable {now : Time} {revoked : String → RefreshTombstone → Prop} {T T' : TokenTables}
  {s : OIDCStore} {k familyID h u : String} {m : RefreshTombstone} {owned : String → String → Prop}
  {sel : OIDCStore.Selection}

/-- Rows and tombstones that are kept by the same test. -/
theorem marked_filter (keep : RefreshTombstone → Prop)
    (hrows : ∀ k t, T'.refreshTokens.get k = some t ↔ T.refreshTokens.get k = some t ∧ keep t.tombstone)
    (htombstones : ∀ k ts, T'.refreshTombstones.get k = some ts ↔
      T.refreshTombstones.get k = some ts ∧ keep ts) : Marked T' k m ↔ Marked T k m ∧ keep m := by
  unfold Marked
  grind

/-- A method that keeps the marks that pass a test. -/
theorem Prunes.of_filter {keep : RefreshTombstone → Prop} (htrims : Trims T T')
    (hmarked : ∀ k m, Marked T' k m ↔ Marked T k m ∧ keep m)
    (hpaired : ∀ k m h t, Marked T k m → ¬ keep m → T'.accessTokens.get h = some t → ¬ Pairs m h t)
    (hlapsed : ∀ m, ¬ keep m → Lapsed now T' m) : Prunes now revoked T T' := by
  refine ⟨htrims, ?_, ?_⟩ <;> grind

/-- **Removes**: the tokens that go are those the tests name. -/
structure Removes (access : String → AccessToken → Prop) (refresh : String → RefreshToken → Prop)
    (tombstone : String → RefreshTombstone → Prop) (T T₁ : TokenTables) : Prop where
  access : ∀ h t, T₁.accessTokens.get h = some t ↔ T.accessTokens.get h = some t ∧ ¬ access h t
  refresh : ∀ k t, T₁.refreshTokens.get k = some t ↔ T.refreshTokens.get k = some t ∧ ¬ refresh k t
  tombstone : ∀ k m, T₁.refreshTombstones.get k = some m ↔
    T.refreshTombstones.get k = some m ∧ ¬ tombstone k m

/-- A method that takes rows and tombstones by the same test. -/
theorem Removes.marked {access : String → AccessToken → Prop} (gone : RefreshTombstone → Prop)
    (h : Removes access (fun _ t => gone t.tombstone) (fun _ m => gone m) T T') :
    Marked T' k m ↔ Marked T k m ∧ ¬ gone m :=
  marked_filter (fun m => ¬ gone m) h.refresh h.tombstone

/-! ### The end of a family -/

/-- The rows of a family go, each with its access token. -/
def OIDCStore.removeFamily (familyID : String) (s : OIDCStore) : OIDCStore :=
  (OIDCStore.removeAll OIDCStore.refreshTokens (·.familyID == familyID)
    (fun s k t => (s.deleteRefreshLocked k).deleteAccessLocked t.idHash) s.refreshTokens.keys s).2

theorem revokeFamily_eq (hfamily : familyID ≠ "") : s.revokeFamilyLocked familyID =
      removeTombstones (·.familyID == familyID) (s.removeFamily familyID) := by
  rw [revokeFamilyLocked, if_neg hfamily]
  rfl

@[simp, grind =] theorem refreshTombstones_removeFamily (familyID : String) :
    (s.removeFamily familyID).refreshTombstones = s.refreshTombstones :=
  table_removeAll s refreshTombstones fun s k _ =>
    (refreshTombstones_deleteAccess _ _).trans (refreshTombstones_deleteRefresh s k)

@[grind =] theorem get_removeFamily {t : RefreshToken} :
    (s.removeFamily familyID).refreshTokens.get k = some t ↔
      s.refreshTokens.get k = some t ∧ (t.familyID == familyID) = false :=
  get_removeAll_keys deletesOne_refresh_access

@[grind =] theorem get_access_removeFamily {t : AccessToken} :
    (s.removeFamily familyID).accessTokens.get h = some t ↔ s.accessTokens.get h = some t ∧
        ∀ k u, s.refreshTokens.get k = some u → u.familyID = familyID → u.idHash ≠ h := by
  have hbeside : ∀ (s : OIDCStore) k (u : RefreshToken) h t,
      ((s.deleteRefreshLocked k).deleteAccessLocked u.idHash).accessTokens.get h = some t ↔
        h ≠ u.idHash ∧ s.accessTokens.get h = some t := by
    intro s k u h t
    rw [get_deleteAccess, accessTokens_deleteRefresh]
  refine (get_beside_removeAll deletesOne_refresh_access hbeside).trans ?_
  refine and_congr_right fun _ => forall₂_congr fun k u => ?_
  rw [beq_iff_eq]
  exact ⟨fun hall hu => hall (mem_keys_iff.2 ⟨u, hu⟩) hu, fun hall _ => hall⟩

/-- The tokens a family takes down. -/
theorem removes_revokeFamily (hfamily : familyID ≠ "") :
    Removes (fun h _ => ∃ k m, Marked s.tokens k m ∧ m.familyID = familyID ∧ m.idHash = h)
      (fun _ t => t.familyID = familyID) (fun _ m => m.familyID = familyID) s.tokens
      (s.revokeFamilyLocked familyID).tokens := by
  rw [revokeFamily_eq hfamily]
  refine ⟨fun h t => ?_, fun k t => ?_, fun k m => ?_⟩
  · refine (get_access_removeTombstones _).trans ?_
    rw [get_access_removeFamily, refreshTombstones_removeFamily, and_assoc]
    refine and_congr_right fun _ => ?_
    constructor
    · rintro ⟨hrows, htombstones⟩ ⟨k, m, ⟨u, hu, rfl⟩ | hts, hfam, hid⟩
      · exact hrows k u hu hfam hid
      · exact htombstones k m hts (beq_iff_eq.2 hfam) hid
    · intro hnone
      refine ⟨fun k u hu hfam hid => hnone ⟨k, _, .inl ⟨u, hu, rfl⟩, hfam, hid⟩, ?_⟩
      exact fun k m hts hfam hid => hnone ⟨k, m, .inr hts, beq_iff_eq.1 hfam, hid⟩
  all_goals
    simp only [tokens]
    grind

theorem marked_revokeFamily (hfamily : familyID ≠ "") :
    Marked (s.revokeFamilyLocked familyID).tokens k m ↔
      Marked s.tokens k m ∧ m.familyID ≠ familyID :=
  (removes_revokeFamily hfamily).marked fun m => m.familyID = familyID

theorem prunes_revokeFamily (familyID : String) :
    Prunes now revoked s.tokens (s.revokeFamilyLocked familyID).tokens := by
  by_cases hfamily : familyID = ""
  · rw [revokeFamilyLocked, if_pos hfamily]
    exact .refl _
  · have haccess := (removes_revokeFamily (s := s) hfamily).access
    have hmarked : ∀ k m, _ ↔ _ := fun k m => marked_revokeFamily (s := s) (k := k) (m := m) hfamily
    refine .of_filter ?_ hmarked ?_ ?_
    · rw [revokeFamily_eq hfamily]
      refine Trims.trans ?_ (trims_removeTombstones _ _)
      exact trims_removeAll s fun s k _ => (trims_deleteRefresh s k).trans (trims_deleteAccess _ _)
    · grind [Pairs]
    · exact fun m hgone => .family (by grind)

/-! ### The tokens of an owner -/

/-- The loops over tokens of a revocation. -/
def OIDCStore.removeOwned (sel : OIDCStore.Selection) (s : OIDCStore) : OIDCStore :=
  let s := (OIDCStore.removeAccess sel.access (sel.accessKeys s) s).2
  let s := (OIDCStore.removeRefresh sel.refresh (sel.refreshKeys s) s).2
  OIDCStore.removeTombstones sel.tombstone s

theorem tokens_removeSelected (env : Env) (sel : OIDCStore.Selection) :
    (s.removeSelected env sel).2.tokens = (s.removeOwned sel).tokens := by
  simp [removeSelected, removeOwned]

/-- The selection is made by owner. -/
structure Picks (owned : String → String → Prop) (sel : OIDCStore.Selection) : Prop where
  access : ∀ s, Filed s.tokens → ∀ k t, s.accessTokens.get k = some t →
    ((k ∈ sel.accessKeys s → sel.access t = false) ↔ ¬ owned t.clientID t.subject)
  refresh : ∀ s, Filed s.tokens → ∀ k t, s.refreshTokens.get k = some t →
    ((k ∈ sel.refreshKeys s → sel.refresh t = false) ↔ ¬ owned t.clientID t.subject)
  tombstone : ∀ ts, sel.tombstone ts = false ↔ ¬ owned ts.clientID ts.subject

theorem trims_removeOwned (sel : OIDCStore.Selection) : Trims s.tokens (s.removeOwned sel).tokens :=
  ((trims_removeAccess _ _ _).trans (trims_removeRefresh _ _ _)).trans (trims_removeTombstones _ _)

/-- **Selects**: a selection is made by the owner, of a token and of a tombstone. -/
structure Selects (owned spent : String → String → Prop) (sel : OIDCStore.Selection) : Prop where
  access : ∀ s, Filed s.tokens → ∀ k t, s.accessTokens.get k = some t →
    ((k ∈ sel.accessKeys s → sel.access t = false) ↔ ¬ owned t.clientID t.subject)
  refresh : ∀ s, Filed s.tokens → ∀ k t, s.refreshTokens.get k = some t →
    ((k ∈ sel.refreshKeys s → sel.refresh t = false) ↔ ¬ owned t.clientID t.subject)
  tombstone : ∀ ts, sel.tombstone ts = false ↔ ¬ spent ts.clientID ts.subject

theorem Picks.selects
    (h : Picks owned sel) : Selects owned owned sel := ⟨h.access, h.refresh, h.tombstone⟩

/-- The tokens of an owner go, and the access tokens that tombstones of the owner name. -/
theorem removes_removeOwned {spent : String → String → Prop}
    (hsel : Selects owned spent sel) (hs : Filed s.tokens) :
    Removes (fun h t => owned t.clientID t.subject ∨ ∃ k m, s.tokens.refreshTombstones.get k = some m ∧
        spent m.clientID m.subject ∧ m.idHash = h)
      (fun _ t => owned t.clientID t.subject) (fun _ m => spent m.clientID m.subject) s.tokens
      (s.removeOwned sel).tokens := by
  obtain ⟨s₁, h₁⟩ : ∃ s₁, s₁ = (removeAccess sel.access (sel.accessKeys s) s).2 := ⟨_, rfl⟩
  obtain ⟨s₂, h₂⟩ : ∃ s₂, s₂ = (removeRefresh sel.refresh (sel.refreshKeys s₁) s₁).2 :=
    ⟨_, rfl⟩
  have hlast : s.removeOwned sel = removeTombstones sel.tombstone s₂ := by
    rw [h₂, h₁]
    rfl
  have hfiled : Filed s₁.tokens := (h₁ ▸ trims_removeAccess s _ _ : Trims s.tokens s₁.tokens).filed hs
  have haccess : ∀ h t, s₂.accessTokens.get h = some t ↔
      s.accessTokens.get h = some t ∧ ¬ owned t.clientID t.subject := by
    intro h t
    rw [h₂, accessTokens_removeRefresh, h₁]
    exact (get_removeAll deletesOne_access).trans (and_congr_right fun ht => hsel.access s hs h t ht)
  have hrefresh : ∀ k t, s₂.refreshTokens.get k = some t ↔
      s.refreshTokens.get k = some t ∧ ¬ owned t.clientID t.subject := by
    intro k t
    rw [h₂, show s.refreshTokens = s₁.refreshTokens by rw [h₁, refreshTokens_removeAccess]]
    exact (get_removeAll deletesOne_refresh).trans (and_congr_right fun ht => hsel.refresh s₁ hfiled k t ht)
  have hspent := hsel.tombstone
  refine ⟨?_, ?_, ?_⟩
  all_goals
    simp only [tokens]
    grind

theorem prunes_removeOwned (hsel : Picks owned sel) (hs : Filed s.tokens) :
    Prunes now revoked s.tokens (s.removeOwned sel).tokens := by
  have hremoves := removes_removeOwned hsel.selects hs
  have hmarked : ∀ k m, Marked (s.removeOwned sel).tokens k m ↔
      Marked s.tokens k m ∧ ¬ owned m.clientID m.subject := fun k m =>
    hremoves.marked fun m => owned m.clientID m.subject
  refine .of_filter (trims_removeOwned sel) hmarked ?_ fun m hgone => .owner ?_
  · -- the access token has the owner of its mark
    have haccess := hremoves.access
    grind [Pairs]
  · grind

theorem mem_bucket_filed {V : Type} {f : V → String} {rows : Dict String V} {ix : Index String String}
    (h : ix.Exact (fun v => filedUnder (f v)) rows) {v : V} (hv : rows.get k = some v) :
    k ∈ ix.bucket u ↔ f v ≠ "" ∧ f v = u := by
  rw [h k u, hv]
  simp [filedUnder_eq_some]

/-- The records of a grant: the empty subject has no bucket. -/
theorem selects_grantSelection (u c : String) :
    Selects (fun c' u' => u ≠ "" ∧ c' = c ∧ u' = u) (fun c' u' => c' = c ∧ u' = u)
      (grantSelection u c) where
  access s hs k t ht := by
    have hmem := mem_bucket_filed (u := u) hs.access ht
    simp only [grantSelection, tokens] at hmem ⊢
    grind
  refresh s hs k t ht := by
    have hmem := mem_bucket_filed (u := u) hs.refresh ht
    simp only [grantSelection, tokens] at hmem ⊢
    grind
  tombstone ts := by
    simp [grantSelection]
    grind

theorem picks_grantSelection {c : String} (hu : u ≠ "") :
    Picks (fun c' u' => c' = c ∧ u' = u) (grantSelection u c) := by
  obtain ⟨haccess, hrefresh, htombstone⟩ := selects_grantSelection u c
  simp only [hu, ne_eq, not_false_eq_true, true_and] at haccess hrefresh
  exact ⟨haccess, hrefresh, htombstone⟩

theorem picks_filterSelection {f : TokenFilter} :
    Picks (fun c u => f.matches c u = true) (filterSelection f) where
  access s hs k t ht := by
    refine ⟨fun h hm => ?_, fun h _ => eq_false_of_ne_true h⟩
    exact absurd (h (mem_keysLocked hs.access.covers ht hm)) (ne_false_of_eq_true hm)
  refresh s hs k t ht := by
    refine ⟨fun h hm => ?_, fun h _ => eq_false_of_ne_true h⟩
    exact absurd (h (mem_keysLocked hs.refresh.covers ht hm)) (ne_false_of_eq_true hm)
  tombstone ts := by simp [filterSelection]

theorem selects_noSubject (c : String) :
    Selects (fun _ _ => False) (fun c' u' => c' = c ∧ u' = "") (grantSelection "" c) := by
  simpa using selects_grantSelection "" c

@[simp] theorem tokens_bumpRevocationEpochs (c u : String) :
    (s.bumpRevocationEpochsLocked c u).tokens = s.tokens := by
  obtain ⟨_, heq⟩ := bumpRevocationEpochs_eq s c u
  rw [heq]
  rfl

theorem prunes_revokeGrant (env : Env) (hs : Filed s.tokens) (u c : String) :
    Prunes now revoked s.tokens (s.revokeGrant env u c).2.tokens := by
  rw [OIDCStore.revokeGrant]
  split_ifs with hempty
  · exact .refl _
  · obtain ⟨hu, -⟩ := not_or.1 hempty
    rw [tokens_removeSelected, ← tokens_bumpRevocationEpochs c u]
    rw [← tokens_bumpRevocationEpochs c u] at hs
    exact prunes_removeOwned (picks_grantSelection hu) hs

theorem prunes_revokeTokens (env : Env) (hs : Filed s.tokens) (f : TokenFilter) :
    Prunes now revoked s.tokens (s.revokeTokens env f).2.tokens := by
  rw [revokeTokens, tokens_removeSelected, ← tokens_bumpRevocationEpochs f.clientID f.subject]
  rw [← tokens_bumpRevocationEpochs f.clientID f.subject] at hs
  exact prunes_removeOwned picks_filterSelection hs

theorem terminateSession_eq_removeOwned (u c : String) (s : OIDCStore) :
    s.terminateSession u c = s.removeOwned (grantSelection u c) := by
  rfl

/-- Without a subject there is no bucket, and only tombstones go. -/
theorem prunes_terminateSession (hs : Filed s.tokens) (u c : String) :
    Prunes now revoked s.tokens (s.terminateSession u c).tokens := by
  by_cases hu : u = ""
  · rw [terminateSession_eq_removeOwned]
    have hremoves := removes_removeOwned (selects_noSubject c) hs
    obtain ⟨haccess, hrefresh, htombstone⟩ := hremoves
    refine ⟨trims_removeOwned _, ?_, fun k m hm => ?_⟩
    · unfold Marked
      grind [Pairs]
    · by_cases hsubject : m.subject = ""
      · exact .inr (.inl (.unowned hsubject))
      · unfold Marked at hm ⊢
        grind
  · exact prunes_removeOwned (picks_grantSelection hu) hs

/-! ### One token -/

theorem trims_forgetTombstones (s : OIDCStore) (h : String) : Trims s.tokens (s.forgetTombstones h).tokens :=
  trims_removeAll s fun s k _ => trims_deleteTombstone s k

@[simp, grind =] theorem accessTokens_forgetTombstones (s : OIDCStore) (h : String) :
    (s.forgetTombstones h).accessTokens = s.accessTokens :=
  table_removeAll s accessTokens fun _ _ _ => rfl

@[simp, grind =] theorem refreshTokens_forgetTombstones (s : OIDCStore) (h : String) :
    (s.forgetTombstones h).refreshTokens = s.refreshTokens :=
  table_removeAll s refreshTokens fun _ _ _ => rfl

@[grind =] theorem get_forgetTombstones {ts : RefreshTombstone} :
    (s.forgetTombstones h).refreshTombstones.get k = some ts ↔
      s.refreshTombstones.get k = some ts ∧ ts.idHash ≠ h := by
  refine (get_removeAll_keys deletesOne_tombstone).trans ?_
  rw [beq_eq_false_iff_ne]

/-- An access token goes by its hash, with what is paired with it. -/
theorem prunes_revokeByID (htrims : Trims s.tokens T) (haccess : T.accessTokens.get h = none)
    (hrows : ∀ k t, s.refreshTokens.get k = some t → t.idHash ≠ h → T.refreshTokens.get k = some t)
    (htombstones : ∀ k ts, s.refreshTombstones.get k = some ts → ts.idHash ≠ h →
      T.refreshTombstones.get k = some ts) : Prunes now (fun k m => k = h ∨ m.idHash = h) s.tokens T := by
  have hkept : ∀ k m, Marked s.tokens k m → m.idHash ≠ h → Marked T k m := by
    rintro k m (⟨t, ht, rfl⟩ | hts) hne
    · exact .inl ⟨t, hrows k t ht hne, rfl⟩
    · exact .inr (htombstones k m hts hne)
  refine ⟨htrims, ?_, ?_⟩ <;> grind [Pairs]

theorem prunes_revokeToken (env : Env) (hs : Tidy s.tokens) (token c : String) :
    Prunes now (fun k m => k = env.tokenHash token ∨ m.idHash = env.tokenHash token) s.tokens
      (s.revokeToken env token c).tokens := by
  -- a row the index finds under an id hash has that hash
  have hrow := hs.filed.byIDHash
  have hapart := hs.apart
  dsimp only [tokens] at hrow hapart
  have hindex : (s.deleteAccessLocked (env.tokenHash token)).refreshByIDHash = s.refreshByIDHash := by
    rw [deleteAccessLocked]
    split <;> rfl
  have hself : ∀ (s : OIDCStore) k, (s.deleteAccessLocked k).accessTokens.get k = none := fun s k =>
    eq_none_iff_forall_ne_some.2 fun _ ht => ((get_deleteAccess s k).1 ht).1 rfl
  have hforget := trims_forgetTombstones
  have haccess := trims_deleteAccess
  have hrefresh := trims_deleteRefresh
  rw [revokeToken]
  dsimp only
  split
  · split_ifs
    · exact .refl _
    · split
      · refine prunes_revokeByID ((haccess _ _).trans (hforget _ _)) ?_ ?_ ?_ <;> (dsimp only [tokens]; grind)
      · refine prunes_revokeByID (((haccess _ _).trans (hrefresh _ _)).trans (hforget _ _)) ?_ ?_ ?_ <;>
          (dsimp only [tokens]; grind)
  · split
    · split_ifs
      · exact .refl _
      · refine prunes_revokeByID (((hrefresh _ _).trans (haccess _ _)).trans (hforget _ _)) ?_ ?_ ?_ <;>
          (dsimp only [tokens]; grind)
    · split
      · exact .refl _
      · split_ifs
        · exact .refl _
        · -- by its value: the key has no tombstone beside the row
          refine ⟨((hrefresh _ _).trans (haccess _ _)).trans (trims_deleteTombstone _ _), ?_, ?_⟩ <;>
            (dsimp only [tokens, Marked]; grind [Pairs, RefreshToken.tombstone])

/-! ### Deadlines -/

/-- The tokens past their deadline go. -/
theorem removes_sweepExpired (env : Env) (now : Time) (s : OIDCStore) :
    Removes (fun _ t => t.expiresAt ≤ now) (fun _ t => t.expiresAt ≤ now) (fun _ m => m.expiresAt ≤ now)
      s.tokens (s.sweepExpired env now).2.tokens := by
  obtain ⟨s₀, h₀⟩ : ∃ s₀, s₀ = (removeAll codes (fun c => c.expiresAt < now)
      (fun s k _ => s.deleteCodeLocked k) (s.sweepRequests now).2.codes.keys (s.sweepRequests now).2).2 :=
    ⟨_, rfl⟩
  obtain ⟨s₁, h₁⟩ : ∃ s₁, s₁ =
      (removeAccess (fun t => ¬ now < t.expiresAt) s₀.accessTokens.keys s₀).2 := ⟨_, rfl⟩
  obtain ⟨s₂, h₂⟩ : ∃ s₂, s₂ =
      (removeRefresh (fun t => ¬ now < t.expiresAt) s₁.refreshTokens.keys s₁).2 := ⟨_, rfl⟩
  obtain ⟨s₃, h₃⟩ : ∃ s₃, s₃ = (removeAll refreshTombstones
      (fun ts => ¬ now < ts.expiresAt) (fun s k _ => s.deleteTombstone k) s₂.refreshTombstones.keys
      s₂).2 := ⟨_, rfl⟩
  have hlast : (s.sweepExpired env now).2.tokens = s₃.tokens := by
    rw [sweepExpired]
    rw [tokens_removeDevices, h₃, h₂, h₁, h₀]
  have hbefore : s₀.tokens = s.tokens := by
    rw [h₀]
    refine (table_removeAll _ tokens fun s k _ => tokens_deleteCode s k).trans ?_
    exact table_removeAll s tokens fun s id _ => tokens_deleteRequest s id
  -- each loop takes the records of one table
  have haccess : ∀ h t, s₁.accessTokens.get h = some t ↔ _ := fun h t =>
    h₁ ▸ get_removeAll_keys deletesOne_access
  have hrefresh : ∀ k t, s₂.refreshTokens.get k = some t ↔ _ := fun k t =>
    h₂ ▸ get_removeAll_keys deletesOne_refresh
  have htombstone : ∀ k m, s₃.refreshTombstones.get k = some m ↔ _ := fun k m =>
    h₃ ▸ get_removeAll_keys deletesOne_tombstone
  have hframe : s₃.accessTokens = s₂.accessTokens := by
    rw [h₃]
    exact table_removeAll s₂ accessTokens fun _ _ _ => rfl
  have hframe' : s₃.refreshTokens = s₂.refreshTokens := by
    rw [h₃]
    exact table_removeAll s₂ refreshTokens fun _ _ _ => rfl
  rw [hlast, ← hbefore]
  refine ⟨?_, ?_, ?_⟩
  all_goals
    simp only [tokens]
    grind

theorem prunes_sweepExpired (env : Env) : Prunes now revoked s.tokens (s.sweepExpired env now).2.tokens := by
  have hremoves := removes_sweepExpired env now s
  refine .of_filter Deletes.sweepExpired.trims (fun k m => hremoves.marked fun m => m.expiresAt ≤ now) ?_
    fun m hgone => .expired (not_not.1 hgone)
  rintro k m h t - hgone ht ⟨-, -, -, hle⟩
  exact ((hremoves.access h t).1 ht).2 (Int.le_trans hle (not_not.1 hgone))

end Methods

/-! ## Mints -/

section Mint

variable {T T' : TokenTables} {s s' : OIDCStore} {revoked : String → RefreshTombstone → Prop}
  {k key familyID : String} {m : RefreshTombstone} {t : RefreshToken} {env : Env}
  {draws : MintDraws} {now : Time} {request : TokenRequest} {current : String}
  {captured : Option RevocationEpochs}

theorem Prunes.marked {now : Time} (h : Prunes now revoked T T') (hm : Marked T' k m) : Marked T k m := by
  rcases hm with ⟨t, ht, rfl⟩ | hts
  · exact .inl ⟨t, h.refreshTokens k t ht, rfl⟩
  · exact .inr (h.refreshTombstones k m hts)

theorem Prunes.tidy {now : Time} (h : Prunes now revoked T T') (hT : Tidy T) : Tidy T' := by
  refine ⟨h.filed hT.filed, ?_, ?_, ?_⟩
  · intro k t ht
    have hnone := hT.apart k t (h.refreshTokens k t ht)
    refine eq_none_iff_forall_ne_some.2 fun ts hts => ?_
    exact absurd (hnone.symm.trans (h.refreshTombstones k ts hts)) nofun
  · intro h' t ht
    obtain ⟨k, m, hm, hpairs⟩ := hT.named h' t (h.accessTokens h' t ht)
    exact ⟨k, m, h.paired k m h' t hm ht hpairs, hpairs⟩
  · have hbounds := h.bounds
    have hlifetimes := hT.lifetimes
    simp only [TokenTables.bounds, Prod.mk.injEq] at hbounds
    grind

/-- **Spends**: the row under a key becomes its tombstone, and no mark changes. -/
structure Spends (key : String) (T T' : TokenTables) : Prop where
  row : T'.refreshTokens.get key = none
  marked : ∀ k m, Marked T' k m ↔ Marked T k m
  accessTokens : T'.accessTokens = T.accessTokens
  refreshTokens : T'.refreshTokens.Sub T.refreshTokens
  tidy : Tidy T'
  bounds : T'.bounds = T.bounds

theorem evictTombstone_eq {evict : ℕ} {spent : String}
    (hbound : s.refreshTombstones.size < s.maxTombstones) : s.evictTombstone evict spent = s := by
  rw [evictTombstone, if_neg]
  exact fun h => Nat.not_le.2 hbound h.2

/-- The claim of a mint on a live refresh token. -/
theorem spends_claim (hs : Tidy s.tokens) (ht : s.refreshTokens.get key = some t) :
    Spends key s.tokens
      ({ s with refreshTombstones := s.refreshTombstones.set key t.tombstone }.deleteRefreshLocked
        key).tokens := by
  obtain ⟨s₁, h₁⟩ : ∃ s₁ : OIDCStore,
    s₁ = { s with refreshTombstones := s.refreshTombstones.set key t.tombstone } := ⟨_, rfl⟩
  rw [← h₁]
  have hrows : ∀ k u, (s₁.deleteRefreshLocked key).refreshTokens.get k = some u ↔
      k ≠ key ∧ s.refreshTokens.get k = some u := by
    intro k u
    rw [get_deleteRefresh, h₁]
  have htombstones : ∀ k, (s₁.deleteRefreshLocked key).refreshTombstones.get k =
      if k = key then some t.tombstone else s.refreshTombstones.get k := by
    intro k
    rw [refreshTombstones_deleteRefresh, h₁]
    exact get_set _ _ _ _
  have haccess : (s₁.deleteRefreshLocked key).accessTokens = s.accessTokens := by
    rw [accessTokens_deleteRefresh, h₁]
  have htrims := trims_deleteRefresh s₁ key
  have hbounds : (s₁.deleteRefreshLocked key).tokens.bounds = s.tokens.bounds := by
    rw [htrims.bounds, h₁]
    rfl
  obtain ⟨hfiled, hapart, hnamed, hlifetimes⟩ := hs
  dsimp only [tokens] at hapart
  have hmarked : ∀ k m, Marked (s₁.deleteRefreshLocked key).tokens k m ↔ Marked s.tokens k m := by
    intro k m
    dsimp only [tokens, Marked]
    grind
  refine ⟨?_, hmarked, haccess, fun k u hu => ((hrows k u).1 hu).2, ⟨?_, ?_, ?_, ?_⟩, hbounds⟩
  · exact eq_none_iff_forall_ne_some.2 fun u hu => ((hrows key u).1 hu).1 rfl
  · refine htrims.filed ?_
    rw [h₁]
    exact ⟨hfiled.access, hfiled.refresh, hfiled.byIDHash⟩
  · dsimp only [tokens]
    grind
  · intro h a ha
    obtain ⟨k, m, hm, hpairs⟩ := hnamed h a ((congrArg (get · h) haccess).symm.trans ha)
    exact ⟨k, m, (hmarked k m).2 hm, hpairs⟩
  · simp only [TokenTables.bounds, Prod.mk.injEq] at hbounds
    grind

/-- **Gains**: a pair is stored. -/
structure Gains (h : String) (a : AccessToken) (key : String) (t : RefreshToken) (T T' : TokenTables) :
    Prop where
  marked : ∀ k m, Marked T' k m ↔ Marked T k m ∨ k = key ∧ t.tombstone = m
  accessTokens : T'.accessTokens = T.accessTokens.set h a
  refreshTombstones : T'.refreshTombstones = T.refreshTombstones
  tidy : Tidy T'
  bounds : T'.bounds = T.bounds

theorem exact_subjectAdd {V : Type} {f : V → String} {rows : Dict String V} {ix : Index String String}
    {v : V} (h : ix.Exact (fun v => filedUnder (f v)) rows)
    (hnew : rows.get key = none) :
    (subjectAdd ix (f v) key).Exact (fun v => filedUnder (f v)) (rows.set key v) := by
  rw [subjectAdd]
  split_ifs with hv
  · exact h.set hnew (if_pos hv)
  · exact h.set_add hnew (if_neg hv)

theorem gains_putPair {h : String} {a : AccessToken} (hs : Tidy s.tokens)
    (haccess : s.accessTokens.get h = none) (hmark : ∀ m, ¬ Marked s.tokens key m)
    (hpairs : Pairs t.tombstone h a) :
    Gains h a key t s.tokens ((s.putAccessLocked h a).putRefreshLocked key t).tokens := by
  have hrow : s.refreshTokens.get key = none :=
    eq_none_iff_forall_ne_some.2 fun u hu => hmark _ (.inl ⟨u, hu, rfl⟩)
  have htombstone : s.refreshTombstones.get key = none :=
    eq_none_iff_forall_ne_some.2 fun ts hts => hmark ts (.inr hts)
  have hmarked : ∀ k m, Marked ((s.putAccessLocked h a).putRefreshLocked key t).tokens k m ↔
      Marked s.tokens k m ∨ k = key ∧ t.tombstone = m := by
    intro k m
    dsimp only [tokens, Marked, putRefreshLocked, putAccessLocked]
    grind [get_set]
  obtain ⟨hfiled, hapart, hnamed, hlifetimes⟩ := hs
  refine ⟨hmarked, rfl, rfl, ⟨⟨exact_subjectAdd hfiled.access haccess, exact_subjectAdd hfiled.refresh hrow, ?_⟩,
    ?_, ?_, hlifetimes⟩, rfl⟩
  · have hid := hfiled.byIDHash
    dsimp only [tokens, putRefreshLocked, putAccessLocked] at hid ⊢
    grind [get_set]
  · dsimp only [tokens, putRefreshLocked, putAccessLocked] at hapart ⊢
    grind [get_set]
  · intro h' b hb
    obtain hb | ⟨rfl, rfl⟩ := get_of_get_set hb
    · obtain ⟨k, m, hm, hpairs⟩ := hnamed h' b hb
      exact ⟨k, m, (hmarked k m).2 (.inl hm), hpairs⟩
    · exact ⟨key, t.tombstone, (hmarked _ _).2 (.inr ⟨rfl, rfl⟩), hpairs⟩

/-- What a mint has claimed: nothing for a first generation, whose family is new, or the refresh token
that was presented, whose family goes on. -/
inductive Claimed (env : Env) (draws : MintDraws) (current : String) (T : TokenTables) :
    String → TokenTables → Prop
  | first (h : current = "") : Claimed env draws current T draws.familyID T
  | next {T' : TokenTables} {t : RefreshToken} (h : current ≠ "")
      (ht : T.refreshTokens.get (env.tokenHash current) = some t)
      (hspends : Spends (env.tokenHash current) T T') : Claimed env draws current T t.familyID T'

/-- **What a mint does** to the tables: a spent value takes its family down, a claim that finds its grant
revoked stores nothing, and one that succeeds stores a pair. -/
inductive MintStep (env : Env) (draws : MintDraws) (now : Time) (request : TokenRequest)
    (current : String) (T : TokenTables) : Except Err (String × String × Time) → TokenTables → Prop
  | replayed {T' : TokenTables} (h : current ≠ "")
      (hrow : T.refreshTokens.get (env.tokenHash current) = none)
      (hprunes : Prunes now (fun _ _ => False) T T')
      (hfamily : ∀ ts, T.refreshTombstones.get (env.tokenHash current) = some ts → ts.familyID ≠ "" →
        ∀ k m, Marked T' k m → m.familyID ≠ ts.familyID) :
      MintStep env draws now request current T (.error .refreshTokenSpent) T'
  | refused {T' : TokenTables} {familyID : String} (h : Claimed env draws current T familyID T') :
      MintStep env draws now request current T (.error .grantRevokedInFlight) T'
  | minted {T₁ T' : TokenTables} {familyID : String} {a : AccessToken} {t : RefreshToken}
      (h : Claimed env draws current T familyID T₁)
      (ht : t.tombstone = ⟨familyID, env.tokenHash draws.accessID, request.clientID, request.subject,
        now + T.refreshTTL⟩)
      (hgains : Gains (env.tokenHash draws.accessID) a (env.tokenHash draws.value) t T₁ T') :
      MintStep env draws now request current T (.ok (draws.accessID, draws.value, now + T.accessTTL)) T'

section

variable (h : Claimed env draws current T familyID T')
include h

theorem Claimed.tidy (hT : Tidy T) : Tidy T' := by
  cases h with
  | first => exact hT
  | next _ _ hspends => exact hspends.tidy

theorem Claimed.marked : Marked T' k m ↔ Marked T k m := by
  cases h with
  | first => rfl
  | next _ _ hspends => exact hspends.marked k m

theorem Claimed.accessTokens : T'.accessTokens = T.accessTokens := by
  cases h with
  | first => rfl
  | next _ _ hspends => exact hspends.accessTokens

theorem Claimed.bounds : T'.bounds = T.bounds := by
  cases h with
  | first => rfl
  | next _ _ hspends => exact hspends.bounds

/-- A tombstone stays where it is. -/
theorem Claimed.tombstone (hT : Tidy T) (hm : T.refreshTombstones.get k = some m) :
    T'.refreshTombstones.get k = some m := by
  cases h with
  | first => exact hm
  | next _ _ hspends =>
    obtain ⟨t, ht, -⟩ | hts := (hspends.marked k m).2 (.inr hm)
    · have hnone := hT.apart k t (hspends.refreshTokens k t ht)
      exact absurd (hnone.symm.trans hm) nofun
    · exact hts

end

section

variable (hs : Tidy s.tokens) (hbound : s.refreshTombstones.size < s.maxTombstones)
  (hfamilies : ∀ k t, s.refreshTokens.get k = some t → t.familyID ≠ "")
include hs hbound hfamilies

/-- The first half of a mint. -/
theorem mintFamily_step {x : Except Err String} (h : s.mintFamily env draws current = (x, s')) :
    (∃ familyID, x = .ok familyID ∧ Claimed env draws current s.tokens familyID s'.tokens) ∨
      x = .error .refreshTokenSpent ∧ current ≠ "" ∧
        s.refreshTokens.get (env.tokenHash current) = none ∧
        (s' = s ∧ s.refreshTombstones.get (env.tokenHash current) = none ∨
          ∃ ts, s.refreshTombstones.get (env.tokenHash current) = some ts ∧
            s' = s.revokeFamilyLocked ts.familyID) := by
  rw [mintFamily] at h
  split_ifs at h with hcurrent
  · cases h
    exact .inl ⟨_, rfl, .first hcurrent⟩
  · rw [OIDCStore.claimRefresh] at h
    split at h
    · rename_i hrow
      split at h
      · rename_i hts
        cases h
        exact .inr ⟨rfl, hcurrent, hrow, .inl ⟨rfl, hts⟩⟩
      · rename_i ts hts
        cases h
        exact .inr ⟨rfl, hcurrent, hrow, .inr ⟨ts, hts, rfl⟩⟩
    · rename_i t ht
      rw [evictTombstone_eq hbound, if_neg (hfamilies _ t ht)] at h
      cases h
      exact .inl ⟨_, rfl, .next hcurrent ht (spends_claim hs ht)⟩

theorem mint_step {r : Except Err (String × String × Time)}
    (haccess : s.accessTokens.get (env.tokenHash draws.accessID) = none)
    (hmark : ∀ m, ¬ Marked s.tokens (env.tokenHash draws.value) m)
    (h : s.createAccessAndRefreshTokens env draws now request captured current = (r, s')) :
    MintStep env draws now request current s.tokens r s'.tokens := by
  rw [createAccessAndRefreshTokens] at h
  rcases hfamily : s.mintFamily env draws current with ⟨x, s₁⟩
  simp only [hfamily] at h
  obtain ⟨familyID, rfl, hclaimed⟩ | ⟨rfl, hcurrent, hrow, hrest⟩ :=
    mintFamily_step hs hbound hfamilies hfamily
  · dsimp only at h
    split_ifs at h
    · cases h
      obtain ⟨-, -, hrttl⟩ := Prod.ext_iff.1 hclaimed.bounds |>.imp_right Prod.ext_iff.1
      refine .minted (a := s.mintedAccess draws now request)
        (t := s₁.mintedRefresh env draws now request familyID) hclaimed ?_ ?_
      · rw [← show s₁.tokens.refreshTTL = s.tokens.refreshTTL from hrttl]
        rfl
      · refine gains_putPair (hclaimed.tidy hs) ?_ (fun m hm => hmark m (hclaimed.marked.1 hm)) ?_
        · rw [show s₁.accessTokens = s.accessTokens from hclaimed.accessTokens]
          exact haccess
        · refine ⟨rfl, rfl, rfl, ?_⟩
          show now + s.accessTTL ≤ now + s₁.refreshTTL
          rw [show s₁.refreshTTL = s.refreshTTL from hrttl]
          exact Int.add_le_add_left hs.lifetimes now
    · cases h
      exact .refused hclaimed
  · cases h
    obtain ⟨rfl, hts⟩ | ⟨ts, hts, rfl⟩ := hrest
    · refine .replayed hcurrent hrow (.refl _) fun ts hts' => ?_
      cases hts.symm.trans hts'
    · refine .replayed hcurrent hrow (prunes_revokeFamily _) fun ts' hts' hne k m hm => ?_
      obtain rfl : ts = ts' := some.inj (hts.symm.trans hts')
      exact ((marked_revokeFamily hne).1 hm).2

end

end Mint

end Re0Auth.Memory

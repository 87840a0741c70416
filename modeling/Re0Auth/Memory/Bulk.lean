import Re0Auth.Memory.Indexes

/-!
# Bulk revocation in the in-memory store

`RevokeTokens` walks the indexes by subject, deletes from them as it goes, and takes some access tokens
along with their tombstones. What it leaves is what a scan of every table would leave.

* **`OIDCStore.fullScan`**: the specification, one filter for each table;
* **`removeAll_congr`**: two tests that agree on the records a loop meets make the same loop;
* **`bulk_revocation`**: every filter, in every state the methods lead to.
-/

namespace Re0Auth.Memory

open Lib OAuth Oidc OIDCStore Dict

/-- **A full scan**: every record the filter matches goes, and a code goes with its request. -/
def OIDCStore.fullScan (f : TokenFilter) (s : OIDCStore) : OIDCStore :=
  { s with
    accessTokens := s.accessTokens.filter fun _ t => !f.matches t.clientID t.subject
    refreshTokens := s.refreshTokens.filter fun _ t => !f.matches t.clientID t.subject
    refreshTombstones := s.refreshTombstones.filter fun _ m => !f.matches m.clientID m.subject
    authRequests := s.authRequests.filter fun _ a => !f.matches a.clientID a.subject
    codes := s.codes.filter fun _ c =>
      !(s.authRequests.get c.requestID).any fun a => f.matches a.clientID a.subject
    devices := s.devices.filter fun _ d => !f.matches d.clientID d.subject }

/-- The number of access and of refresh tokens the filter matches. -/
def OIDCStore.matching (f : TokenFilter) (s : OIDCStore) : ℕ :=
  (s.accessTokens.filter fun _ t => f.matches t.clientID t.subject).size +
    (s.refreshTokens.filter fun _ t => f.matches t.clientID t.subject).size

/-- Two stores hold the same records. -/
structure SameRecords (s s' : OIDCStore) : Prop where
  accessTokens : s.accessTokens.get = s'.accessTokens.get
  refreshTokens : s.refreshTokens.get = s'.refreshTokens.get
  refreshTombstones : s.refreshTombstones.get = s'.refreshTombstones.get
  authRequests : s.authRequests.get = s'.authRequests.get
  codes : s.codes.get = s'.codes.get
  devices : s.devices.get = s'.devices.get

section Loops

variable {V : Type} {rows : OIDCStore → Dict String V} {p q : V → Bool}
  {del : OIDCStore → String → V → OIDCStore} {keys : List String} {s : OIDCStore}

theorem removeAll_congr (hdel : DeletesOne rows del)
    (h : ∀ k ∈ keys, ∀ v, (rows s).get k = some v → p v = q v) :
    removeAll rows p del keys s = removeAll rows q del keys s := by
  induction keys generalizing s with
  | nil => rfl
  | cons k keys ih =>
    have hrest := fun k' hk' => h k' (List.mem_cons_of_mem k hk')
    rw [removeAll, removeAll]
    cases hv : (rows s).get k with
    | none => exact ih hrest
    | some v =>
      dsimp only
      rw [h k List.mem_cons_self v hv, ih hrest,
        ih fun k' hk' v' hv' => hrest k' hk' v' ((hdel s k v k' v').1 hv').2]

theorem removeAll_sublist : (removeAll rows p del keys s).1.Sublist keys := by
  induction keys generalizing s with
  | nil => exact .slnil
  | cons k keys ih =>
    rw [removeAll]
    split
    · exact ih.cons k
    · split
      · exact ih.cons_cons k
      · exact ih.cons k

/-- A loop over keys without repetition counts every record that passes its test once. -/
theorem length_removeAll (hdel : DeletesOne rows del) (hnodup : keys.Nodup)
    (hkeys : ∀ k v, (rows s).get k = some v → p v = true → k ∈ keys) :
    (removeAll rows p del keys s).1.length = ((rows s).filter fun _ v => p v).size := by
  have hperm : (removeAll rows p del keys s).1.Perm ((rows s).filter fun _ v => p v).keys := by
    refine (List.perm_ext_iff_of_nodup (hnodup.sublist removeAll_sublist) (AList.keys_nodup _)).2 fun k => ?_
    rw [mem_removeAll hdel, mem_keys_iff]
    simp only [get_filter_eq_some]
    exact ⟨And.right, fun ⟨v, hv, hp⟩ => ⟨hkeys k v hv hp, v, hv, hp⟩⟩
  rw [hperm.length_eq, size, AList.keys, List.keys, List.length_map]

end Loops

variable {env : Env} {opts : OIDCOptions} {s : OIDCStore} {sh sh₀ : Shared} {f : TokenFilter}
  {drawn : List String} {c u : String}

/-- The device authorizations a selection leaves. -/
theorem get_devices_removeSelected (env : Env) (s : OIDCStore) (sel : OIDCStore.Selection) {k : String}
    {d : DeviceRecord} :
    (s.removeSelected env sel).2.devices.get k = some d ↔
      s.devices.get k = some d ∧ sel.device d = false := by
  -- the loops before leave the table alone
  have howned : (s.removeOwned sel).waiting = s.waiting :=
    (table_removeAll _ waiting fun s k ts => waiting_deleteAccess (s.deleteTombstone k) _).trans
      ((table_removeAll _ waiting fun s k _ => waiting_deleteRefresh s k).trans
        (table_removeAll s waiting fun s k _ => waiting_deleteAccess s k))
  obtain ⟨s₁, h₁⟩ : ∃ s₁, s₁ = (removeRequests sel.request (sel.requestKeys (s.removeOwned sel))
      (s.removeOwned sel)).2 := ⟨_, rfl⟩
  have hrequests : s₁.waiting = s.waiting := by
    rw [h₁]
    exact ((table_foldl_deleteCodes _ waiting waiting_deleteCodes _ _).trans
      (table_removeAll _ waiting fun s id _ => waiting_deleteRequest s id)).trans howned
  rw [show (s.removeSelected env sel).2 = (removeDevices env sel.device s₁).2 by rw [h₁]; rfl,
    ← show s₁.devices = s.devices from congrArg DeviceTables.devices hrequests]
  exact get_removeAll_keys (deletesOne_device env)

/-- What the loops of a filter leave. -/
theorem sameRecords_removeSelected (hs : Orderly env drawn s) :
    SameRecords (s.removeSelected env (filterSelection f)).2 (s.fullScan f) := by
  obtain ⟨s', h'⟩ : ∃ s', s' = (s.removeSelected env (filterSelection f)).2 := ⟨_, rfl⟩
  have hdel : Deletes env s s' := h' ▸ Deletes.refl.removeSelected _
  have hremoves := removes_removeOwned (picks_filterSelection (f := f)).selects hs.issued.filed
  rw [← tokens_removeSelected env, ← h'] at hremoves
  have hpurges := purges_removeSelected hs (chosen_filterSelection (f := f))
  have hdevices := fun k d => get_devices_removeSelected env s (filterSelection f) (k := k) (d := d)
  -- an access token a tombstone of the filter takes along is the filter's
  have hpaired := fun h t k m ht hm hid => hs.issued.signed h t k m ht (.inr hm) hid
  have hdeadline := (@Awaited.pending_of_request _ _ · (hdel.orderly hs).awaited)
  have hdeadline' := (@Awaited.pending_of_request _ _ · hs.awaited)
  obtain ⟨haccess, hrefresh, htombstone⟩ := hremoves
  obtain ⟨hrequest, hcode, -⟩ := hpurges
  simp only [tokens, pending, Pending, Pairs] at *
  constructor <;> funext k <;> ext v <;> simp only [fullScan, get_filter_eq_some]
  case accessTokens => grind
  case refreshTokens => grind
  case refreshTombstones => grind
  case authRequests => grind
  case codes =>
    rw [hcode, Bool.not_eq_true', Option.any_eq_false]
    grind
  case devices => exact (hdevices k v).trans (by simp [filterSelection])

/-- The records of a store after a revocation in bulk. -/
theorem sameRecords_revokeTokens (hs : Orderly env drawn s) :
    SameRecords (s.revokeTokens env f).2 (s.fullScan f) := by
  have hbump := hs.bump f.clientID f.subject
  obtain ⟨epochs, heq⟩ := bumpRevocationEpochs_eq s f.clientID f.subject
  rw [heq] at hbump
  rw [revokeTokens, heq]
  obtain ⟨h₁, h₂, h₃, h₄, h₅, h₆⟩ := sameRecords_removeSelected (f := f) hbump
  exact ⟨h₁, h₂, h₃, h₄, h₅, h₆⟩

/-- Each token is counted once. -/
theorem count_revokeTokens (hs : Orderly env drawn s) : (s.revokeTokens env f).1 = s.matching f := by
  have hnodup : ∀ {V : Type} (rows : Dict String V) (ix : Index String String),
      (if f.subject = "" then rows.keys else ix.bucket f.subject).Nodup := by
    intro V rows ix
    split <;> exact AList.keys_nodup _
  have hcount : ∀ {s : OIDCStore}, Filed s.tokens →
      (s.removeSelected env (filterSelection f)).1 = s.matching f := by
    intro s hs
    obtain ⟨s₁, h₁⟩ : ∃ s₁, s₁ = (removeAccess (filterSelection f).access
        (s.accessKeysLocked f.subject) s).2 := ⟨_, rfl⟩
    have hrows : s₁.refreshTokens = s.refreshTokens := by rw [h₁, refreshTokens_removeAccess]
    have hs₁ : Filed s₁.tokens := (h₁ ▸ trims_removeAccess s _ _ : Trims s.tokens s₁.tokens).filed hs
    have haccess := length_removeAll (p := (filterSelection f).access) deletesOne_access
      (hnodup s.accessTokens s.accessBySubject) fun k t ht hm => mem_keysLocked hs.access.covers ht hm
    have hrefresh := length_removeAll (p := (filterSelection f).refresh) deletesOne_refresh
      (hnodup s₁.refreshTokens s₁.refreshBySubject) fun k t ht hm => mem_keysLocked hs₁.refresh.covers ht hm
    subst h₁
    exact congrArg₂ (· + ·) haccess (hrefresh.trans (congrArg (fun rows : Dict String RefreshToken =>
      (rows.filter fun _ t => f.matches t.clientID t.subject).size) hrows))
  have hfiled : Filed (s.bumpRevocationEpochsLocked f.clientID f.subject).tokens :=
    (hs.bump f.clientID f.subject).issued.filed
  refine (hcount hfiled).trans ?_
  obtain ⟨epochs, heq⟩ := bumpRevocationEpochs_eq s f.clientID f.subject
  rw [heq]
  rfl

/-- What is in the bucket of a subject is the subject's. -/
theorem removeAll_bucket {V : Type} {rows : OIDCStore → Dict String V} (client : V → String) {subject : V → String}
    {del : OIDCStore → String → V → OIDCStore} {ix : Index String String} (hc : c ≠ "")
    (hu : u ≠ "") (hdel : DeletesOne rows del) (hix : ix.Exact (fun v => filedUnder (subject v)) (rows s)) :
    removeAll rows (fun v => TokenFilter.matches ⟨c, u⟩ (client v) (subject v)) del (ix.bucket u) s =
      removeAll rows (client · == c) del (ix.bucket u) s := by
  refine removeAll_congr hdel fun k hk v hv => ?_
  rw [matches_pair hc hu, ((mem_bucket_filed hix hv).1 hk).2, beq_self_eq_true, Bool.and_true]

/-- The loops of the filter for a grant are the loops of the grant. -/
theorem removeSelected_grant (hs : Orderly env drawn s) (hc : c ≠ "")
    (hu : u ≠ "") : s.removeSelected env (filterSelection ⟨c, u⟩) =
      s.removeSelected env (grantSelection u c) := by
  have htombstone : (filterSelection ⟨c, u⟩).tombstone = (grantSelection u c).tombstone := by
    funext m
    exact (matches_pair hc hu _ _).trans (Bool.and_comm _ _)
  have hdevice : (filterSelection ⟨c, u⟩).device = (grantSelection u c).device := by
    funext d
    exact matches_pair hc hu _ _
  obtain ⟨s₁, h₁⟩ : ∃ s₁, s₁ = (removeAccess (·.clientID == c) (s.accessBySubject.bucket u) s).2 :=
    ⟨_, rfl⟩
  obtain ⟨s₂, h₂⟩ : ∃ s₂, s₂ = (removeRefresh (·.clientID == c) (s₁.refreshBySubject.bucket u)
      s₁).2 := ⟨_, rfl⟩
  obtain ⟨s₃, h₃⟩ : ∃ s₃, s₃ = removeTombstones (fun m => m.subject == u && m.clientID == c) s₂ :=
    ⟨_, rfl⟩
  have hs₁ : Orderly env drawn s₁ := (h₁ ▸ Deletes.refl.removeAccess _ _ : Deletes env s s₁).orderly hs
  have hs₃ : Orderly env drawn s₃ :=
    (h₃ ▸ h₂ ▸ (Deletes.refl.removeRefresh _ _).removeTombstones _ : Deletes env s₁ s₃).orderly hs₁
  have haccess := removeAll_bucket AccessToken.clientID hc hu deletesOne_access hs.issued.filed.access
  have hrefresh := removeAll_bucket RefreshToken.clientID hc hu deletesOne_refresh hs₁.issued.filed.refresh
  have hrequests := removeAll_bucket AuthRequest.clientID hc hu deletesOne_request hs₃.awaited.request
  subst h₃ h₂ h₁
  rw [removeSelected, removeSelected, htombstone, hdevice]
  simp only [filterSelection, grantSelection, accessKeysLocked,
    refreshKeysLocked, requestKeysLocked, if_neg hu, removeAccess,
    removeRefresh, removeRequests, tokens, pending] at *
  rw [haccess, hrefresh, hrequests]

/-- **Bulk revocation** leaves the records a full scan would leave and counts the tokens that went. A
`RevokeGrant` for a subject and a client leaves the store as the filter for both does; without one of them
it is refused and writes nothing. -/
theorem bulk_revocation {run : List (Method × Choice)} (hstart : sh₀.store = newOIDCStore opts)
    (hrun : runAll env run sh₀ = some sh) :
    (∀ f, SameRecords (sh.store.revokeTokens env f).2 (sh.store.fullScan f) ∧
      (sh.store.revokeTokens env f).1 = sh.store.matching f) ∧
    ∀ u c, (u ≠ "" → c ≠ "" →
        (sh.store.revokeGrant env u c).2 = (sh.store.revokeTokens env ⟨c, u⟩).2) ∧
      (u = "" ∨ c = "" → (∃ e, (sh.store.revokeGrant env u c).1 = .error e) ∧
        (sh.store.revokeGrant env u c).2 = sh.store) := by
  have hs : Orderly env sh.drawn sh.store := ((kept_start env hstart).run hrun).orderly
  refine ⟨fun f => ⟨sameRecords_revokeTokens hs, count_revokeTokens hs⟩, fun u c => ⟨fun hu hc => ?_, ?_⟩⟩
  · rw [OIDCStore.revokeGrant, if_neg (by simp [hu, hc]), revokeTokens,
      removeSelected_grant (hs.bump c u) hc hu]
  · intro hempty
    rw [OIDCStore.revokeGrant, if_pos hempty]
    exact ⟨⟨_, rfl⟩, rfl⟩

theorem bulk_revocation_busy : ∃ sh, runAll sampleEnv busyRun sweepStart = some sh ∧
    sh.store.accessTokens.size = 2 ∧ (sh.store.revokeTokens sampleEnv ⟨"c", "s"⟩).1 = sh.store.matching ⟨"c", "s"⟩ ∧
    (sh.store.revokeGrant sampleEnv "s" "c").2 = (sh.store.revokeTokens sampleEnv ⟨"c", "s"⟩).2 := by
  have hsh : runAll sampleEnv busyRun sweepStart = some _ := rfl
  obtain ⟨hscan, hgrant⟩ := bulk_revocation rfl hsh
  exact ⟨_, hsh, by decide, (hscan _).2, (hgrant "s" "c").1 (by decide) (by decide)⟩

/-- Without a subject `RevokeGrant` leaves what the filter for the client takes. -/
theorem grant_without_subject : ∃ sh, runAll sampleEnv busyRun sweepStart = some sh ∧
    (sh.store.revokeGrant sampleEnv "" "c").2.accessTokens.size = 2 ∧
    (sh.store.revokeTokens sampleEnv ⟨"c", ""⟩).2.accessTokens.size = 0 := by
  exact ⟨_, rfl, by decide, by decide⟩

end Re0Auth.Memory

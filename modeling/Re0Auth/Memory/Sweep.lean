import Re0Auth.Memory.Live
import Re0Auth.Memory.Lookups

/-!
# A sweep does not show

`SweepExpired` at some point of a run, against the same run without it.

* **`Shadow`**: the state with the sweep beside the one without;
* **`Undisturbed`**: the steps that do not read a record past its deadline as if it were live, and do not
  run into a bound;
* **`sweep_invisible`**: after such steps the two states answer alike.

A code outlives its request: `SaveAuthCode` gives it a deadline of its own. `AuthRequestByCode` judges the
code's deadline only, so that it answers with a request that is past its own, unless a sweep has taken
the request (**`sweep_seen`**).
-/

namespace Re0Auth.Memory

open Lib OAuth Oidc OIDCStore List Option

variable {env : Env} {t₀ : Time} {sh sh' sh₁ sh₁' : Shared} {ω : Choice} {s₁ s₁' s s' : OIDCStore}
  {drawn : List String} {u id : String}

/-- **Alike**: the second state is the first without what had expired at a time. -/
structure Alike (t₀ : Time) (sh sh' : Shared) : Prop where
  tokens : Keeps t₀ sh.store.tokens sh'.store.tokens
  pending : Awaits t₀ sh.drawn sh.store.pending sh'.store.pending
  clients : sh'.clients = sh.clients
  now : sh'.now = sh.now
  drawn : sh'.drawn = sh.drawn
  passed : t₀ ≤ sh.now

/-- **Shadow**: the two states are alike and orderly. -/
structure Shadow (env : Env) (t₀ : Time) (sh sh' : Shared) : Prop extends Alike t₀ sh sh' where
  orderly : Orderly env sh.drawn sh.store
  orderly' : Orderly env sh.drawn sh'.store

/-- A code that is live has no request past its deadline. -/
def Timely (env : Env) (now : Time) (code : String) (s : OIDCStore) : Prop :=
  ∀ c a e, s.codes.get (env.tokenHash code) = some c → now < c.expiresAt →
    Pending s.pending c.requestID a e → now ≤ e

/-- **Undisturbed**: the method finds nothing past its deadline that it would take for live, and there is
room for what it stores. -/
def Undisturbed (env : Env) (sh : Shared) : Method → Prop
  | .step (.createAuthRequest _ _) => sh.store.authRequests.size < sh.store.maxPendingAuthRequests
  | .step (.authRequestByCode code) => Timely env sh.now code sh.store
  | .step (.createAccessAndRefreshTokens _ _ current) => ClaimLive env sh.now current sh.store
  | .step (.revokeToken token _) => TargetLive sh.now (env.tokenHash token) sh.store
  | _ => True

/-- Every step of the run is undisturbed. -/
def Guarded (env : Env) : List (Method × Choice) → Shared → Prop
  | [], _ => True
  | (m, ω) :: rest, sh =>
    Undisturbed env sh m ∧ ∀ sh', m.exec env ω sh = some sh' → Guarded env rest sh'

/-! ## Steps -/

/-- A step on the store, in both. -/
theorem Alike.onStore (h : Alike t₀ sh sh') (htokens : Keeps t₀ s₁.tokens s₁'.tokens)
    (hpending : Awaits t₀ sh.drawn s₁.pending s₁'.pending) :
    Alike t₀ { sh with store := s₁ } { sh' with store := s₁' } :=
  ⟨htokens, hpending, h.clients, h.now, h.drawn, h.passed⟩

/-- A step on the devices, in both. -/
theorem Alike.devices (h : Alike t₀ sh sh') (hdev : OnlyDevices sh.store s₁)
    (hdev' : OnlyDevices sh'.store s₁') : Alike t₀ { sh with store := s₁ } { sh' with store := s₁' } := by
  obtain ⟨d, u, rfl⟩ := hdev
  obtain ⟨d', u', rfl⟩ := hdev'
  exact h.onStore h.tokens h.pending

/-- More values are drawn. -/
theorem Alike.draw (h : Alike t₀ sh sh') (vs : List String) :
    Alike t₀ { sh with drawn := vs ++ sh.drawn } { sh' with drawn := vs ++ sh'.drawn } :=
  ⟨h.tokens, h.pending.mono fun _ hv => mem_append_right _ hv, h.clients, h.now,
    congrArg (vs ++ ·) h.drawn, h.passed⟩

theorem Alike.epochs (h : Alike t₀ sh sh') : sh'.store.revocationEpochs = sh.store.revocationEpochs :=
  (Prod.ext_iff.1 h.pending.bounds).1

/-- The generations agree in stores whose counters do. -/
theorem epochsLocked_congr (h : s'.revocationEpochs = s.revocationEpochs)
    (c u : String) : s'.revocationEpochsLocked c u = s.revocationEpochsLocked c u := by
  simp only [revocationEpochsLocked, epoch, h]

/-- A step that draws goes the same way in both, if what it does with the values does. -/
theorem drawing_alike {α : Type} {n : ℕ} {k : List String → Shared → Except Err α × Shared}
    {r : Except Err α} (h : Alike t₀ sh sh') (hex : sh.drawing ω n k = some (r, sh₁))
    (hk : ∀ vs, vs.length = n → sh.Fresh vs → Alike t₀ (k vs { sh with drawn := vs ++ sh.drawn }).2
      (k vs { sh' with drawn := vs ++ sh'.drawn }).2) :
    ∃ r' sh₁', sh'.drawing ω n k = some (r', sh₁') ∧ Alike t₀ sh₁ sh₁' := by
  rw [Shared.drawing] at hex ⊢
  cases hvs : ω.values with
  | none =>
    rw [hvs] at hex
    cases hex
    exact ⟨_, _, rfl, h⟩
  | some vs =>
    simp only [hvs] at hex ⊢
    split_ifs at hex with hfresh
    have hfresh' : sh'.Fresh vs := by
      rw [Shared.Fresh, h.drawn]
      exact hfresh.2
    rw [if_pos ⟨hfresh.1, hfresh'⟩]
    have halike := hk vs hfresh.1 hfresh.2
    rw [some.inj hex] at halike
    exact ⟨_, _, rfl, halike⟩

/-- What a lookup finds live is the same in both. -/
theorem filter_live {V : Type} {deadline : V → Time} {k : String} {p : V → Bool} (m m' : Dict String V)
    (h : ∀ k r, m'.get k = some r ↔ m.get k = some r ∧ t₀ < deadline r)
    (hp : ∀ r, p r = true → t₀ < deadline r) : (m'.get k).filter p = (m.get k).filter p := by
  ext r
  rw [filter_eq_some_iff, filter_eq_some_iff]
  exact and_congr_left fun hr => (h k r).trans (and_iff_left (hp r hr))

/-- What `AuthRequestByCode` comes down to. -/
theorem authRequestByCode_cases (env : Env) (now : Time) (code : String) (s : OIDCStore) :
    (∃ c a, s.codes.get (env.tokenHash code) = some c ∧ now < c.expiresAt ∧
      s.authRequests.get c.requestID = some a ∧
      s.authRequestByCode env now code = (.ok (a, s.revocationEpochsLocked a.clientID a.subject),
        (s.deleteCodeLocked (env.tokenHash code)).deleteRequestLocked c.requestID)) ∨
    (∀ c, s.codes.get (env.tokenHash code) = some c → now < c.expiresAt →
      s.authRequests.get c.requestID = none) ∧
      ∃ text, s.authRequestByCode env now code = (.error (.new text), s) := by
  rw [authRequestByCode]
  split
  · rename_i hnone
    refine .inr ⟨fun c hc hlive => ?_, _, rfl⟩
    rw [hc, filter_some, if_pos (decide_eq_true hlive)] at hnone
    cases hnone
  · rename_i c hsome
    obtain ⟨hc, hlive⟩ := filter_eq_some_iff.1 hsome
    have hlive : now < c.expiresAt := of_decide_eq_true hlive
    split
    · rename_i hnone
      refine .inr ⟨fun c' hc' _ => ?_, _, rfl⟩
      cases hc.symm.trans hc'
      exact hnone
    · rename_i a ha
      exact .inl ⟨c, a, hc, hlive, ha, rfl⟩

namespace Shadow

variable (h : Shadow env t₀ sh sh')

include h

theorem awaited' : Awaited sh.drawn sh'.store.pending := h.orderly'.awaited

/-- The request a code is redeemed for. -/
theorem authRequestByCode {code : String} (htimely : Timely env sh.now code sh.store) :
    Awaits t₀ sh.drawn (sh.store.authRequestByCode env sh.now code).2.pending
        (sh'.store.authRequestByCode env sh.now code).2.pending ∧
      ((sh'.store.authRequestByCode env sh.now code).1 = (sh.store.authRequestByCode env sh.now code).1 ∨
        (∃ text, (sh.store.authRequestByCode env sh.now code).1 = .error (.new text)) ∧
          ∃ text, (sh'.store.authRequestByCode env sh.now code).1 = .error (.new text)) := by
  have hlater : ∀ {e : Time}, (sh.now : Time) ≤ e → t₀ ≤ e := fun he => Int.le_trans h.passed he
  obtain ⟨c, a, hc, hlive, ha, heq⟩ | ⟨hnone, text, heq⟩ :=
    authRequestByCode_cases env sh.now code sh.store
  · -- the code is live, so its request has not been swept
    obtain ⟨e, hp⟩ := h.orderly.awaited.pending_of_request ha
    have hp' := (h.pending.request c.requestID a e).2 ⟨hp, hlater (htimely c a e hc hlive hp)⟩
    have hc' := h.pending.code _ c hc (hlater (Int.le_of_lt hlive))
    obtain ⟨c', a', hc'', -, ha', heq'⟩ | ⟨hnone, -⟩ :=
      authRequestByCode_cases env sh.now code sh'.store
    · cases hc'.symm.trans hc''
      cases hp'.1.symm.trans ha'
      rw [heq, heq']
      refine ⟨h.pending.purges_same ?_ (purges_redeemed h.orderly _ _) (purges_redeemed h.orderly' _ _), ?_⟩
      · exact (((Deletes.refl.code _).request _ : Deletes env sh'.store _)).shrinksTo.authRequests
      · exact .inl (by rw [epochsLocked_congr h.epochs])
    · exact absurd ((hnone c hc' hlive).symm.trans hp'.1) nofun
  · obtain ⟨c', a', hc', hlive', ha', -⟩ | ⟨-, text', heq'⟩ :=
      authRequestByCode_cases env sh.now code sh'.store
    · -- a code the first has lost has no request
      obtain hc | ⟨hgone, -⟩ := h.pending.stray _ c' hc'
      · have ha := h.pending.sub_authRequests h.awaited' _ a' ha'
        exact absurd ((hnone c' hc hlive').symm.trans ha) nofun
      · exact absurd (hgone.symm.trans ha') nofun
    · rw [heq, heq']
      exact ⟨h.pending, .inr ⟨⟨text, rfl⟩, text', rfl⟩⟩

/-- The refresh token a value is looked up as. -/
theorem tokenRequestByRefreshToken (value : String) :
    (sh'.store.tokenRequestByRefreshToken env sh.now value).1 =
        (sh.store.tokenRequestByRefreshToken env sh.now value).1 ∧
      Keeps t₀ (sh.store.tokenRequestByRefreshToken env sh.now value).2.tokens
        (sh'.store.tokenRequestByRefreshToken env sh.now value).2.tokens := by
  have hlater : ∀ {e : Time}, decide ((sh.now : Time) < e) = true → t₀ < e := fun he =>
    Int.lt_of_le_of_lt h.passed (of_decide_eq_true he)
  rw [OIDCStore.tokenRequestByRefreshToken, OIDCStore.tokenRequestByRefreshToken,
    filter_live sh.store.refreshTokens sh'.store.refreshTokens h.tokens.refresh fun _ => hlater,
    filter_live sh.store.refreshTombstones sh'.store.refreshTombstones h.tokens.tombstone fun _ => hlater]
  split
  · exact ⟨by rw [epochsLocked_congr h.epochs], h.tokens⟩
  · split
    · exact ⟨rfl, h.tokens.revokeFamily h.orderly.issued _⟩
    · exact ⟨rfl, h.tokens⟩

/-- A mint of a pair. -/
theorem mint {current : String} (hlive : ClaimLive env sh.now current sh.store) (draws : MintDraws)
    (request : TokenRequest) (captured : Option RevocationEpochs) :
    Keeps t₀
      (sh.store.createAccessAndRefreshTokens env draws sh.now request captured current).2.tokens
      (sh'.store.createAccessAndRefreshTokens env draws sh.now request captured current).2.tokens := by
  have hlater : ∀ {e : Time}, (sh.now : Time) < e → t₀ < e := fun he => Int.lt_of_le_of_lt h.passed he
  have hlive₀ : ClaimLive env t₀ current sh.store := fun hne => by
    obtain ⟨hroom, hrow, htombstone⟩ := hlive hne
    exact ⟨hroom, fun t ht => hlater (hrow t ht), fun m hm => hlater (htombstone m hm)⟩
  obtain ⟨hanswer, hkeeps⟩ := h.tokens.mintFamily h.orderly.issued hlive₀ draws
  have hpending := pending_mintFamily sh.store env draws current
  have hpending' := pending_mintFamily sh'.store env draws current
  obtain ⟨hstill, hbounds⟩ := h.orderly.mintFamily draws current
  rw [createAccessAndRefreshTokens, createAccessAndRefreshTokens]
  rcases hone : sh.store.mintFamily env draws current with ⟨x, s₁⟩
  rcases htwo : sh'.store.mintFamily env draws current with ⟨x', s₁'⟩
  rw [hone, htwo] at hanswer hkeeps
  rw [hone] at hpending hstill hbounds
  rw [htwo] at hpending'
  obtain rfl : x' = x := hanswer
  have hepochs : s₁'.revocationEpochs = s₁.revocationEpochs := by
    rw [show s₁'.revocationEpochs = sh'.store.revocationEpochs from
      congrArg PendingTables.revocationEpochs hpending', h.epochs]
    exact (congrArg PendingTables.revocationEpochs hpending).symm
  obtain ⟨-, hattl, hrttl⟩ := Prod.ext_iff.1 hkeeps.bounds |>.imp_right Prod.ext_iff.1
  obtain ⟨-, hattl', -⟩ := Prod.ext_iff.1 h.tokens.bounds |>.imp_right Prod.ext_iff.1
  cases x' with
  | error e => exact hkeeps
  | ok familyID =>
    dsimp only
    have haccess : sh'.store.mintedAccess draws sh.now request =
        sh.store.mintedAccess draws sh.now request := by
      rw [mintedAccess, mintedAccess, show sh'.store.accessTTL = sh.store.accessTTL from hattl']
    have hrefresh : mintedRefresh env s₁' draws sh.now request familyID =
        mintedRefresh env s₁ draws sh.now request familyID := by
      rw [mintedRefresh, mintedRefresh, show s₁'.refreshTTL = s₁.refreshTTL from hrttl]
    rw [haccess, hrefresh, epochsLocked_congr hepochs]
    split
    · refine hkeeps.putPair ?_ ?_
      · exact Int.lt_of_le_of_lt h.passed (Int.lt_add_of_pos_right _ h.orderly.issued.lifetimes.1)
      · have hpos : 0 < s₁.refreshTTL :=
          Int.lt_of_lt_of_le hstill.issued.lifetimes.1 hstill.issued.lifetimes.2
        exact Int.lt_of_le_of_lt h.passed (Int.lt_add_of_pos_right _ hpos)
    · exact hkeeps

/-- The generations of a revocation move on. -/
theorem bump (c u : String) : Shadow env t₀ { sh with store := sh.store.bumpRevocationEpochsLocked c u }
      { sh' with store := sh'.store.bumpRevocationEpochsLocked c u } := by
  have hepochs : (sh'.store.bumpRevocationEpochsLocked c u).revocationEpochs =
      (sh.store.bumpRevocationEpochsLocked c u).revocationEpochs := by
    simp only [OIDCStore.bumpRevocationEpochsLocked, OIDCStore.bump, OIDCStore.epoch]
    split_ifs <;> simp only [h.epochs]
  have hbounds := Prod.ext_iff.1 h.pending.bounds
  refine ⟨h.onStore ?_ ?_, h.orderly.bump c u, h.orderly'.bump c u⟩
  · rw [tokens_bumpRevocationEpochs, tokens_bumpRevocationEpochs]
    exact h.tokens
  · obtain ⟨ep, heq⟩ := bumpRevocationEpochs_eq sh.store c u
    obtain ⟨ep', heq'⟩ := bumpRevocationEpochs_eq sh'.store c u
    rw [heq, heq'] at hepochs ⊢
    exact ⟨h.pending.request, h.pending.code, h.pending.stray, Prod.ext hepochs hbounds.2⟩

end Shadow

/-- The loops of a revocation. -/
theorem Shadow.removeSelected {owned spent : String → String → Prop} {chosen : AuthRequest → Prop}
    {sel : OIDCStore.Selection}
    (h : Shadow env t₀ { sh with store := s } { sh' with store := s' }) (hsel : Selects owned spent sel)
    (hchosen : ∀ s : OIDCStore, Awaited sh.drawn s.pending → ∀ id a, s.authRequests.get id = some a →
      (id ∈ sel.requestKeys s ∧ sel.request a = true ↔ chosen a)) :
    Alike t₀ { sh with store := (s.removeSelected env sel).2 }
      { sh' with store := (s'.removeSelected env sel).2 } := by
  have hdel : Deletes env s' (s'.removeSelected env sel).2 := Deletes.refl.removeSelected sel
  have htokens : Keeps t₀ (s.removeSelected env sel).2.tokens (s'.removeSelected env sel).2.tokens := by
    rw [tokens_removeSelected, tokens_removeSelected]
    exact h.tokens.removeOwned hsel h.orderly.issued h.orderly'.issued
  refine ⟨htokens, ?_, h.clients, h.now, h.drawn, h.passed⟩
  exact h.pending.purges_chosen h.orderly.awaited h.orderly'.awaited
    hdel.shrinksTo.authRequests (purges_removeSelected h.orderly hchosen)
    (purges_removeSelected h.orderly' hchosen)

theorem chosen_grantSelection {c : String} (hu : u ≠ "") (s : OIDCStore)
    (hs : Awaited drawn s.pending) (id : String) (a : AuthRequest) (ha : s.authRequests.get id = some a) :
    id ∈ (grantSelection u c).requestKeys s ∧ (grantSelection u c).request a = true ↔
      a.subject = u ∧ a.clientID = c := by
  have hmem := mem_bucket_filed (u := u) hs.request ha
  simp only [grantSelection, pending] at hmem ⊢
  rw [hmem, beq_iff_eq]
  refine and_congr_left fun _ => ⟨And.right, fun hsubject => ⟨?_, hsubject⟩⟩
  rw [hsubject]
  exact hu

variable (hs : Awaited drawn s.pending)

include hs in
/-- The requests of a subject, by the index or by the scan. -/
theorem mem_requestKeys {a : AuthRequest} (ha : s.authRequests.get id = some a) :
    id ∈ s.requestKeysLocked u ↔ u = "" ∨ a.subject = u := by
  rw [requestKeysLocked]
  split_ifs with hu
  · exact ⟨fun _ => .inl hu, fun _ => Dict.mem_keys_iff.2 ⟨a, ha⟩⟩
  · refine (mem_bucket_filed (u := u) hs.request ha).trans ⟨fun hm => .inr hm.2, fun hm => ?_⟩
    have hsubject := hm.resolve_left hu
    exact ⟨hsubject ▸ hu, hsubject⟩

theorem chosen_filterSelection {f : TokenFilter} (s : OIDCStore)
    (hs : Awaited drawn s.pending) (id : String) (a : AuthRequest) (ha : s.authRequests.get id = some a) :
    id ∈ (filterSelection f).requestKeys s ∧ (filterSelection f).request a = true ↔
      f.matches a.clientID a.subject = true := by
  refine ⟨And.right, fun hmatch => ⟨?_, hmatch⟩⟩
  refine (mem_requestKeys hs ha).2 ?_
  obtain ⟨-, hu⟩ := matches_iff.1 hmatch
  exact hu.imp_right Eq.symm

variable (h : Shadow env t₀ sh sh')

include h in
theorem Shadow.revokeGrant (u c : String) : Alike t₀ { sh with store := (sh.store.revokeGrant env u c).2 }
      { sh' with store := (sh'.store.revokeGrant env u c).2 } := by
  rw [OIDCStore.revokeGrant, OIDCStore.revokeGrant]
  split_ifs with hempty
  · exact h.toAlike
  · obtain ⟨hu, -⟩ := not_or.1 hempty
    dsimp only
    exact (h.bump c u).removeSelected (picks_grantSelection hu).selects (chosen_grantSelection hu)

theorem Shadow.revokeTokens (h : Shadow env t₀ sh sh') (f : TokenFilter) :
    Alike t₀ { sh with store := (sh.store.revokeTokens env f).2 }
      { sh' with store := (sh'.store.revokeTokens env f).2 } := by
  exact (h.bump f.clientID f.subject).removeSelected picks_filterSelection.selects chosen_filterSelection

theorem Shadow.purgeSubject (h : Shadow env t₀ sh sh') (u : String) :
    Awaits t₀ sh.drawn (sh.store.purgeSubject env u).2.pending
      (sh'.store.purgeSubject env u).2.pending := by
  rw [OIDCStore.purgeSubject, OIDCStore.purgeSubject]
  split_ifs with hu
  · exact h.pending
  have hchosen : ∀ s : OIDCStore, Awaited sh.drawn s.pending → ∀ id a, s.authRequests.get id = some a →
      (id ∈ s.requestKeysLocked u ∧ (a.subject == u) = true ↔ a.subject = u) := by
    intro s hs id a ha
    rw [mem_requestKeys hs ha, beq_iff_eq]
    exact ⟨And.right, fun hsubject => ⟨.inr hsubject, hsubject⟩⟩
  have hdel : Deletes env sh'.store
      (removeRequests (·.subject == u) (sh'.store.requestKeysLocked u) sh'.store).2 :=
    Deletes.refl.removeRequests _ _
  rw [pending_removeDevices, pending_removeDevices]
  exact h.pending.purges_chosen h.orderly.awaited h.orderly'.awaited
    hdel.shrinksTo.authRequests (purges_removeRequests h.orderly (hchosen _ h.orderly.awaited))
    (purges_removeRequests h.orderly' (hchosen _ h.orderly'.awaited))

/-- A step on the registry, in both. -/
theorem Alike.onClients (h : Alike t₀ sh sh') {x : Except OAuth.Error MemoryClientRegistry}
    {r : Except Err Unit} (hex : some (sh.onClients x) = some (r, sh₁)) :
    ∃ r' sh₁', some (sh'.onClients x) = some (r', sh₁') ∧ Alike t₀ sh₁ sh₁' := by
  cases x with
  | error e =>
    cases hex
    exact ⟨_, _, rfl, h⟩
  | ok clients =>
    cases hex
    exact ⟨_, _, rfl, h.tokens, h.pending, rfl, h.now, h.drawn, h.passed⟩

include h in
/-- **One step** of the provider, in both. -/
theorem Shadow.exec {op : Op} {r : Except Err op.Answer} (hguard : Undisturbed env sh (.step op))
    (hex : exec env op ω sh = some (r, sh₁)) :
    ∃ r' sh₁', Memory.exec env op ω sh' = some (r', sh₁') ∧ Alike t₀ sh₁ sh₁' := by
  have hlater : ∀ {e : Time}, (sh.now : Time) < e → t₀ < e := fun he => Int.lt_of_le_of_lt h.passed he
  -- a step on the store, by what becomes of the two stores
  have hstore : ∀ {α : Type} {x x' : Except Err α × OIDCStore} {r : Except Err α},
      some (sh.onStore x) = some (r, sh₁) → Keeps t₀ x.2.tokens x'.2.tokens →
      Awaits t₀ sh.drawn x.2.pending x'.2.pending →
      ∃ r' sh₁', some (sh'.onStore x') = some (r', sh₁') ∧ Alike t₀ sh₁ sh₁' := by
    intro α x x' r hex htokens hpending
    rw [shared_onStore hex]
    exact ⟨_, _, rfl, h.onStore htokens hpending⟩
  have hcounted : ∀ {x x' : ℕ × OIDCStore} {r : Except Err ℕ},
      some (sh.onStore (counted x)) = some (r, sh₁) →
      Alike t₀ { sh with store := x.2 } { sh' with store := x'.2 } →
      ∃ r' sh₁', some (sh'.onStore (counted x')) = some (r', sh₁') ∧ Alike t₀ sh₁ sh₁' := by
    intro x x' r hex halike
    rw [shared_counted hex]
    exact ⟨_, _, rfl, halike⟩
  cases op with
  | now | judge | getClientByClientID | authRequestByID | deviceByUserCode =>
    cases hex
    exact ⟨_, _, rfl, h.toAlike⟩
  | advanceClock d =>
    cases hex
    refine ⟨_, _, rfl, h.tokens, h.pending, h.clients, ?_, h.drawn, ?_⟩
    · exact congrArg (· + d) h.now
    · refine Int.le_trans h.passed ?_
      push_cast
      exact Int.le_add_of_nonneg_right (Int.natCast_nonneg d)
  | createClient | setStatus | rotateSecret | removeClient =>
    rw [Memory.exec, h.clients]
    exact h.onClients hex
  | createAuthRequest req u =>
    rw [Memory.exec] at hex ⊢
    refine drawing_alike h.toAlike hex fun vs hlen hfresh => ?_
    obtain ⟨v, rfl⟩ := length_eq_one_iff.1 hlen
    have hnew := hfresh.2 v mem_cons_self
    refine (h.draw [v]).onStore (by simpa using h.tokens) ?_
    show Awaits t₀ (v :: sh.drawn) _ (createAuthRequest sh'.now _ _ _ _).2.pending
    rw [h.now]
    exact (h.pending.createAuthRequest h.orderly.awaited h.awaited' hguard hnew
      (fun v hv => mem_cons_of_mem _ hv) h.passed req u).2
  | saveAuthCode id =>
    rw [Memory.exec] at hex ⊢
    refine drawing_alike h.toAlike hex fun vs hlen hfresh => (h.draw vs).onStore h.tokens ?_
    show Awaits t₀ (vs ++ sh.drawn) _ (saveAuthCode env sh'.now _ _ _).pending
    rw [h.now]
    exact (h.draw vs).pending.saveAuthCode _ _ _
  | storeDeviceAuthorization c l scopes =>
    rw [Memory.exec] at hex ⊢
    refine drawing_alike h.toAlike hex fun vs hlen hfresh => (h.draw vs).devices ?_ ?_
    all_goals exact onlyDevices_store env _ _ _ _ _ _ _
  | createAccessAndRefreshTokens request captured current =>
    rw [Memory.exec] at hex ⊢
    refine drawing_alike h.toAlike hex fun vs hlen hfresh => (h.draw vs).onStore ?_ ?_
    · show Keeps t₀ _ (createAccessAndRefreshTokens env _ sh'.now _ _ _ _).2.tokens
      rw [h.now]
      exact h.mint hguard _ _ _
    · rw [pending_mint, pending_mint]
      exact (h.draw vs).pending
  | authRequestByCode v =>
    refine hstore hex (by simpa using h.tokens) ?_
    rw [h.now]
    exact (h.authRequestByCode hguard).1
  | deleteAuthRequest id =>
    refine hstore hex (by simpa using h.tokens) ?_
    have hdel : Deletes env sh'.store (sh'.store.deleteAuthRequest id) := .deleteAuthRequest id
    exact h.pending.purges_same hdel.shrinksTo.authRequests
      (purges_deleteAuthRequest h.orderly id) (purges_deleteAuthRequest h.orderly' id)
  | setAuthTime id t =>
    exact hstore hex (by simpa using h.tokens) (h.pending.setAuthTime h.orderly.awaited h.awaited' id t)
  | completeLogin id u scopes =>
    refine hstore hex (by simpa using h.tokens) ?_
    rw [h.now]
    exact h.pending.completeLogin h.orderly.awaited h.awaited' _ id u scopes
  | tokenRequestByRefreshToken v =>
    refine hstore hex ?_ ?_
    · rw [h.now]
      exact (h.tokenRequestByRefreshToken v).2
    · rw [pending_tokenRequestByRefreshToken, pending_tokenRequestByRefreshToken]
      exact h.pending
  | terminateSession u c =>
    refine hstore hex ?_ (by simpa using h.pending)
    rw [terminateSession_eq_removeOwned, terminateSession_eq_removeOwned]
    by_cases hu : u = ""
    · subst hu
      exact h.tokens.removeOwned (selects_noSubject c) h.orderly.issued h.orderly'.issued
    · exact h.tokens.removeOwned (picks_grantSelection hu).selects h.orderly.issued h.orderly'.issued
  | revokeToken token c =>
    refine hstore hex ?_ ?_
    · refine h.tokens.revokeToken h.orderly.issued h.orderly'.issued ?_ c
      exact ⟨fun t ht => hlater (hguard.1 t ht), fun k t ht hk => hlater (hguard.2 k t ht hk)⟩
    · rw [pending_revokeToken, pending_revokeToken]
      exact h.pending
  | getDeviceAuthorizatonState c d =>
    rw [shared_onStore hex]
    exact ⟨_, _, rfl, h.devices (onlyDevices_getState env _ _ c d) (onlyDevices_getState env _ _ c d)⟩
  | approveDevice code u scopes =>
    rw [shared_onStore hex]
    exact ⟨_, _, rfl, h.devices (onlyDevices_approve env _ _ code u _) (onlyDevices_approve env _ _ code u _)⟩
  | denyDevice code =>
    rw [shared_onStore hex]
    exact ⟨_, _, rfl, h.devices (onlyDevices_deny env _ code) (onlyDevices_deny env _ code)⟩
  | sweepExpired =>
    have hdel : Deletes env sh'.store (sh'.store.sweepExpired env sh.now).2 := .sweepExpired
    rw [Memory.exec, h.now]
    refine hcounted hex (h.onStore (h.tokens.sweepExpired env sh.now) ?_)
    exact h.pending.purges_same hdel.shrinksTo.authRequests (purges_sweepExpired h.orderly _)
      (purges_sweepExpired h.orderly' _)
  | revokeGrant u c =>
    rw [shared_onStore hex, Memory.exec]
    exact ⟨_, _, rfl, h.revokeGrant u c⟩
  | revokeTokens f =>
    exact hcounted hex (h.revokeTokens f)
  | purgeSubject u => exact hstore hex (by simpa using h.tokens) (h.purgeSubject u)

include h in
/-- **One method**, in both. -/
theorem Shadow.step {m : Method} (hguard : Undisturbed env sh m) (hex : m.exec env ω sh = some sh₁) :
    ∃ sh₁', m.exec env ω sh' = some sh₁' ∧ Shadow env t₀ sh₁ sh₁' := by
  have hlift : ∀ {sh₁'}, m.exec env ω sh' = some sh₁' → Alike t₀ sh₁ sh₁' → Shadow env t₀ sh₁ sh₁' := by
    intro sh₁' hex' halike
    have ho' : Orderly env sh'.drawn sh'.store := h.drawn ▸ h.orderly'
    exact ⟨halike, Method.orderly h.orderly hex, halike.drawn ▸ Method.orderly ho' hex'⟩
  cases m with
  | step o =>
    obtain ⟨⟨r, sh₁⟩, hr, rfl⟩ := map_eq_some_iff.1 hex
    obtain ⟨r', sh₁', hr', halike⟩ := h.exec hguard hr
    have hex' : (Method.step o).exec env ω sh' = some sh₁' := map_eq_some_iff.2 ⟨_, hr', rfl⟩
    exact ⟨sh₁', hex', hlift hex' halike⟩
  | createAccessToken request =>
    obtain ⟨⟨r, sh₁⟩, hr, rfl⟩ := map_eq_some_iff.1 hex
    obtain ⟨r', sh₁', hr', halike⟩ := drawing_alike h.toAlike hr fun vs hlen hfresh => by
      refine (h.draw vs).onStore ?_ (h.draw vs).pending
      obtain ⟨-, hattl, -⟩ := Prod.ext_iff.1 h.tokens.bounds |>.imp_right Prod.ext_iff.1
      rw [createAccessToken, createAccessToken]
      rw [h.now, show sh'.store.accessTTL = sh.store.accessTTL from hattl]
      refine h.tokens.putAccess ?_
      exact Int.lt_of_le_of_lt h.passed (Int.lt_add_of_pos_right _ h.orderly.issued.lifetimes.1)
    have hex' : (Method.createAccessToken request).exec env ω sh' = some sh₁' :=
      map_eq_some_iff.2 ⟨_, hr', rfl⟩
    exact ⟨sh₁', hex', hlift hex' halike⟩

include h in
/-- **A whole run**, in both. -/
theorem Shadow.run {run : List (Method × Choice)} (hguard : Guarded env run sh)
    (hrun : runAll env run sh = some sh₁) :
    ∃ sh₁', runAll env run sh' = some sh₁' ∧ Shadow env t₀ sh₁ sh₁' := by
  induction run generalizing sh sh' with
  | nil =>
    cases hrun
    exact ⟨sh', rfl, h⟩
  | cons mω run ih =>
    obtain ⟨m, ω⟩ := mω
    obtain ⟨sh₂, hex, hrest⟩ := bind_eq_some_iff.1 hrun
    obtain ⟨sh₂', hex', h₂⟩ := h.step hguard.1 hex
    obtain ⟨sh₁', hrest', h₁⟩ := ih h₂ (hguard.2 sh₂ hex) hrest
    exact ⟨sh₁', bind_eq_some_iff.2 ⟨sh₂', hex', hrest'⟩, h₁⟩

/-- What has expired goes. -/
theorem shadow_of_purges (h : Orderly env sh.drawn sh.store)
    (hdel : Deletes env sh.store s₁) (hkeeps : Keeps sh.now sh.store.tokens s₁.tokens)
    (hpurges : Purges (fun _ _ e => e < sh.now) (fun _ c => c.expiresAt < sh.now) sh.store.pending
      s₁.pending) : Shadow env sh.now sh { sh with store := s₁ } := by
  refine ⟨⟨hkeeps, ⟨fun id a e => ?_, fun k c hc hlive => ?_, fun k c hc => .inl ((hpurges.code k c).1 hc).1,
    hpurges.bounds⟩, rfl, rfl, rfl, Int.le_refl _⟩, h, hdel.orderly h⟩
  · rw [← Int.not_lt]
    exact hpurges.request id a e
  · exact (hpurges.code k c).2 ⟨hc, Int.not_lt.2 hlive⟩

/-- The sweep itself. -/
theorem shadow_sweep (h : Orderly env sh.drawn sh.store) :
    Shadow env sh.now sh { sh with store := (sh.store.sweepExpired env sh.now).2 } :=
  shadow_of_purges h .sweepExpired (Keeps.of_sweepExpired env sh.now sh.store) (purges_sweepExpired h sh.now)

/-! ## Answers -/

/-- An error as its callers tell it apart: by its kind, not by its text. -/
def Err.kind : Err → Err
  | .new _ => .new ""
  | .requestExpired _ => .requestExpired ""
  | e => e

/-- **Same answers** of the lookups, whatever they are asked for. A code is asked for while its request
is not past its deadline. -/
structure SameAnswers (env : Env) (sh sh' : Shared) : Prop where
  authRequestByID : ∀ id, (sh'.store.authRequestByID sh'.now id).mapError Err.kind =
    (sh.store.authRequestByID sh.now id).mapError Err.kind
  authRequestByCode : ∀ code, Timely env sh.now code sh.store →
    (sh'.store.authRequestByCode env sh'.now code).1.mapError Err.kind =
      (sh.store.authRequestByCode env sh.now code).1.mapError Err.kind
  tokenRequestByRefreshToken : ∀ value, (sh'.store.tokenRequestByRefreshToken env sh'.now value).1 =
    (sh.store.tokenRequestByRefreshToken env sh.now value).1
  setIntrospectionFromToken : ∀ tokenID subject,
    sh'.store.setIntrospectionFromToken env sh'.now tokenID subject =
      sh.store.setIntrospectionFromToken env sh.now tokenID subject
  setUserinfoFromToken : ∀ tokenID subject,
    sh'.store.setUserinfoFromToken env sh'.now tokenID subject =
      sh.store.setUserinfoFromToken env sh.now tokenID subject
  grants : ∀ subject, sh'.store.grants sh'.now sh'.clients subject =
    sh.store.grants sh.now sh.clients subject

include h in
/-- A live token is under its subject in both, or in none. -/
theorem Shadow.mem_tokensOf (subject : String) (t : TokenSummary) (hlive : (sh.now : Time) < t.expiresAt) :
    t ∈ sh'.store.tokensOf subject ↔ t ∈ sh.store.tokensOf subject := by
  have hlater : t₀ < t.expiresAt := Int.lt_of_le_of_lt h.passed hlive
  simp only [tokensOf, mem_append, mem_filterMap, map_eq_some_iff]
  refine or_congr ⟨?_, ?_⟩ ⟨?_, ?_⟩
  · rintro ⟨k, hk, a, ha, rfl⟩
    obtain ⟨ha₀, -⟩ := (h.tokens.access k a).1 ha
    refine ⟨k, ?_, a, ha₀, rfl⟩
    have hfiled := (mem_bucket_filed h.orderly'.issued.filed.access ha).1 hk
    exact (mem_bucket_filed h.orderly.issued.filed.access ha₀).2 hfiled
  · rintro ⟨k, hk, a, ha, rfl⟩
    have ha' := (h.tokens.access k a).2 ⟨ha, hlater⟩
    refine ⟨k, ?_, a, ha', rfl⟩
    have hfiled := (mem_bucket_filed h.orderly.issued.filed.access ha).1 hk
    exact (mem_bucket_filed h.orderly'.issued.filed.access ha').2 hfiled
  · rintro ⟨k, hk, a, ha, rfl⟩
    obtain ⟨ha₀, -⟩ := (h.tokens.refresh k a).1 ha
    refine ⟨k, ?_, a, ha₀, rfl⟩
    have hfiled := (mem_bucket_filed h.orderly'.issued.filed.refresh ha).1 hk
    exact (mem_bucket_filed h.orderly.issued.filed.refresh ha₀).2 hfiled
  · rintro ⟨k, hk, a, ha, rfl⟩
    have ha' := (h.tokens.refresh k a).2 ⟨ha, hlater⟩
    refine ⟨k, ?_, a, ha', rfl⟩
    have hfiled := (mem_bucket_filed h.orderly.issued.filed.refresh ha).1 hk
    exact (mem_bucket_filed h.orderly'.issued.filed.refresh ha').2 hfiled

/-- Introspection finds a live token or none. -/
theorem setIntrospectionFromToken_eq (env : Env) (now : Time) (tokenID subject : String) (s : OIDCStore) :
    s.setIntrospectionFromToken env now tokenID subject =
      match (s.accessTokens.get (env.tokenHash tokenID)).filter fun t => now < t.expiresAt with
      | none => .error .tokenNotFound
      | some t => .ok ⟨subject, t.clientID, t.scopes, t.expiresAt⟩ := by
  rw [setIntrospectionFromToken]
  cases s.accessTokens.get (env.tokenHash tokenID) with
  | none => rfl
  | some t => by_cases hlive : now < t.expiresAt <;> simp [Option.filter, hlive]

include hs in
/-- A request that is found, and not past its deadline. -/
theorem authRequestByID_kind {now : Time} (r : Except Err AuthRequest) :
    (s.authRequestByID now id).mapError Err.kind = r ↔
      (∃ a e, Pending s.pending id a e ∧ now < e ∧ r = .ok a) ∨
        (∀ a e, Pending s.pending id a e → ¬ now < e) ∧ r = .error (.requestExpired "") := by
  rw [authRequestByID]
  cases ha : s.authRequests.get id with
  | none =>
    have hnone : ∀ a e, ¬ Pending s.pending id a e := fun a e hp => by cases ha.symm.trans hp.1
    constructor
    · rintro rfl
      exact .inr ⟨fun a e hp => absurd hp (hnone a e), rfl⟩
    · rintro (⟨a, e, hp, -⟩ | ⟨-, rfl⟩)
      · exact absurd hp (hnone a e)
      · rfl
  | some a =>
    obtain ⟨e, hp⟩ := hs.pending_of_request ha
    have hone : ∀ a' e', Pending s.pending id a' e' → a' = a ∧ e' = e := fun a' e' hp' =>
      ⟨some.inj (hp'.1.symm.trans hp.1), some.inj (hp'.2.symm.trans hp.2)⟩
    rw [show s.authRequestExpiry.get id = some e from hp.2, getD_some]
    split_ifs with hlive
    · constructor
      · rintro rfl
        exact .inl ⟨a, e, hp, hlive, rfl⟩
      · rintro (⟨a', e', hp', -, rfl⟩ | ⟨hpast, -⟩)
        · rw [(hone a' e' hp').1]
          rfl
        · exact absurd hlive (hpast a e hp)
    · constructor
      · rintro rfl
        refine .inr ⟨fun a' e' hp' => ?_, rfl⟩
        rw [(hone a' e' hp').2]
        exact hlive
      · rintro (⟨a', e', hp', hlive', -⟩ | ⟨-, rfl⟩)
        · rw [(hone a' e' hp').2] at hlive'
          exact absurd hlive' hlive
        · rfl

/-- **Two states that are alike** answer alike. -/
theorem Shadow.sameAnswers (h : Shadow env t₀ sh sh') : SameAnswers env sh sh' := by
  refine ⟨fun id => ?_, fun code htimely => ?_, fun value => ?_, fun tokenID subject => ?_,
    fun tokenID subject => ?_, fun subject => ?_⟩
  · rw [h.now]
    refine (authRequestByID_kind h.orderly'.awaited _).2 ?_
    -- a request whose deadline is ahead is pending in both
    have hboth : ∀ {a e}, (sh.now : Time) < e →
        (Pending sh'.store.pending id a e ↔ Pending sh.store.pending id a e) := fun hlive =>
      (h.pending.request id _ _).trans (and_iff_left (Int.le_trans h.passed (Int.le_of_lt hlive)))
    obtain ⟨a, e, hp, hlive, heq⟩ | ⟨hpast, heq⟩ := (authRequestByID_kind h.orderly.awaited _).1 rfl
    · exact .inl ⟨a, e, (hboth hlive).2 hp, hlive, heq⟩
    · exact .inr ⟨fun a e hp hlive => hpast a e ((hboth hlive).1 hp) hlive, heq⟩
  · rw [h.now]
    obtain heq | ⟨⟨text, heq⟩, text', heq'⟩ := (h.authRequestByCode htimely).2
    · rw [heq]
    · rw [heq, heq']
      rfl
  · rw [h.now]
    exact (h.tokenRequestByRefreshToken value).1
  · rw [h.now, setIntrospectionFromToken_eq, setIntrospectionFromToken_eq, filter_live sh.store.accessTokens sh'.store.accessTokens h.tokens.access]
    exact fun t ht => Int.lt_of_le_of_lt h.passed (of_decide_eq_true ht)
  · rw [h.now, setUserinfoFromToken, setUserinfoFromToken, filter_live sh.store.accessTokens sh'.store.accessTokens h.tokens.access]
    exact fun t ht => Int.lt_of_le_of_lt h.passed (of_decide_eq_true ht).2
  · rw [h.now, h.clients, grants, grants]
    split_ifs
    · rfl
    · exact congrArg Except.ok (listGrants_congr _ fun t ht => h.mem_tokensOf subject t ht)

/-- **A sweep does not show**: whatever methods have been called on a new store, a `SweepExpired` changes
no answer of the lookups after any further methods that are undisturbed without it. -/
theorem sweep_invisible {opts : OIDCOptions} {sh₀ : Shared} {before after : List (Method × Choice)}
    (hstart : sh₀.store = newOIDCStore opts) (hbefore : runAll env before sh₀ = some sh)
    (hguard : Guarded env after sh) (hafter : runAll env after sh = some sh₁) :
    ∃ sh₂, runAll env ((.step .sweepExpired, ω) :: after) sh = some sh₂ ∧ SameAnswers env sh₁ sh₂ := by
  have hs₀ : Orderly env sh₀.drawn sh₀.store := by
    rw [hstart]
    exact orderly_newOIDCStore env opts sh₀.drawn
  have hs := runAll_orderly hs₀ hbefore
  have hsweep : (Method.step .sweepExpired).exec env ω sh =
      some { sh with store := (sh.store.sweepExpired env sh.now).2 } := by
    simp only [Method.exec, exec, Shared.onStore, counted, map_some]
  obtain ⟨sh₂, hrun, hshadow⟩ := (shadow_sweep hs).run hguard hafter
  refine ⟨sh₂, ?_, hshadow.sameAnswers⟩
  rw [runAll, hsweep]
  exact hrun

/-! ## A sweep that shows, and one that does not -/

/-- A new store, with a request's lifetime of 600. -/
def sweepStart : Shared where
  store := newOIDCStore ⟨600, 8, 8, 8⟩
  clients := ∅
  now := 100
  drawn := []

/-- The random source yields these values. -/
def yields (vs : List String) : Choice := ⟨some vs, 0, "ABCD", none⟩

/-- The parameters of a request. -/
def sweptParams : AuthorizeParams := ⟨"c", "https://r", "code", "", ["openid"], "", "", "", "", [], none⟩

/-- A request is approved late, and its code is asked for when the request is past its deadline. -/
def lateCode : List (Method × Choice) :=
  [(.step (.createAuthRequest sweptParams ""), yields ["id"]),
    (.step (.advanceClock 400), yields []),
    (.step (.completeLogin "id" "s" ["openid"]), yields []),
    (.step (.saveAuthCode "id"), yields ["code"]),
    (.step (.advanceClock 250), yields [])]

/-- The code is answered with its request, and with a sweep before it is not. -/
theorem sweep_seen : ∃ sh sh' : Shared, runAll sampleEnv lateCode sweepStart = some sh ∧
    runAll sampleEnv [(.step .sweepExpired, yields [])] sh = some sh' ∧
    (sh.store.authRequestByCode sampleEnv sh.now "code").1.isOk = true ∧
    (sh'.store.authRequestByCode sampleEnv sh'.now "code").1.isOk = false := by
  exact ⟨_, _, rfl, rfl, by decide, by decide⟩

/-- A request that has expired is swept, and another one is begun. -/
theorem sweep_invisible_begun : ∃ sh sh₁ sh₂ : Shared,
    runAll sampleEnv [(.step (.createAuthRequest sweptParams ""), yields ["id"]),
      (.step (.advanceClock 700), yields [])] sweepStart = some sh ∧
    runAll sampleEnv [(.step (.createAuthRequest sweptParams ""), yields ["id'"])] sh = some sh₁ ∧
    runAll sampleEnv [(.step .sweepExpired, yields []),
      (.step (.createAuthRequest sweptParams ""), yields ["id'"])] sh = some sh₂ ∧
    sh₁.store.authRequests.size = 2 ∧ SameAnswers sampleEnv sh₁ sh₂ := by
  have hsh : runAll sampleEnv [(.step (.createAuthRequest sweptParams ""), yields ["id"]),
    (.step (.advanceClock 700), yields [])] sweepStart = some _ := rfl
  obtain ⟨sh₂, hsh₂, hsame⟩ := sweep_invisible (ω := yields []) rfl hsh
    (show Guarded sampleEnv [(.step (.createAuthRequest sweptParams ""), yields ["id'"])] _ from
      ⟨show (_ : ℕ) < (_ : ℕ) by decide, fun _ _ => trivial⟩) rfl
  exact ⟨_, _, sh₂, hsh, rfl, hsh₂, by decide, hsame⟩

end Re0Auth.Memory

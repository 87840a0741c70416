import Re0Auth.Memory.Generations
import Re0Auth.Memory.Revocation

/-!
# The end of a refresh token family in the in-memory store

A refresh token is spent by the mint that rotates it. A spent value that is presented again takes its whole
family down.

* **`Lineage`**: the invariant of all runs. Every mark in the tables is the one of a generation that some
  call has minted, and the generations of a family have one family id and one owner;
* **`Answered`**: a spent value is known by its tombstone for as long as its family is alive;
* **`spent_value_ends_family`**: once a spent value is presented nothing of its family is left, nor comes
  back;
* **`subjectless_family_survives`**: the end of a session without a subject takes the tombstones of such
  grants and leaves their refresh tokens.
-/

namespace Re0Auth.Memory

open Lib OAuth Oidc OIDCStore Function Pool List Option

variable {env : Env}

/-! ## Steps on the tables -/

section Steps

variable {op : Op} {ω : Choice} {sh sh' : Shared} {r : Except Err op.Answer}

/-- The marks `RevokeToken` goes after. -/
def Op.strikes (env : Env) : Op → String → RefreshTombstone → Prop
  | revokeToken token _ => fun k m => k = env.tokenHash token ∨ m.idHash = env.tokenHash token
  | _ => fun _ _ => False

/-- The step is a mint. -/
def Op.mints : Op → Bool
  | createAccessAndRefreshTokens _ _ _ => true
  | _ => false

/-- A step other than a mint deletes. -/
theorem exec_prunes (hs : Tidy sh.store.tokens) (h : exec env op ω sh = some (r, sh'))
    (hop : op.mints = false) : Prunes sh.now (op.strikes env) sh.store.tokens sh'.store.tokens := by
  have hsame : sh'.store.tokens = sh.store.tokens →
      Prunes sh.now (op.strikes env) sh.store.tokens sh'.store.tokens := by
    intro heq
    rw [heq]
    exact .refl _
  cases op with
  | now | judge | advanceClock | getClientByClientID | authRequestByID | deviceByUserCode =>
    cases h
    exact .refl _
  | createClient | setStatus | rotateSecret | removeClient =>
    obtain ⟨clients, rfl⟩ := shared_onClients h
    exact .refl _
  | createAuthRequest | saveAuthCode =>
    rw [exec] at h
    obtain ⟨rfl, rfl⟩ | ⟨vs, -, -, -, h⟩ := drawing_cases h
    · exact .refl _
    · cases h
      exact hsame (by simp)
  | storeDeviceAuthorization c l scopes =>
    rw [exec] at h
    obtain ⟨rfl, rfl⟩ | ⟨vs, -, -, -, h⟩ := drawing_cases h
    · exact .refl _
    · cases h
      exact hsame (onlyDevices_store env _ _ c _ _ _ scopes).tokens
  | getDeviceAuthorizatonState | approveDevice | denyDevice =>
    obtain ⟨s', rfl, honly⟩ := exec_answersDevice h rfl
    exact hsame honly.tokens
  | authRequestByCode | deleteAuthRequest | setAuthTime | completeLogin
  | purgeSubject u =>
    exact hsame (by simp [store_onStore h])
  | tokenRequestByRefreshToken v =>
    rw [store_onStore h, tokenRequestByRefreshToken]
    split
    · exact .refl _
    · split
      · exact prunes_revokeFamily _
      · exact .refl _
  | terminateSession u c =>
    rw [store_onStore h]
    exact prunes_terminateSession hs.filed u c
  | revokeToken token c =>
    rw [store_onStore h]
    exact prunes_revokeToken env hs token c
  | sweepExpired =>
    rw [shared_counted h]
    dsimp only
    exact prunes_sweepExpired env
  | revokeGrant u c =>
    rw [store_onStore h]
    exact prunes_revokeGrant env hs.filed u c
  | revokeTokens f =>
    rw [shared_counted h]
    exact prunes_revokeTokens env hs.filed f
  | createAccessAndRefreshTokens request captured current => cases hop

/-- A mint that is served by the random source. -/
theorem exec_mint {request : TokenRequest} {captured : Option RevocationEpochs} {current : String}
    {r : Except Err Pair} {vs : List String} (hvs : ω.values = some vs)
    (h : exec env (.createAccessAndRefreshTokens request captured current) ω sh = some (r, sh')) :
    vs.length = (if current = "" then 3 else 2) ∧ sh.Fresh vs ∧ sh'.drawn = vs ++ sh.drawn ∧
      sh'.now = sh.now ∧
      sh.store.createAccessAndRefreshTokens env (ω.mintDraws vs) sh.now request captured current =
        (r, sh'.store) := by
  rw [exec, Shared.drawing, hvs] at h
  dsimp only at h
  by_cases hfresh : vs.length = (if current = "" then 3 else 2) ∧ sh.Fresh vs
  swap
  · rw [if_neg hfresh] at h
    cases h
  rw [if_pos hfresh] at h
  rcases hmint : sh.store.createAccessAndRefreshTokens env (ω.mintDraws vs) sh.now request captured
    current with ⟨r', s'⟩
  simp only [hmint] at h
  cases h
  exact ⟨hfresh.1, hfresh.2, rfl, rfl, rfl⟩

theorem exec_now_le (h : exec env op ω sh = some (r, sh')) : sh.now ≤ sh'.now := by
  cases exec_does h with
  | idle _ _ hnow => exact hnow
  | _ => exact Nat.le_refl _

end Steps

/-! ## Lineage -/

/-- Some call has minted the generation. -/
def Minted (ph : ℕ → Option Trail) (g : Generation) : Prop := ∃ j p, ph j = some p ∧ p.minted = some g

/-- Some call has spent the value. -/
def Spent (ph : ℕ → Option Trail) (v : String) : Prop := ∃ j p, ph j = some p ∧ p.spent = some v

/-- The mark of a generation, in the family of its value. -/
def Generation.mark (env : Env) (fam : String → String) (T : TokenTables) (g : Generation) :
    RefreshTombstone where
  familyID := fam g.value
  idHash := env.tokenHash g.accessID
  clientID := g.clientID
  subject := g.subject
  expiresAt := g.expiresAt - T.accessTTL + T.refreshTTL

/-- **Lineage**: `fam` is the family id of every value that was minted. -/
structure Lineage (env : Env) (fam : String → String) (sh : Shared) (ph : ℕ → Option Trail) : Prop where
  tidy : Tidy sh.store.tokens
  marks : ∀ k m, Marked sh.store.tokens k m →
    ∃ g, Minted ph g ∧ k = env.tokenHash g.value ∧ m = g.mark env fam sh.store.tokens
  parent : ∀ g, Minted ph g → g.parent ≠ "" → g.parent ∈ sh.drawn ∧ fam g.value = fam g.parent
  owner : ∀ g g', Minted ph g → Minted ph g' → fam g.value = fam g'.value →
    g.clientID = g'.clientID ∧ g.subject = g'.subject
  value : ∀ g, Minted ph g → g.value ∈ sh.drawn ∧ g.value ≠ ""
  accessID : ∀ g, Minted ph g → g.accessID ∈ sh.drawn
  family : ∀ g, Minted ph g → fam g.value ∈ sh.drawn ∧ fam g.value ≠ ""
  distinct : ∀ g g', Minted ph g → Minted ph g' → g.value = g'.value ∨ g.accessID = g'.accessID → g = g'
  resolved : ∀ j p, ph j = some p → ∀ o, p.resolved = some o →
    ∃ g, Minted ph g ∧ g.value = p.presented ∧ (g.clientID, g.subject) = o
  spent : ∀ j p, ph j = some p → ∀ v, p.spent = some v → v ≠ "" → ∃ g, Minted ph g ∧ g.value = v

/-- Nothing of the family is left. -/
def Gone (T : TokenTables) (familyID : String) : Prop := ∀ k m, Marked T k m → m.familyID ≠ familyID

section Lineage

variable {op : Op} {ω : Choice} {sh sh' : Shared} {r : Except Err op.Answer} {p : Trail}
  {ph : ℕ → Option Trail} {i : ℕ} {fam : String → String} {T' : TokenTables} {q : Trail}

theorem mark_of_bounds {T : TokenTables} (h : T'.bounds = T.bounds) (g : Generation) :
    g.mark env fam T' = g.mark env fam T := by
  obtain ⟨-, haccess, hrefresh⟩ := Prod.ext_iff.1 h |>.imp_right Prod.ext_iff.1
  rw [Generation.mark, Generation.mark, show T'.accessTTL = T.accessTTL from haccess,
    show T'.refreshTTL = T.refreshTTL from hrefresh]

section Update

variable {X : Type} {f : Trail → Option X} {x : X} {q : Trail}

/-- A call that leaves a part of its trail alone. -/
theorem exists_update_of_eq (hp : ph i = some p) (hq : f q = f p) :
    (∃ j p', update ph i (some q) j = some p' ∧ f p' = some x) ↔
      ∃ j p', ph j = some p' ∧ f p' = some x := by
  simp only [update_apply]
  grind

/-- A call that enters it. -/
theorem exists_update_of_none (hp : ph i = some p) (hnone : f p = none) {y : X} (hq : f q = some y) :
    (∃ j p', update ph i (some q) j = some p' ∧ f p' = some x) ↔
      (∃ j p', ph j = some p' ∧ f p' = some x) ∨ x = y := by
  simp only [update_apply]
  grind

/-- A call that starts with nothing there. -/
theorem exists_update_of_absent (hi : ph i = none) (hq : f q = none) :
    (∃ j p', update ph i (some q) j = some p' ∧ f p' = some x) ↔
      ∃ j p', ph j = some p' ∧ f p' = some x := by
  simp only [update_apply]
  grind

end Update

/-- A step after which there are no new marks. -/
theorem Lineage.shrink (h : Lineage env fam sh ph)
    (hminted : ∀ g, Minted (update ph i (some q)) g ↔ Minted ph g) (htidy : Tidy sh'.store.tokens)
    (hmarked : ∀ k m, Marked sh'.store.tokens k m → Marked sh.store.tokens k m)
    (hbounds : sh'.store.tokens.bounds = sh.store.tokens.bounds) (hdrawn : ∀ v ∈ sh.drawn, v ∈ sh'.drawn)
    (hresolved : ∀ o, q.resolved = some o →
      ∃ g, Minted ph g ∧ g.value = q.presented ∧ (g.clientID, g.subject) = o)
    (hspent : ∀ v, q.spent = some v → v ≠ "" → ∃ g, Minted ph g ∧ g.value = v) :
    Lineage env fam sh' (update ph i (some q)) := by
  have hmark := @mark_of_bounds env fam _ _ hbounds
  cases h
  refine ⟨htidy, ?_, ?_, ?_, ?_, ?_, ?_, ?_, forall_update ?_ ?_, forall_update ?_ ?_⟩
  all_goals grind

theorem Trail.advance_of_not_mint (p : Trail) (hop : op.mints = false) :
    (p.advance op r).minted = p.minted ∧ (p.advance op r).spent = p.spent ∧
      (p.advance op r).presented = p.presented := by
  cases op with
  | tokenRequestByRefreshToken v =>
    rcases r with e | ⟨a, e⟩
    all_goals exact ⟨rfl, rfl, rfl⟩
  | createAccessAndRefreshTokens request captured current => cases hop
  | _ => exact ⟨rfl, rfl, rfl⟩

section

variable (h : Lineage env fam sh ph) (hp : ph i = some p) (ha : p.Allowed op)
  (hex : exec env op ω sh = some (r, sh')) (hop : op.mints = false)
include h hp ha hex hop

/-- A refresh token that is resolved is a generation of its owner. -/
theorem Lineage.resolved_advance {o : String × String} (ho : (p.advance op r).resolved = some o) :
    ∃ g, Minted ph g ∧ g.value = (p.advance op r).presented ∧ (g.clientID, g.subject) = o := by
  rw [(p.advance_of_not_mint hop).2.2]
  cases op with
  | tokenRequestByRefreshToken v =>
    rcases r with e | ⟨a, e⟩
    · exact h.resolved i p hp o ho
    · obtain ⟨t, ht, rfl, -⟩ := exec_sees hex
      cases ho
      obtain ⟨g, hg, hk, hmark⟩ := h.marks (env.tokenHash v) t.tombstone (.inl ⟨t, ht, rfl⟩)
      refine ⟨g, hg, ?_, ?_⟩
      · rw [show p.presented = v from ha]
        exact (env.tokenHash_injective hk).symm
      · exact congrArg (fun m : RefreshTombstone => (m.clientID, m.subject)) hmark.symm
  | createAccessAndRefreshTokens request captured current => cases hop
  | _ => exact h.resolved i p hp o ho

/-- **Step lemma**, other than a mint. -/
theorem Lineage.step : Lineage env fam sh' (update ph i (some (p.advance op r))) := by
  have hprunes := exec_prunes h.tidy hex hop
  exact h.shrink (fun g => exists_update_of_eq hp (p.advance_of_not_mint hop).1) (hprunes.tidy h.tidy)
    (fun k m => hprunes.marked) hprunes.bounds (fun v hv => exec_drawn hex hv)
    (fun o => h.resolved_advance hp ha hex hop) ((p.advance_of_not_mint hop).2.1 ▸ h.spent i p hp)

end

/-- A call starts. -/
theorem Lineage.start (h : Lineage env fam sh ph) (hi : ph i = none) (c : Call) :
    Lineage env fam sh (update ph i (some ⟨c.refreshValue, none, none, none⟩)) :=
  h.shrink (fun _ => exists_update_of_absent hi rfl) h.tidy (fun _ _ => id) rfl (fun _ => id) nofun nofun

/-- The draws of a mint are new. -/
structure NewDraws (sh sh' : Shared) (current : String) (draws : MintDraws) : Prop where
  accessID : draws.accessID ∉ sh.drawn ∧ draws.accessID ∈ sh'.drawn
  value : draws.value ∉ sh.drawn ∧ draws.value ∈ sh'.drawn ∧ draws.value ≠ ""
  familyID : current = "" → draws.familyID ∉ sh.drawn ∧ draws.familyID ∈ sh'.drawn ∧ draws.familyID ≠ ""
  kept : ∀ v ∈ sh.drawn, v ∈ sh'.drawn

variable {request : TokenRequest} {captured : Option RevocationEpochs} {current : String}
  {r : Except Err Pair} {vs : List String} {t : RefreshToken} {draws : MintDraws}
  {familyID : String}

variable (h : Lineage env fam sh ph) (hp : ph i = some p)
  (ha : p.Allowed (.createAccessAndRefreshTokens request captured current))
  (hvs : ω.values = some vs) (hne : "" ∉ vs)
  (hbound : sh.store.refreshTombstones.size < sh.store.maxTombstones)
  (hex : exec env (.createAccessAndRefreshTokens request captured current) ω sh = some (r, sh'))
  (hdraws : NewDraws sh sh' current draws)

include hvs hne hex in
theorem newDraws_of_exec : NewDraws sh sh' current (ω.mintDraws vs) := by
  obtain ⟨hlen, hfresh, hdrawn, -, -⟩ := exec_mint hvs hex
  have hmem : ∀ n < vs.length, vs.getD n "" ∈ vs := by
    intro n hn
    rw [List.getD, List.getElem?_eq_getElem hn]
    exact getElem_mem hn
  have hnew : ∀ v ∈ vs, v ∉ sh.drawn ∧ v ∈ sh'.drawn ∧ v ≠ "" := by
    intro v hv
    refine ⟨hfresh.2 v hv, ?_, ?_⟩
    · rw [hdrawn]
      exact mem_append_left _ hv
    · rintro rfl
      exact hne hv
  have hlong : 2 ≤ vs.length := by split_ifs at hlen <;> omega
  refine ⟨?_, hnew _ (hmem 1 (by omega)), fun hcurrent => ?_, fun v hv => exec_drawn hex hv⟩
  · exact (hnew _ (hmem 0 (by omega))).imp_right And.left
  · rw [if_pos hcurrent] at hlen
    exact hnew _ (hmem 2 (by omega))

include h hvs hne hbound hex in
/-- What a mint does in a state with a lineage. -/
theorem Lineage.mintStep :
    MintStep env (ω.mintDraws vs) sh.now request current sh.store.tokens r sh'.store.tokens := by
  have hdraws := newDraws_of_exec hvs hne hex
  obtain ⟨-, -, -, -, hmint⟩ := exec_mint hvs hex
  refine mint_step h.tidy hbound (fun k t ht => ?_) ?_ (fun m hm => ?_) hmint
  · obtain ⟨g, hg, -, hmark⟩ := h.marks k t.tombstone (.inl ⟨t, ht, rfl⟩)
    rw [show t.familyID = fam g.value from congrArg RefreshTombstone.familyID hmark]
    exact (h.family g hg).2
  · refine eq_none_iff_forall_ne_some.2 fun t ht => ?_
    obtain ⟨k, m, hm, hpairs⟩ := h.tidy.named _ t ht
    obtain ⟨g, hg, -, rfl⟩ := h.marks k m hm
    have hid : g.accessID = (ω.mintDraws vs).accessID := env.tokenHash_injective hpairs.1
    exact hdraws.accessID.1 (hid ▸ h.accessID g hg)
  · obtain ⟨g, hg, hk, -⟩ := h.marks _ m hm
    have hvalue : (ω.mintDraws vs).value = g.value := env.tokenHash_injective hk
    exact hdraws.value.1 (hvalue ▸ (h.value g hg).1)

include h in
/-- The row a mint claims is a generation. -/
theorem Lineage.claimed
    (ht : sh.store.tokens.refreshTokens.get (env.tokenHash current) = some t) :
    ∃ g, Minted ph g ∧ g.value = current ∧ t.tombstone = g.mark env fam sh.store.tokens := by
  obtain ⟨g, hg, hk, hmark⟩ := h.marks _ t.tombstone (.inl ⟨t, ht, rfl⟩)
  exact ⟨g, hg, (env.tokenHash_injective hk).symm, hmark⟩

include h hdraws in
/-- What is gone stays gone. -/
theorem Lineage.gone_mint
    (hstep : MintStep env draws sh.now request current sh.store.tokens r T') {g : Generation}
    (hg : Minted ph g) (hgone : Gone sh.store.tokens (fam g.value)) : Gone T' (fam g.value) := by
  cases hstep with
  | replayed _ _ hprunes _ => exact fun k m hm => hgone k m (hprunes.marked hm)
  | refused hclaimed => exact fun k m hm => hgone k m (hclaimed.marked.1 hm)
  | minted hclaimed ht hgains =>
    intro k m hm
    obtain hm | ⟨-, rfl⟩ := (hgains.marked k m).1 hm
    · exact hgone k m (hclaimed.marked.1 hm)
    · rw [ht]
      cases hclaimed with
      | first hcurrent =>
        intro (heq : draws.familyID = fam g.value)
        exact (hdraws.familyID hcurrent).1 (heq ▸ (h.family g hg).1)
      | next _ hrow _ => exact hgone _ (RefreshToken.tombstone _) (.inl ⟨_, hrow, rfl⟩)

include h hdraws in
/-- The family a mint goes on with, or the new one. -/
theorem Lineage.family_of_claimed
    (hclaimed : Claimed env draws current sh.store.tokens familyID T') :
    (current = "" ∧ familyID ∉ sh.drawn ∧ familyID ∈ sh'.drawn ∧ familyID ≠ "") ∨
      ∃ g, Minted ph g ∧ g.value = current ∧ familyID = fam g.value := by
  cases hclaimed with
  | first hcurrent => exact .inl ⟨hcurrent, hdraws.familyID hcurrent⟩
  | next _ hrow _ =>
    obtain ⟨g, hg, hvalue, hmark⟩ := h.claimed hrow
    exact .inr ⟨g, hg, hvalue, congrArg RefreshTombstone.familyID hmark⟩

include h hp ha hdraws in
/-- A pair is stored. -/
theorem Lineage.grow {T₁ : TokenTables} {a : AccessToken}
    (hclaimed : Claimed env draws current sh.store.tokens familyID T₁)
    (ht : t.tombstone = ⟨familyID, env.tokenHash draws.accessID, request.clientID, request.subject,
      sh.now + sh.store.tokens.refreshTTL⟩)
    (hgains : Gains (env.tokenHash draws.accessID) a (env.tokenHash draws.value) t T₁ sh'.store.tokens)
    (hq : q.minted = some ⟨current, draws.accessID, draws.value, request.clientID,
      request.subject, sh.now + sh.store.tokens.accessTTL⟩) (hresolved : q.resolved = p.resolved)
    (hpresented : q.presented = p.presented) (hspent : q.spent = some current) :
    Lineage env (update fam draws.value familyID) sh' (update ph i (some q)) := by
  obtain ⟨hnone, -, hcurrent, howner⟩ := ha
  obtain ⟨g₀, hg₀⟩ : ∃ g₀ : Generation, g₀ = ⟨current, draws.accessID, draws.value, request.clientID,
    request.subject, sh.now + sh.store.tokens.accessTTL⟩ := ⟨_, rfl⟩
  rw [← hg₀] at hq
  have hminted : ∀ g, Minted (update ph i (some q)) g ↔ Minted ph g ∨ g = g₀ :=
    fun g => exists_update_of_none hp hnone hq
  have hbounds : sh'.store.tokens.bounds = sh.store.tokens.bounds := hgains.bounds.trans hclaimed.bounds
  -- the values of earlier generations keep their family
  have hfam : ∀ v ∈ sh.drawn, update fam draws.value familyID v = fam v := by
    intro v hv
    refine update_of_ne ?_ _ _
    rintro rfl
    exact hdraws.value.1 hv
  have hfam₀ : update fam draws.value familyID g₀.value = familyID := by
    rw [hg₀]
    exact update_self ..
  have hold : ∀ g, Minted ph g → update fam draws.value familyID g.value = fam g.value :=
    fun g hg => hfam _ (h.value g hg).1
  have hmark : ∀ g, Minted ph g → g.mark env (update fam draws.value familyID) sh'.store.tokens =
      g.mark env fam sh.store.tokens := by
    intro g hg
    rw [mark_of_bounds hbounds, Generation.mark, Generation.mark, hold g hg]
  -- the parent of the new generation, of the same owner
  have hparent : (current = "" ∧ familyID ∉ sh.drawn ∧ familyID ∈ sh'.drawn ∧ familyID ≠ "") ∨
      ∃ g, Minted ph g ∧ g.value = current ∧ familyID = fam g.value ∧ g.clientID = request.clientID ∧
        g.subject = request.subject := by
    refine (h.family_of_claimed hdraws hclaimed).imp_right ?_
    rintro ⟨g, hg, hvalue, hfamily⟩
    refine ⟨g, hg, hvalue, hfamily, ?_⟩
    have hne : current ≠ "" := hvalue ▸ (h.value g hg).2
    obtain ⟨g', hg', hvalue', ho⟩ := h.resolved i p hp _ (howner hne)
    obtain rfl := h.distinct g g' hg hg' (.inl (by rw [hvalue, hvalue', hcurrent]))
    exact Prod.ext_iff.1 ho
  -- a generation of the family has the owner of the new one
  refine ⟨hgains.tidy, fun k m hm => ?_, fun g hg hne => ?_, ?_, ?_, ?_, ?_, ?_, forall_update ?_ ?_,
    forall_update ?_ ?_⟩
  · obtain hm | ⟨rfl, rfl⟩ := (hgains.marked k m).1 hm
    · obtain ⟨g, hg, hk, rfl⟩ := h.marks k m (hclaimed.marked.1 hm)
      exact ⟨g, (hminted g).2 (.inl hg), hk, (hmark g hg).symm⟩
    · refine ⟨g₀, (hminted g₀).2 (.inr rfl), by rw [hg₀], ?_⟩
      rw [ht, mark_of_bounds hbounds, Generation.mark, hfam₀, hg₀]
      simp
  · obtain hg | rfl := (hminted g).1 hg
    · obtain ⟨hmem, hfamily⟩ := h.parent g hg hne
      exact ⟨hdraws.kept _ hmem, by rw [hold g hg, hfam _ hmem, hfamily]⟩
    · obtain ⟨hempty, -⟩ | ⟨g', hg', hvalue, hfamily, -⟩ := hparent
      · rw [hg₀] at hne
        exact absurd hempty hne
      · have hmem : current ∈ sh.drawn := hvalue ▸ (h.value g' hg').1
        rw [hfam₀, show g.parent = current by rw [hg₀], hfam _ hmem, hfamily, hvalue]
        exact ⟨hdraws.kept _ hmem, rfl⟩
  all_goals
    cases h
    cases hdraws
    grind

include h hp ha hvs hne hbound hex in
/-- **Step lemma** of a mint: the families of the earlier values stay. -/
theorem Lineage.mint :
    ∃ fam', (∀ g, Minted ph g → fam' g.value = fam g.value) ∧ Lineage env fam' sh' (update ph i
        (some (p.advance (.createAccessAndRefreshTokens request captured current) r))) := by
  have hdraws := newDraws_of_exec hvs hne hex
  have hstep := h.mintStep hvs hne hbound hex
  generalize hT : sh'.store.tokens = T' at hstep
  cases hstep with
  | replayed _ _ hprunes _ =>
    subst hT
    exact ⟨fam, fun _ _ => rfl, h.shrink (fun g => exists_update_of_eq hp rfl) (hprunes.tidy h.tidy)
      (fun k m => hprunes.marked) hprunes.bounds hdraws.kept (h.resolved i p hp) (h.spent i p hp)⟩
  | refused hclaimed =>
    subst hT
    refine ⟨fam, fun _ _ => rfl, h.shrink (fun g => exists_update_of_eq hp (by rfl))
      (hclaimed.tidy h.tidy) (fun k m => hclaimed.marked.1) hclaimed.bounds hdraws.kept
      (h.resolved i p hp) fun v hv hne => ?_⟩
    cases hv
    obtain ⟨hempty, -⟩ | ⟨g, hg, hvalue, -⟩ := h.family_of_claimed hdraws hclaimed
    · exact absurd hempty hne
    · exact ⟨g, hg, hvalue⟩
  | minted hclaimed ht hgains =>
    subst hT
    refine ⟨_, fun g hg => ?_, h.grow hp ha hdraws hclaimed ht hgains rfl rfl rfl rfl⟩
    refine update_of_ne ?_ _ _
    intro heq
    exact hdraws.value.1 (heq ▸ (h.value g hg).1)

end Lineage

/-! ## A spent value -/

/-- **Answered**: a value that was spent has its tombstone, or nothing of its family is left, or it is past
its deadline. -/
def Answered (env : Env) (fam : String → String) (g : Generation) (sh : Shared) (ph : ℕ → Option Trail) :
    Prop :=
  Minted ph g → Spent ph g.value →
    sh.store.refreshTombstones.get (env.tokenHash g.value) = some (g.mark env fam sh.store.tokens) ∨
      Gone sh.store.tokens (fam g.value) ∨ (g.mark env fam sh.store.tokens).expiresAt ≤ sh.now

section Answered

variable {op : Op} {ω : Choice} {sh sh' : Shared} {r : Except Err op.Answer} {p : Trail}
  {ph : ℕ → Option Trail} {i : ℕ} {fam : String → String} {g : Generation}
  {revoked : String → RefreshTombstone → Prop}

variable (h : Answered env fam g sh ph) (hlineage : Lineage env fam sh ph) (hp : ph i = some p)
  (hsubject : g.subject ≠ "")

include hlineage hsubject in
/-- A tombstone that a deletion leaves, or why it does not. -/
theorem Lineage.answered_of_prunes (hg : Minted ph g)
    (hprunes : Prunes sh.now revoked sh.store.tokens sh'.store.tokens)
    (hrevoked : ¬ revoked (env.tokenHash g.value) (g.mark env fam sh.store.tokens))
    (hts : sh.store.refreshTombstones.get (env.tokenHash g.value) =
      some (g.mark env fam sh.store.tokens)) :
    sh'.store.refreshTombstones.get (env.tokenHash g.value) = some (g.mark env fam sh.store.tokens) ∨
      Gone sh'.store.tokens (fam g.value) ∨ (g.mark env fam sh.store.tokens).expiresAt ≤ sh.now := by
  obtain (⟨t, ht, -⟩ | hkept) | hlapsed | hstruck := hprunes.lapsed _ _ (.inr hts)
  · have hrow := hlineage.tidy.apart _ t (hprunes.refreshTokens _ t ht)
    exact absurd (hrow.symm.trans hts) nofun
  · exact .inl hkept
  · cases hlapsed with
    | expired hexpired => exact .inr (.inr hexpired)
    | unowned hnone => exact absurd hnone hsubject
    | family hgone => exact .inr (.inl hgone)
    | owner hgone =>
      -- the generations of the family have the owner of this one
      refine .inr (.inl fun k m hm heq => hgone k m hm ?_)
      obtain ⟨g', hg', -, rfl⟩ := hlineage.marks k m (hprunes.marked hm)
      exact hlineage.owner g' g hg' hg heq
  · exact absurd hstruck hrevoked

include h hlineage hp hsubject in
/-- A step that deletes and spends nothing. -/
theorem Answered.prune {q : Trail} (hminted : q.minted = p.minted) (hspent : q.spent = p.spent)
    (hnow : sh.now ≤ sh'.now) (hprunes : Prunes sh.now revoked sh.store.tokens sh'.store.tokens)
    (hrevoked : Minted ph g → ¬ revoked (env.tokenHash g.value) (g.mark env fam sh.store.tokens)) :
    Answered env fam g sh' (update ph i (some q)) := by
  have hlater : ∀ {t : Time}, t ≤ sh.now → t ≤ sh'.now := fun ht => Int.le_trans ht (Int.ofNat_le.2 hnow)
  intro hg hs
  replace hg : Minted ph g := (exists_update_of_eq hp hminted).1 hg
  replace hs : Spent ph g.value := (exists_update_of_eq hp hspent).1 hs
  rw [mark_of_bounds hprunes.bounds]
  obtain hts | hgone | hexpired := h hg hs
  · exact (hlineage.answered_of_prunes hsubject hg hprunes (hrevoked hg) hts).imp_right (Or.imp_right hlater)
  · exact .inr (.inl fun k m hm => hgone k m (hprunes.marked hm))
  · exact .inr (.inr (hlater hexpired))

include h hlineage hp hsubject in
/-- **Step lemma**, other than a mint. -/
theorem Answered.step (hex : exec env op ω sh = some (r, sh')) (hop : op.mints = false)
    (hstruck : Minted ph g → ¬ op.strikes env (env.tokenHash g.value) (g.mark env fam sh.store.tokens)) :
    Answered env fam g sh' (update ph i (some (p.advance op r))) := by
  obtain ⟨hminted, hspent, -⟩ := p.advance_of_not_mint (r := r) hop
  exact h.prune hlineage hp hsubject hminted hspent (exec_now_le hex) (exec_prunes hlineage.tidy hex hop)
    hstruck

variable {request : TokenRequest} {captured : Option RevocationEpochs} {current : String}
  {r : Except Err Pair} {vs : List String} {draws : MintDraws} {familyID : String} {T₁ : TokenTables}

include h hlineage in
/-- The claim of a mint leaves a tombstone for what it spends. -/
theorem Answered.claim
    (hclaimed : Claimed env draws current sh.store.tokens familyID T₁) (hg : Minted ph g)
    (hs : Spent ph g.value ∨ g.value = current) :
    T₁.refreshTombstones.get (env.tokenHash g.value) = some (g.mark env fam sh.store.tokens) ∨
      Gone sh.store.tokens (fam g.value) ∨ (g.mark env fam sh.store.tokens).expiresAt ≤ sh.now := by
  rcases hs with hs | rfl
  · exact (h hg hs).imp_left fun hts => hclaimed.tombstone hlineage.tidy hts
  · cases hclaimed with
    | first hempty => exact absurd hempty (hlineage.value g hg).2
    | next _ hrow hspends =>
      obtain ⟨g', hg', hvalue, hmark⟩ := hlineage.claimed hrow
      obtain rfl := hlineage.distinct g' g hg' hg (.inl hvalue)
      -- the row is gone, so that the mark is the tombstone
      obtain ⟨t, ht, -⟩ | hts := (hspends.marked _ _).2 (.inl ⟨_, hrow, rfl⟩)
      · exact absurd (hspends.row.symm.trans ht) nofun
      · exact .inl (hts.trans (congrArg some hmark))

include h hlineage hp hsubject in
/-- **Step lemma** of a mint. -/
theorem Answered.mint
    (ha : p.Allowed (.createAccessAndRefreshTokens request captured current)) (hvs : ω.values = some vs)
    (hne : "" ∉ vs)
    (hbound : sh.store.refreshTombstones.size < sh.store.maxTombstones)
    (hex : exec env (.createAccessAndRefreshTokens request captured current) ω sh = some (r, sh'))
    {fam' : String → String} (hfam : ∀ g, Minted ph g → fam' g.value = fam g.value) :
    Answered env fam' g sh' (update ph i
      (some (p.advance (.createAccessAndRefreshTokens request captured current) r))) := by
  have hdraws := newDraws_of_exec hvs hne hex
  have hstep := hlineage.mintStep hvs hne hbound hex
  have hgone' : Minted ph g → Gone sh.store.tokens (fam g.value) → Gone sh'.store.tokens (fam g.value) :=
    hlineage.gone_mint hdraws hstep
  obtain ⟨-, -, -, hnow, -⟩ := exec_mint hvs hex
  obtain ⟨hnone, hspent, -⟩ := ha
  -- the families of the earlier generations are the same
  have hrename : ∀ {ph'}, (Minted ph' g → Minted ph g) → Answered env fam g sh' ph' →
      Answered env fam' g sh' ph' := by
    intro ph' hold hA hg hs
    have hmark : g.mark env fam' sh'.store.tokens = g.mark env fam sh'.store.tokens := by
      rw [Generation.mark, Generation.mark, hfam g (hold hg)]
    rw [hmark, hfam g (hold hg)]
    exact hA hg hs
  generalize hT : sh'.store.tokens = T' at hstep hgone'
  cases hstep with
  | replayed _ _ hprunes _ =>
    subst hT
    refine hrename (exists_update_of_eq hp rfl).1 (h.prune hlineage hp hsubject rfl rfl ?_ hprunes ?_)
    · exact hnow ▸ Nat.le_refl _
    · exact fun _ => id
  | refused hclaimed =>
    subst hT
    have hold : Minted (update ph i (some { p with spent := some current })) g → Minted ph g :=
      (exists_update_of_eq (f := Trail.minted) (q := { p with spent := some current }) hp rfl).1
    refine hrename hold fun hg hs => ?_
    replace hs := (exists_update_of_none (f := Trail.spent) hp hspent rfl).1 hs
    rw [mark_of_bounds hclaimed.bounds, hnow]
    exact (h.claim hlineage hclaimed (hold hg) hs).imp_right (Or.imp_left (hgone' (hold hg)))
  | minted hclaimed ht hgains =>
    subst hT
    intro hg hs
    replace hs := (exists_update_of_none (f := Trail.spent) hp hspent rfl).1 hs
    obtain hg | rfl := (exists_update_of_none (f := Trail.minted) hp hnone rfl).1 hg
    · rw [mark_of_bounds (hgains.bounds.trans hclaimed.bounds), Generation.mark, hfam g hg, hnow]
      refine (h.claim hlineage hclaimed hg hs).imp (fun hts => ?_) (Or.imp_left (hgone' hg))
      exact (congrArg (Dict.get · _) hgains.refreshTombstones).trans hts
    · -- nobody has spent a value that was drawn just now
      exfalso
      have hspent' : ∃ g, Minted ph g ∧ g.value = (ω.mintDraws vs).value := by
        rcases hs with ⟨j, q, hq, hv⟩ | hcurrent
        · exact hlineage.spent j q hq _ hv hdraws.value.2.2
        · obtain ⟨hempty, -⟩ | ⟨g, hg, hvalue, -⟩ := hlineage.family_of_claimed hdraws hclaimed
          · exact absurd (hcurrent.trans hempty) hdraws.value.2.2
          · exact ⟨g, hg, hvalue.trans hcurrent.symm⟩
      obtain ⟨g, hg, hvalue⟩ := hspent'
      exact hdraws.value.1 (hvalue ▸ (hlineage.value g hg).1)

/-- A call starts. -/
theorem Answered.start (h : Answered env fam g sh ph) (hi : ph i = none) (c : Call) :
    Answered env fam g sh (update ph i (some ⟨c.refreshValue, none, none, none⟩)) :=
  fun hg hs => h ((exists_update_of_absent hi rfl).1 hg) ((exists_update_of_absent hi rfl).1 hs)

end Answered

/-! ## Runs -/

/-- The provider with the trails of its calls. -/
abbrev Tracked (env : Env) : Type := Pool (provider env) (trail env)

/-- A new store, with any registered clients, before any call. -/
structure Begun (σ : Tracked env) : Prop where
  store : ∃ opts, σ.sh.store = newOIDCStore opts
  threads : ∀ i, σ.threads i = none

/-- One value was rotated into the other. -/
def Begets (ph : ℕ → Option Trail) (v w : String) : Prop :=
  ∃ g, Minted ph g ∧ g.parent = v ∧ g.value = w ∧ v ≠ ""

/-- **Kin**: values of one family, by rotation back and forth. -/
def Kin (ph : ℕ → Option Trail) : String → String → Prop := Relation.EqvGen (Begets ph)

/-- The token is of a generation of the family of a value. -/
def OfFamily (ph : ℕ → Option Trail) (v token : String) : Prop :=
  ∃ g, Minted ph g ∧ Kin ph v g.value ∧ (token = g.value ∨ token = g.accessID)

/-- What the steps of a run must not do to the family of a value: the random source serves every mint, with
values that are not empty, no mint finds the tombstones at their bound, and `RevokeToken` is not called on
the family. -/
def Spares (v : String) (σ : Tracked env) (ω : Choice) : Op → Prop
  | .createAccessAndRefreshTokens _ _ _ => (∃ vs, ω.values = some vs ∧ "" ∉ vs) ∧
    σ.sh.store.refreshTombstones.size < σ.sh.store.maxTombstones
  | .revokeToken token _ => ¬ OfFamily σ.phase v token
  | _ => True

/-- The events of a run that spare the family of a value. -/
def Steady (v : String) (σ : Tracked env) : Event (provider env) → Prop
  | .start _ _ => True
  | .step i ω => ∀ op, σ.nextOp i = some op → Spares v σ ω op

/-- The refresh value a step is given. -/
def Op.presented : Op → Option String
  | tokenRequestByRefreshToken value => some value
  | createAccessAndRefreshTokens _ _ current => some current
  | _ => none

/-- The deadline of the refresh token of a generation. -/
def Generation.deadline (g : Generation) (s : OIDCStore) : Time := g.expiresAt - s.accessTTL + s.refreshTTL

section Runs

variable {σ σ₀ τ : Tracked env} {g : Generation} {fam : String → String} {v : String}

theorem Begun.conforming (h : Begun σ) : σ.Conforming fun _ _ => True := by
  intro i th hi
  rw [h.threads i] at hi
  cases hi

theorem Begun.lineage (h : Begun σ) : Lineage env id σ.sh σ.phase := by
  have hnone : ∀ i, σ.phase i = none := fun i => by rw [phase, h.threads i]; rfl
  have hminted : ∀ g, ¬ Minted σ.phase g := by
    rintro g ⟨j, p, hp, -⟩
    rw [hnone j] at hp
    cases hp
  obtain ⟨opts, hstore⟩ := h.store
  have hmarked : ∀ k m, ¬ Marked σ.sh.store.tokens k m := by
    rw [hstore]
    rintro k m (⟨t, ht, -⟩ | hts)
    · cases ht
    · cases hts
  refine ⟨⟨?_, ?_, ?_, ?_⟩, ?_, ?_, ?_, ?_, ?_, ?_, ?_, ?_, ?_⟩
  · rw [hstore]
    exact ⟨.empty, .empty, by rintro _ _ ⟨⟩⟩
  · exact fun k t ht => absurd (.inl ⟨t, ht, rfl⟩) (hmarked k t.tombstone)
  · rw [hstore]
    rintro _ _ ⟨⟩
  · rw [hstore]
    show 3600 * second ≤ 30 * 24 * 3600 * second
    decide
  all_goals grind

/-- Kin are of one family. -/
theorem Lineage.kin {sh : Shared} {ph : ℕ → Option Trail}
    (h : Lineage env fam sh ph) {w : String} (hkin : Kin ph v w) : fam v = fam w := by
  induction hkin with
  | rel v w hbegets =>
    obtain ⟨g, hg, rfl, rfl, hne⟩ := hbegets
    exact (h.parent g hg hne).2.symm
  | refl v => rfl
  | symm v w _ ih => exact ih.symm
  | trans u v w _ _ ih ih' => exact ih.trans ih'

/-- A step that spares the family of a generation does not strike its mark. -/
theorem not_strikes {T : TokenTables} {ω : Choice} {op : Op}
    (hv : g.value = v) (hok : Spares v σ ω op) (hg : Minted σ.phase g) :
    ¬ op.strikes env (env.tokenHash g.value) (g.mark env fam T) := by
  cases op with
  | revokeToken token c =>
    rintro (hvalue | hid)
    · exact hok ⟨g, hg, hv ▸ .refl _, .inl (env.tokenHash_injective hvalue).symm⟩
    · exact hok ⟨g, hg, hv ▸ .refl _, .inr (env.tokenHash_injective hid).symm⟩
  | _ => exact id

/-- What a run keeps before the value is presented. -/
def Followed (env : Env) (g : Generation) (sh : Shared) (ph : ℕ → Option Trail) : Prop :=
  ∃ fam, Lineage env fam sh ph ∧ Answered env fam g sh ph

/-- What a run keeps afterwards. -/
def Ended (env : Env) (g : Generation) (sh : Shared) (ph : ℕ → Option Trail) : Prop :=
  ∃ fam, Lineage env fam sh ph ∧ Minted ph g ∧ Gone sh.store.tokens (fam g.value)

section Step

variable {op : Op} {ω : Choice} {sh' : Shared} {r : Except Err op.Answer} {p : Trail} {i : ℕ}
  (hp : σ.phase i = some p) (hok : Spares v σ ω op) (ha : p.Allowed op)
  (hex : exec env op ω σ.sh = some (r, sh'))

theorem Minted.step {ph : ℕ → Option Trail} (hp : ph i = some p) (ha : p.Allowed op)
    (hg : Minted ph g) : Minted (update ph i (some (p.advance op r))) g := by
  by_cases hop : op.mints = false
  · exact (exists_update_of_eq hp (p.advance_of_not_mint hop).1).2 hg
  · obtain ⟨j, q, hq, hm⟩ := hg
    refine ⟨j, q, ?_, hm⟩
    rw [update_of_ne, hq]
    rintro rfl
    rw [hp] at hq
    cases hq
    cases op with
    | createAccessAndRefreshTokens request captured current =>
      rw [ha.1] at hm
      cases hm
    | _ => exact hop rfl

include hp ha hex in
theorem Followed.step (h : Followed env g σ.sh σ.phase) (hsubject : g.subject ≠ "")
    (hok : Spares g.value σ ω op) : Followed env g sh' (update σ.phase i (some (p.advance op r))) := by
  obtain ⟨fam, hlineage, hanswered⟩ := h
  by_cases hop : op.mints = false
  · refine ⟨fam, hlineage.step hp ha hex hop, hanswered.step hlineage hp hsubject hex hop ?_⟩
    exact not_strikes rfl hok
  · cases op with
    | createAccessAndRefreshTokens request captured current =>
      obtain ⟨⟨vs, hvs, hne⟩, hbound⟩ := hok
      obtain ⟨fam', hfam, hlineage'⟩ := hlineage.mint hp ha hvs hne hbound hex
      exact ⟨fam', hlineage', hanswered.mint hlineage hp hsubject ha hvs hne hbound hex hfam⟩
    | _ => exact absurd rfl hop

include hp hok ha hex in
theorem Ended.step (h : Ended env g σ.sh σ.phase) :
    Ended env g sh' (update σ.phase i (some (p.advance op r))) := by
  obtain ⟨fam, hlineage, hg, hgone⟩ := h
  have hg' := hg.step (r := r) hp ha
  by_cases hop : op.mints = false
  · refine ⟨fam, hlineage.step hp ha hex hop, hg', fun k m hm => hgone k m ?_⟩
    exact (exec_prunes hlineage.tidy hex hop).marked hm
  · cases op with
    | createAccessAndRefreshTokens request captured current =>
      obtain ⟨⟨vs, hvs, hne⟩, hbound⟩ := hok
      obtain ⟨fam', hfam, hlineage'⟩ := hlineage.mint hp ha hvs hne hbound hex
      refine ⟨fam', hlineage', hg', ?_⟩
      rw [hfam g hg]
      exact hlineage.gone_mint (newDraws_of_exec hvs hne hex) (hlineage.mintStep hvs hne hbound hex) hg hgone
    | _ => exact absurd rfl hop

include hp ha hex in
/-- **The replay**: a spent value that is presented before its deadline takes its family down. -/
theorem Followed.replay (h : Followed env g σ.sh σ.phase) (hg : Minted σ.phase g)
    (hspent : Spent σ.phase g.value) (hlive : σ.sh.now < g.deadline σ.sh.store)
    (hpresented : op.presented = some g.value) (hok : Spares g.value σ ω op) :
    Ended env g sh' (update σ.phase i (some (p.advance op r))) := by
  obtain ⟨fam, hlineage, hanswered⟩ := h
  obtain hts | hgone | hexpired := hanswered hg hspent
  · -- the tombstone is there, and the row is not
    have hrow : σ.sh.store.refreshTokens.get (env.tokenHash g.value) = none := by
      refine eq_none_iff_forall_ne_some.2 fun t ht => ?_
      cases (hlineage.tidy.apart _ t ht).symm.trans hts
    have hfamily := (hlineage.family g hg).2
    have hg' := hg.step (r := r) hp ha
    cases op with
    | tokenRequestByRefreshToken v =>
      cases hpresented
      refine ⟨fam, hlineage.step hp ha hex rfl, hg', ?_⟩
      have hstore := store_onStore hex
      rw [tokenRequestByRefreshToken, hrow, hts] at hstore
      simp only [filter_none, filter_some, decide_eq_true_eq] at hstore
      rw [if_pos (show (σ.sh.now : Time) < (g.mark env fam σ.sh.store.tokens).expiresAt from hlive)] at hstore
      rw [hstore]
      exact fun k m hm => ((marked_revokeFamily hfamily).1 hm).2
    | createAccessAndRefreshTokens request captured current =>
      cases hpresented
      obtain ⟨⟨vs, hvs, hne⟩, hbound⟩ := hok
      obtain ⟨fam', hfam, hlineage'⟩ := hlineage.mint hp ha hvs hne hbound hex
      refine ⟨fam', hlineage', hg', ?_⟩
      rw [hfam g hg]
      have hunclaimed : ∀ F T', ¬ Claimed env (ω.mintDraws vs) g.value σ.sh.store.tokens F T' := by
        rintro F T' (hempty | ⟨-, ht, -⟩)
        · exact (hlineage.value g hg).2 hempty
        · cases hrow.symm.trans ht
      have hstep := hlineage.mintStep hvs hne hbound hex
      cases hstep with
      | replayed _ _ _ hgone => exact hgone _ hts hfamily
      | refused hclaimed => exact absurd hclaimed (hunclaimed _ _)
      | minted hclaimed _ _ => exact absurd hclaimed (hunclaimed _ _)
    | _ => cases hpresented
  · exact Ended.step hp hok ha hex ⟨fam, hlineage, hg, hgone⟩
  · exact absurd hlive (Int.not_lt.2 hexpired)

end Step

theorem Followed.runs (h : Pool.Reaches (Steady g.value) σ τ) (hsubject : g.subject ≠ "")
    (hσ : σ.Conforming fun _ _ => True) (hfollowed : Followed env g σ.sh σ.phase) :
    Followed env g τ.sh τ.phase :=
  h.invariant (I := Followed env g) trail_follows
    (fun _ _ c _ ⟨fam, hlineage, hanswered⟩ hi => ⟨fam, hlineage.start hi c, hanswered.start hi c⟩)
    (fun _ _ _ _ _ _ _ hok hI hp hop ha hex => hI.step hp ha hex hsubject (hok _ hop))
    hσ hfollowed

theorem Ended.runs (h : Pool.Reaches (Steady v) σ τ) (hσ : σ.Conforming fun _ _ => True)
    (hended : Ended env g σ.sh σ.phase) : Ended env g τ.sh τ.phase :=
  h.invariant (I := Ended env g) trail_follows (fun _ _ c _ ⟨fam, hlineage, hg, hgone⟩ hi =>
      ⟨fam, hlineage.start hi c, (exists_update_of_absent hi rfl).2 hg, hgone⟩)
    (fun _ _ _ _ _ _ _ hok hI hp hop ha hex => hI.step hp (hok _ hop) ha hex) hσ hended

/-- Where a family has ended, none of its refresh tokens and access tokens is stored. -/
theorem Ended.tokens (h : Ended env g τ.sh τ.phase) {g' : Generation} (hg' : Minted τ.phase g')
    (hkin : Kin τ.phase g.value g'.value) :
    τ.sh.store.refreshTokens.get (env.tokenHash g'.value) = none ∧
      τ.sh.store.accessTokens.get (env.tokenHash g'.accessID) = none := by
  obtain ⟨fam, hlineage, -, hgone⟩ := h
  have hfamily : fam g'.value = fam g.value := (hlineage.kin hkin).symm
  constructor
  · refine eq_none_iff_forall_ne_some.2 fun t ht => ?_
    obtain ⟨g'', hg'', hvalue, hmark⟩ := hlineage.claimed ht
    obtain rfl := hlineage.distinct g'' g' hg'' hg' (.inl hvalue)
    refine hgone _ t.tombstone (.inl ⟨t, ht, rfl⟩) ?_
    rw [hmark]
    exact hfamily
  · -- an access token that is left is named by the mark of its generation
    refine eq_none_iff_forall_ne_some.2 fun t ht => ?_
    obtain ⟨k, m, hm, hpairs⟩ := hlineage.tidy.named _ t ht
    obtain ⟨g'', hg'', -, rfl⟩ := hlineage.marks k m hm
    obtain rfl := hlineage.distinct g'' g' hg'' hg' (.inr (env.tokenHash_injective hpairs.1))
    exact hgone k _ hm hfamily

/-- The new store, with one client. -/
def rotationStart : Tracked sampleEnv where
  sh := sampleStart.sh
  threads _ := none

theorem rotationStart_begun : Begun rotationStart := ⟨⟨_, rfl⟩, fun _ => rfl⟩

/-- A grant of the subject `u` is redeemed, and its refresh token is rotated once. -/
def rotating (u : String) : List (Event (provider sampleEnv)) :=
  running 0 (.authorize sampleParams "") [[], [], ["id"]] ++
    running 1 (.approveAuthorization "id" u none) [[], [], []] ++
    running 2 (.authorizeCallback "id") [[], [], ["code"]] ++
    running 3 (.code "c" "code") [[], [], [], ["at", "rt", "family"]] ++
    running 4 (.refresh "c" "rt") [[], [], [], ["at2", "rt2"]]

/-- The two generations. -/
def firstGeneration (u : String) : Generation := ⟨"", "at", "rt", "c", u, 100 + 3600 * second⟩

/-- The generation after the rotation. -/
def secondGeneration (u : String) : Generation := ⟨"rt", "at2", "rt2", "c", u, 100 + 3600 * second⟩

/-- A check of an event of a run without `RevokeToken`. -/
def spared (σ : Tracked env) : Event (provider env) → Bool
  | .start _ _ => true
  | .step i ω => match σ.nextOp i with
    | some (.createAccessAndRefreshTokens _ _ _) => (ω.values.any fun vs => !vs.contains "") &&
      decide (σ.sh.store.refreshTombstones.size < σ.sh.store.maxTombstones)
    | some (.revokeToken _ _) => false
    | _ => true

theorem steady_of_spared {e : Event (provider env)} (h : spared σ e = true) : Steady v σ e := by
  cases e with
  | start i c => trivial
  | step i ω =>
    intro op hop
    rw [spared, hop] at h
    cases op with
    | createAccessAndRefreshTokens request captured current =>
      obtain ⟨hvalues, hbound⟩ := Bool.and_eq_true_iff.1 h
      obtain ⟨vs, hvs, hne⟩ := (any_eq_true _ _).1 hvalues
      exact ⟨⟨vs, hvs, by simpa using hne⟩, of_decide_eq_true hbound⟩
    | revokeToken token c => cases h
    | _ => trivial

theorem reaches_of_spared (es : List (Event (provider env))) (h : σ.runIf spared es = some τ) :
    Pool.Reaches (Steady v) σ τ :=
  reaches_of_check es (fun _ _ => steady_of_spared) h

end Runs

end Re0Auth.Memory

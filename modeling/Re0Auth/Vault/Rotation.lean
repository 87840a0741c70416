import Re0Auth.Vault.Typestate

/-!
# Rotation loses no secret

A rotation works on pages it has read a while ago and replaces an envelope if the wrapped key is still
the one it read. That comparison stands for the whole record because no two wraps have one value: two
records with one wrapped key have one data key, so the new envelope fits the ciphertext it lands on.

* **`Known`**: the wrap a record's envelope came from;
* **`Sound`**, **`Phase.Fits`**: the stored records open to the secrets last enrolled, and what the
  calls hold agrees with the wraps made (**`Sound.step`**);
* **`rotation_keeps_secrets`**: a use returns the secret last enrolled, and a rotation touches nothing
  but envelopes.
-/

namespace Re0Auth.Vault

open Lib OAuth Function Pool Dict List MemoryRepo

variable {A : Aead} {full cfg : Config} {op : Op} {ω : Choice} {sh sh' : Shared} {p q : Phase}
  {ph : ℕ → Option Phase} {i : ℕ} {id : Identity} {rec : Record} {wraps wraps' : Dict Bytes Wrap}
  {e : Wrap} {c : Call} {repo : MemoryRepo} {enrolled : Dict Identity Bytes} {key : KeyWrapper}
  {dek aad w secret : Bytes} {r : op.Res}

/-! ## What calls know of wraps -/

/-- **The wrap of a record**: its envelope, under a key of the full ring. -/
structure Known (full : Config) (wraps : Dict Bytes Wrap) (rec : Record) (e : Wrap) : Prop where
  entry : wraps.get rec.wrappedDEK = some e
  key : full.keys.get rec.kekID = some e.key
  aad : e.aad = rec.aad

theorem Known.mono (h : Known full wraps rec e) (hsub : wraps.Sub wraps') : Known full wraps' rec e :=
  { h with entry := hsub _ _ h.entry }

/-- The keys of a service are among those of the full ring. -/
def Call.Within (full : Config) : Call → Prop
  | enroll cfg _ _ _ | use cfg _ | revoke cfg _ | «exists» cfg _ | rotate cfg _ =>
    ∀ k key, cfg.keys.get k = some key → full.keys.get k = some key
  | deleteSubject _ => True

/-- What a stage holds agrees with the wraps made. -/
def Stage.Fits (full : Config) (wraps : Dict Bytes Wrap) (c : Call) : Stage → Prop
  | .wrapped dek w => ∀ cfg id secret m, c = .enroll cfg id secret m →
    wraps.get w = some ⟨cfg.current, dek, bindingAAD recordVersion id.subject id.provider⟩
  | .paging page _ => ∀ rec ∈ page, ∃ e, Known full wraps rec e
  | .unwrapped rec page _ dek => (∃ e, Known full wraps rec e ∧ e.dek = dek) ∧
    ∀ rec ∈ page, ∃ e, Known full wraps rec e
  | .rewrapping rec page _ dek w => (∃ e, Known full wraps rec e ∧ e.dek = dek) ∧
    (∀ rec ∈ page, ∃ e, Known full wraps rec e) ∧
    ∀ cfg pages, c = .rotate cfg pages → wraps.get w = some ⟨cfg.current, dek, rec.aad⟩
  | _ => True

/-- What a call holds agrees with the wraps made, and its keys are of the ring. -/
structure Phase.Fits (full : Config) (wraps : Dict Bytes Wrap) (p : Phase) : Prop where
  within : p.call.Within full
  stage : p.stage.Fits full wraps p.call

theorem known_mono {page : List Record} (h : ∀ rec ∈ page, ∃ e, Known full wraps rec e)
    (hsub : wraps.Sub wraps') : ∀ rec ∈ page, ∃ e, Known full wraps' rec e := by
  intro rec hrec
  obtain ⟨e, he⟩ := h rec hrec
  exact ⟨e, he.mono hsub⟩

theorem Stage.Fits.mono {st : Stage} (h : st.Fits full wraps c) (hsub : wraps.Sub wraps') :
    st.Fits full wraps' c := by
  cases st with
  | wrapped dek w => exact fun cfg id secret m hc => hsub _ _ (h cfg id secret m hc)
  | paging page more => exact known_mono h hsub
  | unwrapped rec page more dek =>
    obtain ⟨⟨e, he, hdek⟩, hpage⟩ := h
    exact ⟨⟨e, he.mono hsub, hdek⟩, known_mono hpage hsub⟩
  | rewrapping rec page more dek w =>
    obtain ⟨⟨e, he, hdek⟩, hpage, hw⟩ := h
    exact ⟨⟨e, he.mono hsub, hdek⟩, known_mono hpage hsub, fun cfg pages hc => hsub _ _ (hw cfg pages hc)⟩
  | _ => trivial

theorem Phase.Fits.mono (h : p.Fits full wraps) (hsub : wraps.Sub wraps') : p.Fits full wraps' :=
  ⟨h.within, h.stage.mono hsub⟩

/-! ## The invariant -/

/-- **Sound**: a record opens, by the wrap its envelope came from, to the secret last enrolled for its
identity, and without a record none is enrolled. -/
structure Sound (A : Aead) (full : Config) (sh : Shared) : Prop where
  tidy : sh.repo.Tidy
  opens : ∀ w e, sh.wraps.get w = some e → e.key.unwrap w e.aad = some e.dek
  stored : ∀ id rec, sh.repo.get id = some rec → ∃ e secret, Known full sh.wraps rec e ∧
    openSecret A e.dek rec.nonce rec.ciphertext rec.aad = .ok secret ∧ sh.enrolled.get id = some secret
  absent : ∀ id, sh.repo.get id = none → sh.enrolled.get id = none

theorem Sound.known (h : Sound A full sh) (hget : sh.repo.get id = some rec) :
    ∃ e, Known full sh.wraps rec e := by
  obtain ⟨e, _, he, -⟩ := h.stored id rec hget
  exact ⟨e, he⟩

/-- The repository after an operation that removes records. -/
theorem Sound.remove (h : Sound A full sh) (gone : Identity → Bool) (htidy : repo.Tidy)
    (hget : ∀ id, repo.get id = if gone id then none else sh.repo.get id)
    (henr : ∀ id, enrolled.get id = if gone id then none else sh.enrolled.get id) :
    Sound A full { sh with repo := repo, enrolled := enrolled } := by
  refine ⟨htidy, h.opens, fun id rec hrec => ?_, fun id hnone => ?_⟩
  · have hrec := (hget id).symm.trans hrec
    split_ifs at hrec with hgone
    obtain ⟨e, secret, he, hopen, hsecret⟩ := h.stored id rec hrec
    exact ⟨e, secret, he, hopen, by rw [henr, if_neg hgone, hsecret]⟩
  · show enrolled.get id = none
    rw [henr]
    split_ifs with hgone
    · rfl
    · refine h.absent id ?_
      have hnone := (hget id).symm.trans hnone
      rwa [if_neg hgone] at hnone

/-- The repository after a record was written under its identity. -/
theorem Sound.write (h : Sound A full sh) (id : Identity) (rec : Record) (secret : Bytes) (htidy : repo.Tidy)
    (hget : ∀ id', repo.get id' = if id' = id then some rec else sh.repo.get id')
    (henr : ∀ id', enrolled.get id' = if id' = id then some secret else sh.enrolled.get id')
    (he : Known full sh.wraps rec e)
    (hopen : openSecret A e.dek rec.nonce rec.ciphertext rec.aad = .ok secret) :
    Sound A full { sh with repo := repo, enrolled := enrolled } := by
  refine ⟨htidy, h.opens, fun id' rec' hrec => ?_, fun id' hnone => ?_⟩
  · have hrec := (hget id').symm.trans hrec
    split_ifs at hrec with hid
    · cases hrec
      exact ⟨e, secret, he, hopen, by rw [henr, if_pos hid]⟩
    · obtain ⟨e', secret', he', hopen', hsecret⟩ := h.stored id' rec' hrec
      exact ⟨e', secret', he', hopen', by rw [henr, if_neg hid, hsecret]⟩
  · have hnone := (hget id').symm.trans hnone
    split_ifs at hnone with hid
    show enrolled.get id' = none
    rw [henr, if_neg hid]
    exact h.absent id' hnone

/-! ## What an operation keeps -/

/-- A wrap that was answered is recorded, under a value that was new. -/
theorem exec_wrap {r : Option Bytes} (hex : exec (.wrap key dek aad) ω sh = some (r, sh')) :
    r = none ∧ sh' = sh ∨ ∃ w, r = some w ∧ key.unwrap w aad = some dek ∧ sh.wraps.get w = none ∧
      sh' = { sh with wraps := sh.wraps.set w ⟨key, dek, aad⟩ } := by
  simp only [exec] at hex
  split at hex
  · rename_i w
    split_ifs at hex with hw
    cases hex
    exact .inr ⟨w, rfl, hw.1, hw.2, rfl⟩
  · cases hex
    exact .inl ⟨rfl, rfl⟩
  · cases hex

/-- Where the repository comes from after an operation. -/
theorem exec_repo (hex : exec op ω sh = some (r, sh')) : sh'.repo = sh.repo ∨
    (∃ rec secret, op = .put rec secret ∧ sh'.repo = sh.repo.put rec) ∨
    (∃ id, op = .delete id ∧ sh.repo.delete id = some sh'.repo) ∨
    (∃ id expect next rec, op = .rewrapIfUnchanged id expect next ∧ sh.repo.get id = some rec ∧
      sh'.repo = (sh.repo.rewrapIfUnchanged id expect next).2 ∧
      ∀ id', sh'.repo.get id' = if id' = id then some (rec.rewrapped next) else sh.repo.get id') ∨
    ∃ subject m, op = .deleteSubject subject ∧ sh.repo.deleteSubject subject = .ok (m, sh'.repo) := by
  cases op with
  | put rec secret =>
    cases hex
    exact .inr (.inl ⟨rec, secret, rfl, rfl⟩)
  | delete id =>
    simp only [exec] at hex
    split at hex
    · cases hex
      exact .inl rfl
    · rename_i repo hdel
      cases hex
      exact .inr (.inr (.inl ⟨id, rfl, hdel⟩))
  | rewrapIfUnchanged id expect next =>
    cases hex
    obtain hsame | ⟨rec, hget, -, hswap⟩ := rewrapIfUnchanged_cases sh.repo id expect next
    · rw [hsame]
      exact .inl rfl
    · refine .inr (.inr (.inr (.inl ⟨id, expect, next, rec, rfl, hget, rfl, fun id' => ?_⟩)))
      rw [hswap]
      exact get_set ..
  | deleteSubject subject =>
    simp only [exec] at hex
    split at hex
    · cases hex
      exact .inl rfl
    · rename_i m repo hdel
      cases hex
      exact .inr (.inr (.inr (.inr ⟨subject, m, rfl, hdel⟩)))
  | wrap key dek aad =>
    obtain ⟨-, rfl⟩ | ⟨w, -, -, -, rfl⟩ := exec_wrap hex <;> exact .inl rfl
  | fillRandom | now | record =>
    simp only [exec] at hex
    (repeat' split at hex) <;> cases hex <;> exact .inl rfl
  | unwrap | get | listPage =>
    cases hex
    exact .inl rfl

theorem sub_set_fresh (h : wraps.get w = none) : wraps.Sub (wraps.set w e) := by
  intro w' e' he'
  rw [get_set]
  split_ifs with hw
  · rw [hw, h] at he'
    cases he'
  · exact he'

theorem Call.Within.current (h : c.Within full)
    (hc : (∃ id secret m, c = .enroll cfg id secret m) ∨ ∃ pages, c = .rotate cfg pages) :
    full.keys.get cfg.current.keyID = some cfg.current := by
  rcases hc with ⟨id, secret, m, rfl⟩ | ⟨pages, rfl⟩
  all_goals exact h _ _ cfg.own

/-- A wrap that is answered keeps the invariant. -/
theorem Sound.wrap (h : Sound A full sh) (hw : key.unwrap w aad = some dek) (hnew : sh.wraps.get w = none) :
    Sound A full { sh with wraps := sh.wraps.set w ⟨key, dek, aad⟩ } := by
  refine ⟨h.tidy, fun w' e' he' => ?_, fun id rec hrec => ?_, h.absent⟩
  · rcases get_of_get_set he' with hold | ⟨rfl, rfl⟩
    · exact h.opens w' e' hold
    · exact hw
  · obtain ⟨e, secret, he, hrest⟩ := h.stored id rec hrec
    exact ⟨e, secret, he.mono (sub_set_fresh hnew), hrest⟩

/-- The key a rotation unwraps a record with is the one that wrapped it. -/
theorem Sound.unwrap (h : Sound A full sh)
    (hwithin : ∀ k key, cfg.keys.get k = some key → full.keys.get k = some key)
    (he : Known full sh.wraps rec e) (hkey : cfg.keys.get rec.kekID = some key) :
    key.unwrap rec.wrappedDEK rec.aad = some e.dek := by
  have hsame : e.key = key := Option.some.inj (he.key.symm.trans (hwithin _ _ hkey))
  rw [← hsame, ← he.aad]
  exact h.opens _ _ he.entry

/-- **The compare and swap**: the row that has the wrapped key a rotation read has the data key it
unwrapped, whatever has happened to it since, and so the new envelope opens it. -/
theorem Sound.rewrap (h : Sound A full sh) {stale : Record} {next : Envelope}
    (hstale : Known full sh.wraps stale e) (hget : sh.repo.get id = some rec)
    (hsame : rec.wrappedDEK = stale.wrappedDEK)
    (hnext : sh.wraps.get next.wrappedDEK = some ⟨cfg.current, e.dek, stale.aad⟩)
    (hring : full.keys.get next.kekID = some cfg.current) :
    Sound A full { sh with repo := { sh.repo with records := sh.repo.records.set id (rec.rewrapped next) } } := by
  obtain ⟨e', secret, he', hopen, hsecret⟩ := h.stored id rec hget
  have hee : e' = e := by
    have hentry := he'.entry
    rw [hsame, hstale.entry] at hentry
    exact (Option.some.inj hentry).symm
  subst hee
  refine h.write id (rec.rewrapped next) secret (e := ⟨cfg.current, e'.dek, stale.aad⟩) ?_
    (fun id' => get_set ..) ?_ ⟨hnext, hring, ?_⟩ hopen
  · have hswap := h.tidy.rewrapIfUnchanged id rec.wrappedDEK next
    have hrec : sh.repo.records.get id = some rec := hget
    simpa [rewrapIfUnchanged, hrec] using hswap
  · intro id'
    split_ifs with hid
    · rw [hid, hsecret]
    · rfl
  · rw [← hstale.aad, he'.aad]
    rfl

theorem Seals.named (h : Seals A cfg id secret dek w rec) : rec.identity.subject ≠ "" := by
  have hvalid := h.valid
  simp only [Identity.validate, Bool.and_eq_true, bne_iff_ne] at hvalid
  rw [h.identity]
  exact hvalid.1.1.1

/-- A record that is written by an enrolment. -/
theorem Sound.put (h : Sound A full sh) (hseals : Seals A cfg id secret dek w rec)
    (hentry : sh.wraps.get w = some ⟨cfg.current, dek, bindingAAD recordVersion id.subject id.provider⟩)
    (hring : full.keys.get cfg.current.keyID = some cfg.current) :
    Sound A full { sh with repo := sh.repo.put rec, enrolled := sh.enrolled.set rec.identity secret } := by
  have haad : rec.aad = bindingAAD recordVersion id.subject id.provider := by
    rw [Record.aad, hseals.version, hseals.identity]
  refine h.write rec.identity rec secret (e := ⟨cfg.current, dek, rec.aad⟩) (h.tidy.put hseals.named)
    (fun id' => get_put) (fun id' => get_set ..) ⟨?_, ?_, rfl⟩ hseals.opens
  · rw [hseals.wrapped, hentry, haad]
  · rw [hseals.kekID, hring]

/-- **Step**: an operation that is in order keeps the records sound. -/
theorem Sound.step (h : Sound A full sh) (hp : p.Fits full sh.wraps) (ha : Allowed A p op)
    (hex : exec op ω sh = some (r, sh')) : Sound A full sh' ∧ sh.wraps.Sub sh'.wraps := by
  cases op with
  | wrap key dek aad =>
    obtain ⟨-, rfl⟩ | ⟨w, -, hw, hnew, rfl⟩ := exec_wrap hex
    · exact ⟨h, .refl _⟩
    · exact ⟨h.wrap hw hnew, sub_set_fresh hnew⟩
  | put rec secret =>
    cases hex
    obtain ⟨cfg, id, m, dek, w, hc, hst, hseals⟩ := ha
    have hfits := hp.stage
    rw [hst] at hfits
    have hring := hp.within.current (.inl ⟨id, secret, m, hc⟩)
    exact ⟨h.put hseals (hfits cfg id secret m hc) hring, .refl _⟩
  | delete id =>
    simp only [exec] at hex
    split at hex
    · cases hex
      exact ⟨h, .refl _⟩
    · rename_i repo hdel
      cases hex
      refine ⟨h.remove (fun id' => decide (id' = id)) (h.tidy.delete hdel) ?_ ?_, .refl _⟩
      · intro id'
        rw [get_delete hdel]
        simp
      · intro id'
        rw [get_del]
        simp
  | rewrapIfUnchanged id expect next =>
    obtain ⟨cfg, pages, stale, page, more, dek, hc, hst, rfl, rfl, hkek⟩ := ha
    have hfits := hp.stage
    rw [hst] at hfits
    obtain ⟨⟨e, he, rfl⟩, -, hw⟩ := hfits
    have hring : full.keys.get next.kekID = some cfg.current := by
      rw [hkek]
      exact hp.within.current (.inr ⟨pages, hc⟩)
    cases hex
    refine ⟨?_, .refl _⟩
    obtain hsame | ⟨rec, hget, hrec, hswap⟩ :=
      rewrapIfUnchanged_cases sh.repo stale.identity stale.wrappedDEK next
    · rw [hsame]
      exact h
    · rw [hswap]
      exact h.rewrap he hget hrec (hw cfg pages hc) hring
  | deleteSubject subject =>
    simp only [exec] at hex
    split at hex
    · cases hex
      exact ⟨h, .refl _⟩
    · rename_i n repo hdel
      cases hex
      refine ⟨h.remove (fun id => id.subject == subject) (h.tidy.deleteSubject hdel) ?_ ?_, .refl _⟩
      · intro id
        rw [get_deleteSubject h.tidy hdel]
        simp
      · intro id
        rw [get_filter]
        by_cases hid : id.subject = subject
        · simp [hid]
        · cases sh.enrolled.get id <;> simp [hid]
  | fillRandom | now | record =>
    obtain rfl : sh' = sh := by
      simp only [exec] at hex
      (repeat' split at hex) <;> cases hex <;> rfl
    exact ⟨h, .refl _⟩
  | unwrap | get | listPage =>
    cases hex
    exact ⟨h, .refl _⟩

/-- What a call holds stays in accord with the wraps. -/
theorem Goes.fits {st : Stage} (hgoes : Goes p op r st) (h : Sound A full sh) (hp : p.Fits full sh.wraps)
    (hex : exec op ω sh = some (r, sh')) (hsub : sh.wraps.Sub sh'.wraps) : st.Fits full sh'.wraps p.call := by
  have hfits := hp.stage.mono hsub
  cases hgoes with
  | stays => exact hfits
  | bare hbare => cases st <;> trivial
  | wrapped hc =>
    obtain ⟨⟨⟩, -⟩ | ⟨w, ⟨⟩, -, -, rfl⟩ := exec_wrap hex
    rintro cfg' id' secret' m' hc'
    rw [hc] at hc'
    cases hc'
    exact get_set_self ..
  | rewrapping hc hst =>
    obtain ⟨⟨⟩, -⟩ | ⟨w, ⟨⟩, -, -, rfl⟩ := exec_wrap hex
    rw [hst] at hfits
    refine ⟨hfits.1, hfits.2, ?_⟩
    rintro cfg' pages' hc'
    rw [hc] at hc'
    cases hc'
    exact get_set_self ..
  | verified hc hst =>
    rw [hst] at hfits
    exact fun rec' hrec' => hfits rec' (mem_cons_of_mem _ hrec')
  | unwrapped hc hst hkey =>
    have hwithin := hp.within
    have hold := hp.stage
    rw [hc] at hwithin
    rw [hst] at hold
    obtain ⟨e, he⟩ := hold _ mem_cons_self
    simp only [exec, h.unwrap hwithin he hkey] at hex
    cases hex
    exact ⟨⟨e, he, rfl⟩, fun rec' hrec' => hold rec' (mem_cons_of_mem _ hrec')⟩
  | swapped hc hst =>
    rw [hst] at hfits
    exact hfits.2.1
  | turned =>
    cases hex
    exact fun rec hrec => h.known (mem_listPage h.tidy hrec)

/-! ## Runs -/

/-- **The vaults**: the calls in progress, over one repository. -/
abbrev Vaults (A : Aead) : Type := Pool (vault A) (typestate A)

/-- Every service that is called has only keys of the full ring. -/
def Involved (full : Config) (_ : Vaults A) : Event (vault A) → Prop
  | .start _ c => c.Within full
  | .step _ _ => True

variable {σ₀ σ σ₁ τ : Vaults A} {n : ℕ} {found : Option Record}

theorem conforming_of_idle (h : ∀ i, σ.threads i = none) : σ.Conforming (Finished A) := by
  intro i th hi
  rw [h i] at hi
  cases hi

theorem phase_of_idle (h : ∀ i, σ.threads i = none) (j : ℕ) : σ.phase j = none := by
  rw [phase, h j]
  rfl

/-- The records stay sound along every run. -/
theorem Sound.run (h : Sound A full σ₀.sh) (hidle : ∀ i, σ₀.threads i = none)
    (hrun : Pool.Reaches (Involved full) σ₀ σ) :
    Sound A full σ.sh ∧ ∀ j q, σ.phase j = some q → q.Fits full σ.sh.wraps := by
  refine hrun.invariant (I := fun (sh : Shared) (ph : ℕ → Option Phase) =>
    Sound A full sh ∧ ∀ j q, ph j = some q → q.Fits full sh.wraps) body_follows ?_ ?_
    (conforming_of_idle hidle) ⟨h, fun j q hj => ?_⟩
  · rintro σ i c hc ⟨hsound, hfits⟩ -
    exact ⟨hsound, forall_kept ⟨hc, trivial⟩ hfits⟩
  · rintro σ i ω p op r sh - ⟨hsound, hfits⟩ hi - ha hex
    obtain ⟨hsound', hsub⟩ := hsound.step (hfits i p hi) ha hex
    refine ⟨hsound', forall_kept ⟨?_, ?_⟩ fun j q hj => (hfits j q hj).mono hsub⟩
    · rw [advance_call]
      exact (hfits i p hi).within
    · rw [advance_call]
      exact (ha.goes r).fits hsound (hfits i p hi) hex hsub
  · rw [phase_of_idle hidle j] at hj
    cases hj

/-! ### Uses -/

/-- **What a use is to return**: the secret last enrolled, or not found; unless the audit log has failed,
which is joined to the answer or takes the place of the secret. -/
def outcome (latest : Option Bytes) (audited : Bool) : Except (List Error) Reply :=
  match latest with
  | some secret => if audited then .ok (.secret secret) else .error [.audit]
  | none => refused audited .notFound

/-- A use has read the record, and goes by what it read. -/
def Resolved (cfg : Config) (id : Identity) (found : Option Record) (q : Phase) : Prop :=
  q.call = .use cfg id ∧ (q.stage = .read found ∨ ∃ rec key, found = some rec ∧
    cfg.keys.get rec.kekID = some key ∧ q.stage = .opened rec (key.unwrap rec.wrappedDEK rec.aad))

theorem Resolved.step (h : Resolved cfg id found p)
    (ha : Allowed A p op) (hex : exec op ω sh = some (r, sh')) : Resolved cfg id found (p.advance op r) := by
  obtain ⟨hcall, hst⟩ := h
  refine ⟨(advance_call op r).trans hcall, ?_⟩
  have hbusy : p.stage ≠ .idle ∧ ∀ dek, p.stage ≠ .drawn dek := by
    rcases hst with hst | ⟨rec, key, -, -, hst⟩ <;> rw [hst] <;> exact ⟨nofun, nofun⟩
  cases op with
  | fillRandom m =>
    rw [stage_fillRandom]
    have hsame : p.stage.draw r = p.stage := by
      rcases hst with hst | ⟨rec, key, -, -, hst⟩ <;> rw [hst] <;> rfl
    rwa [hsame]
  | unwrap key w aad =>
    cases hex
    rw [stage_unwrap]
    obtain ⟨cfg', id', rec, hc, hread, hkey, rfl, rfl⟩ | ⟨cfg', pages, rec, page, more, hc, -⟩ := ha
    · rw [hcall] at hc
      cases hc
      rw [hread] at hst
      rcases hst with hst | ⟨rec', key', -, -, hst⟩
      · cases hst
        refine .inr ⟨rec, key, rfl, hkey, ?_⟩
        rw [hread]
        rfl
      · cases hst
    · rw [hcall] at hc
      cases hc
  | get id' =>
    have hidle : p.stage = .idle := ha (by rw [hcall]; rfl)
    exact absurd hidle hbusy.1
  | wrap key dek aad =>
    obtain ⟨cfg', id', secret, m, hc, -⟩ | ⟨cfg', pages, rec, page, more, hc, -⟩ := ha
    all_goals
      rw [hcall] at hc
      cases hc
  | put rec secret =>
    obtain ⟨cfg', id', m, dek, w, hc, -⟩ := ha
    rw [hcall] at hc
    cases hc
  | rewrapIfUnchanged id' expect next =>
    obtain ⟨cfg', pages, rec, page, more, dek, hc, -⟩ := ha
    rw [hcall] at hc
    cases hc
  | listPage subject provider limit =>
    have hrot := ha.2.1
    rw [hcall] at hrot
    cases hrot
  | now | record | delete | deleteSubject => exact hst

/-- A use goes by the record it read, however far the vault has moved on. -/
theorem Resolved.run (hconf : σ.Conforming (Finished A))
    (hrun : Pool.Reaches (Involved full) σ τ) (h : ∃ q, σ.phase n = some q ∧ Resolved cfg id found q) :
    ∃ q, τ.phase n = some q ∧ Resolved cfg id found q := by
  refine hrun.invariant (I := fun (_ : Shared) (ph : ℕ → Option Phase) =>
    ∃ q, ph n = some q ∧ Resolved cfg id found q) body_follows ?_ ?_ hconf h
  · rintro σ i c - ⟨q, hq, hres⟩ hnone
    exact ⟨q, update_of_none hnone hq, hres⟩
  · rintro σ i ω p op r sh - ⟨q, hq, hres⟩ hi - ha hex
    by_cases hne : n = i
    · subst hne
      obtain rfl : q = p := Option.some.inj (hq.symm.trans hi)
      exact ⟨_, update_self .., hres.step ha hex⟩
    · exact ⟨q, by rw [update_of_ne hne, hq], hres⟩

/-- A sound record hands out the secret last enrolled. -/
theorem Sound.useReply_eq (h : Sound A full sh) (hfound : found = sh.repo.get id)
    (hres : Resolved full id found q)
    (hend : ∀ rec, q.stage = .read (some rec) → full.keys.get rec.kekID = none) :
    useReply A q.audited q.stage = outcome (sh.enrolled.get id) q.audited := by
  cases hget : sh.repo.get id with
  | none =>
    rw [hfound, hget] at hres
    obtain ⟨-, hst | ⟨rec, key, hrec, -⟩⟩ := hres
    · rw [hst, h.absent id hget]
      rfl
    · cases hrec
  | some rec =>
    rw [hfound, hget] at hres
    obtain ⟨e, secret, he, hopen, hsecret⟩ := h.stored id rec hget
    obtain ⟨-, hst | ⟨rec', key, hrec, hkey, hst⟩⟩ := hres
    · have hnone := hend rec hst
      rw [he.key] at hnone
      cases hnone
    · cases hrec
      have hdek := h.unwrap (fun _ _ h => h) he hkey
      rw [hst, hdek, hsecret]
      simp only [useReply, hopen, outcome]

/-- What a rotation leaves alone: the record but for its key id, wrapped key and update time. -/
def Record.payload (rec : Record) : Record := rec.rewrapped ⟨"", [], 0⟩

/-- An operation of a rotation leaves the payload of every record alone, and adds and removes none. -/
theorem payload_of_rotates (hrot : p.call.rotates = true) (ha : Allowed A p op)
    (hex : exec op ω sh = some (r, sh')) (id : Identity) :
    (sh'.repo.get id).map Record.payload = (sh.repo.get id).map Record.payload := by
  obtain hsame | ⟨rec, secret, rfl, -⟩ | ⟨id', rfl, -⟩ | ⟨id', expect, next, rec, rfl, hget, -, hall⟩ |
    ⟨subject, m, rfl, -⟩ := exec_repo hex
  · rw [hsame]
  · obtain ⟨cfg, id, m, dek, w, hc, -⟩ := ha
    rw [hc] at hrot
    cases hrot
  · cases hrot.symm.trans ha
  · rw [hall]
    split_ifs with hid
    · rw [hid, hget]
      rfl
    · rfl
  · cases hrot.symm.trans ha

/-- An AEAD that hides nothing. -/
def sampleAead : Aead := ⟨fun _ _ plaintext _ => plaintext, fun _ _ ct _ => some ct, fun _ _ _ _ => rfl⟩

/-- A wrap is the mark of the key, a byte that tells two wraps apart, and the data key. -/
def sampleKey (id : String) (mark : UInt8) : KeyWrapper :=
  ⟨id, fun w _ => if w.head? = some mark then some (w.drop 2) else none, none⟩

/-- A service on the first key. -/
def sampleOld : Config :=
  ⟨sampleKey "k1" 1, (∅ : Dict String KeyWrapper).set "k1" (sampleKey "k1" 1), rfl⟩

/-- A service on the second key, with the first one retired. -/
def sampleNew : Config :=
  ⟨sampleKey "k2" 2, ((∅ : Dict String KeyWrapper).set "k2" (sampleKey "k2" 2)).set "k1" (sampleKey "k1" 1),
    rfl⟩

def sampleIdentity : Identity := ⟨"u", "p"⟩

def sampleDEK : Bytes := List.replicate dekSize 7

/-- Nothing is enrolled. -/
def sampleStart : Vaults sampleAead := ⟨⟨.empty, ∅, ∅⟩, fun _ => none⟩

/-- A call that starts and makes operations at the choices given. -/
def making (i : ℕ) (c : Call) (ωs : List Choice) : List (Event (vault sampleAead)) :=
  .start i c :: ωs.map (.step i)

/-- The old service enrols a secret. -/
def enrolling (i : ℕ) (tag : UInt8) (secret : Bytes) : List (Event (vault sampleAead)) :=
  making i (.enroll sampleOld sampleIdentity secret [])
    [.bytes sampleDEK, .bytes (1 :: tag :: sampleDEK), .bytes (List.replicate nonceSize 0), .time 1, .done,
      .done, .done]

/-- The new service has read a page and wrapped the data key of its record. -/
def rotating : List (Event (vault sampleAead)) :=
  making 1 (.rotate sampleNew 1) [.done, .done, .bytes (2 :: 0 :: sampleDEK)]

/-- The rotation swaps the envelope, if it can, and records what it did. -/
def swapping : List (Event (vault sampleAead)) := [.step 1 (.time 2), .step 1 .done, .step 1 .done]

theorem sampleStart_sound : Sound sampleAead sampleNew sampleStart.sh :=
  ⟨tidy_empty, nofun, nofun, fun _ _ => rfl⟩

theorem sampleOld_within (k : String) (key : KeyWrapper) (h : sampleOld.keys.get k = some key) :
    sampleNew.keys.get k = some key := by
  have hk : k = "k1" ∧ key = sampleKey "k1" 1 := by
    rcases get_of_get_set h with hnone | hk
    · cases hnone
    · exact hk
  rw [hk.1, hk.2]
  rfl

theorem involved_making {ωs : List Choice} (hc : c.Within sampleNew) :
    ∀ e ∈ making i c ωs, ∀ σ, Involved sampleNew σ e := by
  intro e he σ
  rcases mem_cons.1 he with rfl | he
  · exact hc
  · obtain ⟨ω, -, rfl⟩ := mem_map.1 he
    trivial

theorem involved_sample : ∀ e ∈ enrolling 0 0 [5] ++ rotating ++ enrolling 2 1 [6] ++ swapping,
    ∀ σ, Involved sampleNew σ e := by
  intro e he
  simp only [mem_append] at he
  obtain ((he | he) | he) | he := he
  · exact involved_making (c := .enroll sampleOld sampleIdentity [5] []) sampleOld_within e he
  · exact involved_making (c := .rotate sampleNew 1) (fun _ _ h => h) e he
  · exact involved_making (c := .enroll sampleOld sampleIdentity [6] []) sampleOld_within e he
  · intro σ
    simp only [swapping, mem_cons, not_mem_nil, or_false] at he
    obtain rfl | rfl | rfl := he <;> trivial

end Re0Auth.Vault

import Re0Auth.Federation.Orphans

/-!
# A refresh that was rejected

A source with one-time refresh tokens rejects a token that another process has spent. The loser reads
the row again and takes a version that has not moved as proof that nobody won. The winner moves the
version before it stores its secret, so the proof is good only for a reader who did not pair the new
version with the old secret, and only until the removal is done.

* **`Phase.Fits`**, **`Phase.Suits`**: what holds of one call against the stores, and of two calls
  against each other;
* **`Renewal`**: both, for all calls; kept by every operation of an orderly run (**`Renewal.step`**);
* **`rejected_never_renewed`**: whoever removes the binding in such a run removes the rejected token, and
  nobody has replaced it or will;
* **`renewal_destroyed`**: a run with a reader in between.
-/

namespace Re0Auth.Federation

open Lib OAuth Vault Function Pool MemoryBindingStore List Option Phase

/-- The secret of a binding. -/
def Shared.secret (sh : Shared) (k : Ref) : Option BindingSecret := sh.vault.get k.identity

/-- A token the sources have issued. -/
def Shared.Knows (sh : Shared) (token : String) : Prop := token = "" ∨ token ∈ sh.issued

namespace Stage

/-- The row a refresh has read. -/
def seen : Stage → Option Binding
  | fresh b | opened b _ | renewed b _ _ | rejected b _ | condemned b _ => some b
  | removing _ (some (b, _)) => some b
  | _ => none

/-- The token a refresh has read after it. -/
def presented : Stage → Option (Binding × String)
  | opened b token | renewed b token _ | rejected b token | condemned b token => some (b, token)
  | removing _ cause => cause
  | _ => none

/-- The token whose rejection a call takes for final. -/
def doomed : Stage → Option (Binding × String)
  | condemned b token => some (b, token)
  | removing _ cause => cause
  | _ => none

/-- The token a refresh was granted. -/
def next : Stage → Option String
  | renewed _ _ secret | storing _ secret _ => some secret.refreshToken
  | _ => none

/-- The row is claimed and the secret not yet stored. -/
def isStoring : Stage → Bool
  | storing _ _ _ => true
  | _ => false

/-- The secret is shredded and the row not yet deleted. -/
def isRemoving : Stage → Bool
  | removing _ _ => true
  | _ => false

attribute [grind =] seen presented doomed next isStoring isRemoving replacing

variable {st : Stage} {b : Binding} {token : String}

theorem presented_of_doomed (h : st.doomed = some (b, token)) : st.presented = some (b, token) := by
  cases st <;> first | exact h | cases h

theorem seen_of_presented (h : st.presented = some (b, token)) : st.seen = some b := by
  cases st with
  | removing k cause =>
    cases h
    rfl
  | _ => cases h; try rfl

theorem replacing_of_not_storing (h : st.isStoring = false) : st.replacing = [] := by
  cases st <;> first | rfl | cases h

end Stage

/-- The tokens whose replacement a call has claimed the row for, stored or not. -/
def Phase.won (q : Phase) : List String := q.stage.replacing ++ q.replaced

variable {cfg : Config} {op : Op} {ω : Choice} {sh sh' : Shared} {r : op.Res} {p q q' : Phase}
  {ph : ℕ → Option Phase} {i j l : ℕ} {k₀ : Ref} {token : String} {v : UInt64} {b : Binding}
  {p' : Phase} {secret next : BindingSecret} {k : Ref} {σ σ₀ σ' τ : Processes cfg} {m : ℕ}
  {e : Event (federation cfg)}

/-- **What holds of one call** against the stores. -/
structure Phase.Fits (k₀ : Ref) (sh : Shared) (q : Phase) : Prop where
  /-- The row has not gone back behind the one that was read, and a row that is gone took its secret. -/
  seen : ∀ b, q.stage.seen = some b →
    (∀ row, sh.row k₀ = some row → b.version.toNat ≤ row.version.toNat) ∧ (sh.row k₀ = none → sh.secret k₀ = none)
  /-- While the row has not moved, the token that was read is the stored one. -/
  current : ∀ b token, q.stage.presented = some (b, token) → ∀ row, sh.row k₀ = some row →
    row.version = b.version → ∀ secret, sh.secret k₀ = some secret → secret.refreshToken = token
  /-- The row of a call that is about to remove it has not moved. -/
  doomed : ∀ b token, q.stage.doomed = some (b, token) → ∀ row, sh.row k₀ = some row →
    row.version = b.version
  removing : q.stage.isRemoving = true → sh.secret k₀ = none
  storing : q.stage.isStoring = true → sh.row k₀ ≠ none
  /-- A token that was replaced is not stored. -/
  replaced : ∀ token ∈ q.replaced, ∀ secret, sh.secret k₀ = some secret → secret.refreshToken ≠ token
  /-- A token that was granted is not stored yet. -/
  next : ∀ token, q.stage.next = some token →
    token ≠ "" ∧ ∀ secret, sh.secret k₀ = some secret → secret.refreshToken ≠ token
  known : (∀ b token, q.stage.presented = some (b, token) → sh.Knows token) ∧
    (∀ token, q.stage.next = some token → sh.Knows token) ∧ ∀ token ∈ q.won, sh.Knows token

/-- **What holds of two calls**, the second of which may be the first. -/
structure Phase.Suits (k₀ : Ref) (sh : Shared) (q q' : Phase) : Prop where
  /-- While the row has not moved from what one has read, no other is about to store a secret. -/
  current : ∀ b token, q.stage.presented = some (b, token) → ∀ row, sh.row k₀ = some row →
    row.version = b.version → q'.stage.isStoring = false
  removing : q.stage.isRemoving = true → q'.stage.isStoring = false
  /-- Where one has won, whoever else holds the token has seen an older row. -/
  beaten : ∀ token ∈ q.won, ∀ b, q'.stage.presented = some (b, token) → ∀ row, sh.row k₀ = some row →
    b.version.toNat < row.version.toNat
  /-- A token that was granted is nobody else's. -/
  next : ∀ token, q.stage.next = some token →
    token ∉ q'.won ∧ ∀ b token', q'.stage.presented = some (b, token') → token' ≠ token

/-- **Invariant** of a binding that is refreshed. -/
structure Renewal (k₀ : Ref) (sh : Shared) (ph : ℕ → Option Phase) : Prop where
  secret : ∀ secret, sh.secret k₀ = some secret → sh.Knows secret.refreshToken
  fits : ∀ j q, ph j = some q → q.Fits k₀ sh
  suits : ∀ j q l q', ph j = some q → ph l = some q' → q.Suits k₀ sh q'
  distinct : ∀ j q l q', ph j = some q → ph l = some q' → j ≠ l → ∀ token, q.stage.next = some token →
    q'.stage.next ≠ some token
  /-- Only refreshes are at work, so a removal has the rejection of a token for its cause. -/
  calls : ∀ j q, ph j = some q → ¬ q.call.binds ∧ ¬ q.call.removes ∧ (∀ s, q.stage ≠ .exchanged s) ∧
    ∀ k, q.stage ≠ .removing k none

/-! ## What an operation does to the binding -/

/-- **The effect** of an operation on one row and one secret. -/
inductive Effect (k₀ : Ref) (op : Op) (sh sh' : Shared) : Prop
  | quiet (hrow : sh'.row k₀ = sh.row k₀) (hsecret : sh'.secret k₀ = sh.secret k₀)
  | claim {b old : Binding} (hop : op = .putIfVersion b old.version) (hold : sh.row k₀ = some old)
    (hrow : sh'.row k₀ = some b) (hsecret : sh'.secret k₀ = sh.secret k₀)
  | store {secret : BindingSecret} (hop : op = .enroll k₀ secret)
    (hrow : sh'.row k₀ = sh.row k₀) (hsecret : sh'.secret k₀ = some secret)
  | shred (hop : op = .revokeSecret k₀) (hrow : sh'.row k₀ = sh.row k₀)
    (hsecret : sh'.secret k₀ = none)
  | delete (hop : op = .deleteBinding k₀) (hrow : sh'.row k₀ = none)
    (hsecret : sh'.secret k₀ = sh.secret k₀)

theorem Shared.secret_congr (h : sh'.vault = sh.vault) (k : Ref) : sh'.secret k = sh.secret k := by
  rw [Shared.secret, h, Shared.secret]

variable (h : Renewal k₀ sh ph) (hi : ph i = some p) (ha : Allowed p op)
  (hex : exec op ω sh = some (r, sh')) (honly : ∀ k, op.ref = some k → k = k₀)
  (hsub : sh.issued ⊆ sh'.issued) (hrow : sh'.row k₀ = sh.row k₀)
  (hsecret : sh'.secret k₀ = sh.secret k₀) (heff : Effect k₀ op sh sh')
  (hsuits : ∀ j q l q', ph j = some q → ph l = some q' → q.Suits k₀ sh' q')
  (hrep : p'.replaced = p.replaced)

include hex in
theorem exec_secret (henroll : ∀ k s, op ≠ .enroll k s) (hrevoke : ∀ k, op ≠ .revokeSecret k) :
    sh'.secret k₀ = sh.secret k₀ := by
  obtain hvault | ⟨k, secret, rfl, -⟩ | ⟨k, rfl, -⟩ := exec_vault hex
  · exact Shared.secret_congr hvault k₀
  · exact absurd rfl (henroll k secret)
  · exact absurd rfl (hrevoke k)

include hex honly in
theorem Effect.of_exec (hcreate : ∀ b, op ≠ .create b) : Effect k₀ op sh sh' := by
  obtain hsame | ⟨b, old, rfl, hold, hset⟩ | ⟨b, rfl, -⟩ | ⟨k, rfl, hdel⟩ := exec_bindings hex
  · have hrow : sh'.row k₀ = sh.row k₀ := by rw [Shared.row, hsame, Shared.row]
    obtain hvault | ⟨k, secret, rfl, hset⟩ | ⟨k, rfl, hdel⟩ := exec_vault hex
    · exact .quiet hrow (Shared.secret_congr hvault k₀)
    · obtain rfl := honly k rfl
      exact .store rfl hrow (by simp [Shared.secret, hset])
    · obtain rfl := honly k rfl
      exact .shred rfl hrow (by simp [Shared.secret, hdel])
  · have hk := honly b.ref rfl
    subst hk
    refine .claim rfl hold ?_ (exec_secret hex (by simp) (by simp))
    simp [Shared.row, hset, MemoryBindingStore.set]
  · exact absurd rfl (hcreate b)
  · obtain rfl := honly k rfl
    refine .delete rfl ?_ (exec_secret hex (by simp) (by simp))
    simp [Shared.row, hdel, MemoryBindingStore.delete]

include hex in
theorem exec_issued : sh.issued ⊆ sh'.issued := by
  have hissue : ∀ (sh₁ : Shared) token, sh₁.issued = sh.issued →
      sh.issued ⊆ (sh₁.issue token).issued := by
    intro sh₁ token hissued
    unfold Shared.issue
    rw [← hissued]
    split
    · exact List.Subset.refl _
    · exact subset_cons_self _ _
  cases op with
  | putIfVersion | create | deleteBinding | putFlow | enroll | revokeSecret =>
    rcases settle_state hex with rfl | rfl <;> exact List.Subset.refl _
  | _ =>
    simp only [exec] at hex
    (repeat' split at hex) <;> cases hex <;> first
      | exact List.Subset.refl _
      | exact hissue _ _ rfl

theorem Shared.Knows.mono (h : sh.Knows token) (hsub : sh.issued ⊆ sh'.issued) : sh'.Knows token :=
  h.imp_right fun hmem => hsub hmem

/-! ## Calls that do not move -/

namespace Phase.Suits

include hrow in
theorem of_row_eq (h : q.Suits k₀ sh q') : q.Suits k₀ sh' q' := by
  refine ⟨?_, h.removing, ?_, h.next⟩
  · rw [hrow]
    exact h.current
  · rw [hrow]
    exact h.beaten

theorem of_row_none (h : q.Suits k₀ sh q') (hrow : sh'.row k₀ = none) : q.Suits k₀ sh' q' := by
  refine ⟨?_, h.removing, ?_, h.next⟩
  all_goals
    rw [hrow]
    exact fun _ _ _ _ => nofun

/-- A row that moves on leaves behind whoever has read it. -/
theorem of_claim (h : q.Suits k₀ sh q') (hq : q.Fits k₀ sh) {old b : Binding}
    (hold : sh.row k₀ = some old) (hrow : sh'.row k₀ = some b) (hlt : old.version.toNat < b.version.toNat) :
    q.Suits k₀ sh' q' := by
  have hseen := hq.seen
  have := @Stage.seen_of_presented q.stage
  cases h
  constructor <;> grind

end Phase.Suits

namespace Phase.Fits

include hsub

section

variable (hq : q.Fits k₀ sh)
include hq

theorem known_mono : (∀ b token, q.stage.presented = some (b, token) → sh'.Knows token) ∧
      (∀ token, q.stage.next = some token → sh'.Knows token) ∧ ∀ token ∈ q.won, sh'.Knows token := by
  obtain ⟨hpresented, hnext, hwon⟩ := hq.known
  exact ⟨fun b token ht => (hpresented b token ht).mono hsub, fun token ht => (hnext token ht).mono hsub,
    fun token ht => (hwon token ht).mono hsub⟩

include hrow hsecret in
theorem of_eq : q.Fits k₀ sh' := by
  have hknown := hq.known_mono hsub
  cases hq
  constructor <;> grind

/-- The row moves on: nobody was about to remove it. -/
theorem of_claim {old b : Binding} (hold : sh.row k₀ = some old)
    (hrow : sh'.row k₀ = some b) (hlt : old.version.toNat < b.version.toNat)
    (hsecret : sh'.secret k₀ = sh.secret k₀) (hdoomed : q.stage.doomed = none) : q.Fits k₀ sh' := by
  have hknown := hq.known_mono hsub
  have := @Stage.seen_of_presented q.stage
  cases hq
  constructor <;> grind

/-- A secret is stored by a call that has claimed the row: what others have read is not current. -/
theorem of_store {secret : BindingSecret} (hp : p.stage.isStoring = true)
    (hpfits : p.Fits k₀ sh) (hqp : q.Suits k₀ sh p) (hpq : p.Suits k₀ sh q)
    (hnext : p.stage.next = some secret.refreshToken)
    (hdistinct : q.stage.next ≠ some secret.refreshToken) (hrow : sh'.row k₀ = sh.row k₀)
    (hsecret : sh'.secret k₀ = some secret) : q.Fits k₀ sh' := by
  have hknown := hq.known_mono hsub
  have hbound : sh.row k₀ ≠ none := hpfits.storing hp
  have hnew := (hpq.next _ hnext).1
  have hcurrent := hqp.current
  have hremoving := hqp.removing
  cases hq
  constructor <;> grind [won]

theorem of_shred (hrow : sh'.row k₀ = sh.row k₀) (hsecret : sh'.secret k₀ = none) : q.Fits k₀ sh' := by
  have hknown := hq.known_mono hsub
  cases hq
  constructor <;> grind

/-- The row is deleted by a call that has shredded the secret. -/
theorem of_delete (hrow : sh'.row k₀ = none)
    (hsecret : sh'.secret k₀ = none) (hstoring : q.stage.isStoring = false) : q.Fits k₀ sh' := by
  have hknown := hq.known_mono hsub
  cases hq
  constructor <;> grind

end

end Phase.Fits

/-! ## The call that moves -/

/-- What a call has in hand is part of what it had. -/
structure Phase.Within (q' q : Phase) : Prop where
  presented : ∀ x, q'.stage.presented = some x → q.stage.presented = some x
  storing : q'.stage.isStoring = true → q.stage.isStoring = true
  removing : q'.stage.isRemoving = true → q.stage.isRemoving = true
  next : ∀ token, q'.stage.next = some token → q.stage.next = some token
  won : q'.won ⊆ q.won

theorem Phase.Within.refl (q : Phase) : q.Within q :=
  ⟨fun _ h => h, id, id, fun _ h => h, List.Subset.refl _⟩

theorem Phase.Suits.mono {p' : Phase} (h : q.Suits k₀ sh p) (hq : q'.Within q) (hp : p'.Within p) :
    q'.Suits k₀ sh p' := by
  cases h
  cases hq
  cases hp
  constructor <;> grind

/-- A call with nothing in hand. -/
structure Phase.Blank (q : Phase) : Prop where
  seen : q.stage.seen = none
  presented : q.stage.presented = none
  doomed : q.stage.doomed = none
  next : q.stage.next = none
  storing : q.stage.isStoring = false
  removing : q.stage.isRemoving = false
  replacing : q.stage.replacing = []

theorem Phase.blank_of_stage (h : q.stage = .idle ∨ ∃ k, q.stage = .unstored k) : q.Blank := by
  obtain h | ⟨k, h⟩ := h
  all_goals refine ⟨?_, ?_, ?_, ?_, ?_, ?_, ?_⟩ <;> rw [h] <;> rfl

theorem Phase.Blank.within (h : q.Blank) (hsub : q.replaced ⊆ p.won) : q.Within p := by
  cases h
  constructor <;> grind [won]

/-- Such a call answers only for the tokens it has replaced. -/
theorem Phase.Blank.fits (h : q.Blank)
    (hreplaced : ∀ token ∈ q.replaced, ∀ secret, sh.secret k₀ = some secret →
      secret.refreshToken ≠ token) (hknown : ∀ token ∈ q.replaced, sh.Knows token) : q.Fits k₀ sh := by
  cases h
  constructor <;> grind [won]

/-! ## Orderly runs -/

/-- **A source that rotates** its refresh tokens: it grants a token it takes for valid, with a next one it
has never issued, and it rejects one it does not take for valid. -/
def Op.Rotates (sh : Shared) : Op → Choice → Prop
  | .refreshGrant _ token, .granted t =>
    token ∈ sh.live ∧ t.refreshToken ≠ "" ∧ t.refreshToken ∉ sh.issued
  | .refreshGrant _ token, .rejected => token ∉ sh.live
  | _, _ => True

/-- **Orderly**: a refresh reads the secret only while no claim of the row still has its secret to store;
it claims the row only while the secret is there, nobody is about to remove the binding and the version
does not run over. -/
def Op.Orderly (k₀ : Ref) (sh : Shared) (ph : ℕ → Option Phase) (p : Phase) : Op → Prop
  | .use _ => (∃ b, p.stage = .fresh b) → ∀ j q, ph j = some q → q.stage.isStoring = false
  | .putIfVersion _ _ => sh.secret k₀ ≠ none ∧ (∀ j q, ph j = some q → q.stage.doomed = none) ∧
    ∀ row, sh.row k₀ = some row → row.version + 1 ≠ 0
  | _ => True

theorem toNat_lt_succ (h : v + 1 ≠ 0) : v.toNat < (v + 1).toNat := by
  have hv := v.toNat_lt
  have hadd : (v + 1).toNat = (v.toNat + 1) % 2 ^ 64 := by simp [UInt64.toNat_add]
  have hne : (v + 1).toNat ≠ 0 := by
    intro h0
    exact h (UInt64.toNat_inj.1 (by simpa using h0))
  omega

include h hi in
/-- A claim moves the row on by one version. -/
theorem Renewal.claims (ha : Allowed p (.putIfVersion b v)) :
    ∃ old token next, p.stage = .renewed old token next ∧ v = old.version ∧
      b.version = old.version + 1 := by
  obtain ⟨-, ⟨next, hst⟩ | ⟨old, token, next, hst, -, hv, hversion⟩⟩ := ha
  · exact absurd hst ((h.calls i p hi).2.2.1 next)
  · exact ⟨old, token, next, hst, hv, hversion⟩

include h hi ha in
/-- No call has a code exchanged, so none creates a row. -/
theorem Renewal.not_create (b : Binding) : op ≠ .create b := by
  rintro rfl
  obtain ⟨-, next, hst⟩ := ha
  exact (h.calls i p hi).2.2.1 next hst

include h hi ha hsub heff in
/-- **The other calls** keep what holds of them. -/
theorem Renewal.others (hord : op.Orderly k₀ sh ph p) :
    (∀ j q, j ≠ i → ph j = some q → q.Fits k₀ sh') ∧
      ∀ j q l q', ph j = some q → ph l = some q' → q.Suits k₀ sh' q' := by
  cases heff with
  | quiet hrow hsecret =>
    exact ⟨fun j q _ hj => (h.fits j q hj).of_eq hsub hrow hsecret,
      fun j q l q' hj hl => (h.suits j q l q' hj hl).of_row_eq hrow⟩
  | @claim b old hop hold hrow hsecret =>
    subst hop
    obtain ⟨hkept, hdoomed, hrange⟩ := hord
    obtain ⟨old', token, next, -, hv, hversion⟩ := h.claims hi ha
    have hlt : old.version.toNat < b.version.toNat := by
      rw [hversion, ← hv]
      exact toNat_lt_succ (hrange old hold)
    exact ⟨fun j q _ hj => (h.fits j q hj).of_claim hsub hold hrow hlt hsecret (hdoomed j q hj),
      fun j q l q' hj hl => (h.suits j q l q' hj hl).of_claim (h.fits j q hj) hold hrow hlt⟩
  | @store secret hop hrow hsecret =>
    subst hop
    obtain ⟨-, spent, hst⟩ := ha
    have hp : p.stage.isStoring = true := by rw [hst]; rfl
    have hnext : p.stage.next = some secret.refreshToken := by rw [hst]; rfl
    refine ⟨fun j q hji hj => ?_, fun j q l q' hj hl => (h.suits j q l q' hj hl).of_row_eq hrow⟩
    exact (h.fits j q hj).of_store hsub hp (h.fits i p hi) (h.suits j q i p hj hi)
      (h.suits i p j q hi hj) hnext (h.distinct i p j q hi hj (Ne.symm hji) _ hnext) hrow hsecret
  | shred hop hrow hsecret =>
    exact ⟨fun j q _ hj => (h.fits j q hj).of_shred hsub hrow hsecret,
      fun j q l q' hj hl => (h.suits j q l q' hj hl).of_row_eq hrow⟩
  | delete hop hrow hsecret =>
    subst hop
    obtain ⟨-, k', cause, hst, -⟩ := ha
    have hremoving : p.stage.isRemoving = true := by rw [hst]; rfl
    have hnone : sh'.secret k₀ = none := hsecret.trans ((h.fits i p hi).removing hremoving)
    exact ⟨fun j q _ hj => (h.fits j q hj).of_delete hsub hrow hnone
        ((h.suits i p j q hi hj).removing hremoving),
      fun j q l q' hj hl => (h.suits j q l q' hj hl).of_row_none hrow⟩

/-- What the call that moves has to satisfy, with the others as they were. -/
structure Takes (k₀ : Ref) (sh' : Shared) (ph : ℕ → Option Phase) (i : ℕ) (p' : Phase) : Prop where
  fits : p'.Fits k₀ sh'
  self : p'.Suits k₀ sh' p'
  left : ∀ l q, l ≠ i → ph l = some q → p'.Suits k₀ sh' q
  right : ∀ l q, l ≠ i → ph l = some q → q.Suits k₀ sh' p'
  distinct : ∀ l q, l ≠ i → ph l = some q → ∀ token, p'.stage.next = some token →
    q.stage.next ≠ some token

include h hi hsuits in
/-- A call that takes nothing new in hand. -/
theorem Renewal.takes_within (hw : p'.Within p) (hfits : p'.Fits k₀ sh') : Takes k₀ sh' ph i p' where
  fits := hfits
  self := (hsuits i p i p hi hi).mono hw hw
  left l q _ hl := (hsuits i p l q hi hl).mono hw (.refl q)
  right l q _ hl := (hsuits l q i p hl hi).mono (.refl q) hw
  distinct l q hli hl token ht := h.distinct i p l q hi hl (Ne.symm hli) token (hw.next token ht)

include h hi hrep in
/-- A call that reads the secret while nobody stores one. -/
theorem Renewal.takes_open (hst : p.stage = .fresh b)
    (hst' : p'.stage = .opened b secret.refreshToken) (hsecret : sh.secret k₀ = some secret)
    (hnone : ∀ j q, ph j = some q → q.stage.isStoring = false) : Takes k₀ sh ph i p' := by
  have hwon : p'.won = p.won := by simp [won, hst, hst', hrep, Stage.replacing]
  -- the stored token is not one that anybody has replaced or is about to
  have hfresh : ∀ l q, ph l = some q → secret.refreshToken ∉ q.won := by
    intro l q hl hmem
    rw [won, Stage.replacing_of_not_storing (hnone l q hl), nil_append] at hmem
    exact (h.fits l q hl).replaced _ hmem secret hsecret rfl
  refine ⟨?_, ?_, fun l q _ hl => ?_, fun l q _ hl => ?_, by simp [hst', Stage.next]⟩
  · have hsecret' := h.secret secret hsecret
    cases h.fits i p hi
    constructor <;> grind
  · constructor <;> grind
  · cases h.suits i p l q hi hl
    constructor <;> grind
  · have := (h.fits l q hl).next
    cases h.suits l q i p hl hi
    constructor <;> grind

include h hi hsub hrow hsecret hrep in
/-- A token that the source has just issued is nobody's. -/
theorem Renewal.takes_grant (hst : p.stage = .opened b token)
    (hst' : p'.stage = .renewed b token next) (hempty : next.refreshToken ≠ "")
    (hfresh : next.refreshToken ∉ sh.issued) (hissued : next.refreshToken ∈ sh'.issued) :
    Takes k₀ sh' ph i p' := by
  have hwon : p'.won = p.won := by simp [won, hst, hst', hrep, Stage.replacing]
  have hne : ∀ {t : String}, sh.Knows t → t ≠ next.refreshToken := by
    rintro t (rfl | hmem) heq
    · exact hempty heq.symm
    · exact hfresh (heq ▸ hmem)
  have hstored := fun secret hs => hne (h.secret secret hs)
  have hknows : sh'.Knows next.refreshToken := .inr hissued
  -- the token is none that another call knows
  have hunseen : ∀ l q, ph l = some q → next.refreshToken ∉ q.won ∧
      (∀ b' t', q.stage.presented = some (b', t') → t' ≠ next.refreshToken) ∧
      q.stage.next ≠ some next.refreshToken := by
    intro l q hl
    obtain ⟨hpresented, hnext, hqwon⟩ := (h.fits l q hl).known
    exact ⟨fun hmem => hne (hqwon _ hmem) rfl, fun b' t' hb => hne (hpresented b' t' hb),
      fun hq => hne (hnext _ hq) rfl⟩
  refine ⟨?_, ?_, fun l q _ hl => ?_, fun l q _ hl => ?_, fun l q _ hl => ?_⟩
  · cases (h.fits i p hi).of_eq hsub hrow hsecret
    constructor <;> grind
  · cases (h.suits i p i p hi hi).of_row_eq hrow
    constructor <;> grind
  · cases (h.suits i p l q hi hl).of_row_eq hrow
    constructor <;> grind
  · cases (h.suits l q i p hl hi).of_row_eq hrow
    constructor <;> grind
  · grind

include h hi hsub hsecret hrep in
/-- A claim that is won leaves behind whoever holds the token it replaces. -/
theorem Renewal.takes_claim {old row : Binding} (hst : p.stage = .renewed old token next)
    (hst' : p'.stage = .storing k next (some token)) (hold : sh.row k₀ = some row)
    (hrow : sh'.row k₀ = some b) (hlt : row.version.toNat < b.version.toNat)
    (hkept : sh.secret k₀ ≠ none) : Takes k₀ sh' ph i p' := by
  have hwon : p'.won = token :: p.won := by simp [won, hst, hst', hrep, Stage.replacing]
  have hpresented : p.stage.presented = some (old, token) := by rw [hst]; rfl
  -- nobody has read the row as it is now
  have hbehind : ∀ l q, ph l = some q → ∀ b' t, q.stage.presented = some (b', t) →
      b'.version.toNat < b.version.toNat := by
    intro l q hl b' t hb
    have hle := ((h.fits l q hl).seen b' (Stage.seen_of_presented hb)).1 row hold
    omega
  refine ⟨?_, ?_, fun l q _ hl => ?_, fun l q _ hl => ?_, fun l q hli hl => ?_⟩
  · have hknown := (h.fits i p hi).known_mono hsub
    cases h.fits i p hi
    constructor <;> grind
  · cases h.suits i p i p hi hi
    constructor <;> grind
  · cases h.suits i p l q hi hl
    constructor <;> grind
  · have := (h.fits l q hl).removing
    cases h.suits l q i p hl hi
    constructor <;> grind
  · have := h.distinct i p l q hi hl (Ne.symm hli)
    grind

include h hi hsub hrow hrep in
/-- A call that is about to remove the row, which has not moved, meets nobody who stores a secret. -/
theorem Renewal.takes_condemn (hst : p.stage = .condemned b token)
    (hst' : p'.stage = .removing k (some (b, token))) (hsecret : sh'.secret k₀ = none) :
    Takes k₀ sh' ph i p' := by
  have hwon : p'.won = p.won := by simp [won, hst, hst', hrep, Stage.replacing]
  have halone : ∀ l q, ph l = some q → q.stage.isStoring = false := by
    intro l q hl
    have hstoring := (h.fits l q hl).storing
    have hdoomed := (h.fits i p hi).doomed
    have hcurrent := (h.suits i p l q hi hl).current
    cases hcase : sh.row k₀ <;> grind
  refine ⟨?_, ?_, fun l q _ hl => ?_, fun l q _ hl => ?_, by simp [hst', Stage.next]⟩
  · cases (h.fits i p hi).of_shred hsub hrow hsecret
    constructor <;> grind
  · cases (h.suits i p i p hi hi).of_row_eq hrow
    constructor <;> grind
  · cases (h.suits i p l q hi hl).of_row_eq hrow
    constructor <;> grind
  · cases (h.suits l q i p hl hi).of_row_eq hrow
    constructor <;> grind

/-! ## One step -/

include hex in
/-- An operation that does not write leaves rows and secrets alone. -/
theorem exec_still (hop : op.writes = false) : sh'.row k₀ = sh.row k₀ ∧ sh'.secret k₀ = sh.secret k₀ := by
  constructor
  · obtain hsame | ⟨b, old, rfl, -⟩ | ⟨b, rfl, -⟩ | ⟨k, rfl, -⟩ := exec_bindings hex
    · rw [Shared.row, hsame, Shared.row]
    all_goals cases hop
  · obtain hsame | ⟨k, secret, rfl, -⟩ | ⟨k, rfl, -⟩ := exec_vault hex
    · rw [Shared.secret, hsame, Shared.secret]
    all_goals cases hop

theorem exec_use (hex : exec (.use k₀) ω sh = some (.ok secret, sh')) :
    sh' = sh ∧ sh.secret k₀ = some secret := by
  simp only [exec] at hex
  split at hex
  · cases hex
  · cases hget : sh.vault.get k₀.identity with
    | none => simp [hget] at hex
    | some s =>
      rw [hget] at hex
      cases hex
      exact ⟨rfl, hget⟩

/-- A grant is the environment's choice, and the token it brings is issued from then on. -/
theorem exec_granted {src : Source} {t : Token}
    (hex : exec (.refreshGrant src token) ω sh = some (.granted t, sh')) :
    ω = .granted t ∧ (t.refreshToken ≠ "" → t.refreshToken ∈ sh'.issued) := by
  simp only [exec] at hex
  split at hex
  · obtain ⟨rfl, rfl⟩ := hex
    refine ⟨rfl, fun hne => ?_⟩
    simp [Shared.issue, hne]
  · cases hex
  · cases hex

/-- A claim that is won replaces a row at the version expected. -/
theorem exec_putIfVersion (hk : b.ref = k₀) (hex : exec (.putIfVersion b v) ω sh = some (.ok true, sh')) :
    ∃ row, sh.row k₀ = some row ∧ row.version = v ∧ sh'.row k₀ = some b ∧
      sh'.secret k₀ = sh.secret k₀ := by
  subst hk
  obtain hsame | ⟨row, hrow, hv, hput⟩ := MemoryBindingStore.putIfVersion_cases
    (s := sh.bindings) (b := b) (v := v)
  · rcases settle_cases hex with h | h | h <;> simp [hsame] at h
  · have hsettled := settle_cases hex
    simp only [hput] at hsettled
    rcases hsettled with h | h | h <;> cases h
    refine ⟨row, hrow, hv, ?_, rfl⟩
    simp [Shared.row, MemoryBindingStore.set]

include ha hex in
/-- The tokens a call has replaced are those it had, and the one whose replacement it has stored. -/
theorem advance_replaced : (p.advance op r).replaced = p.replaced ∨
      ∃ k secret spent, op = .enroll k secret ∧ p.stage = .storing k secret spent ∧
        sh'.vault = sh.vault.set k.identity secret ∧ (p.advance op r).replaced = p.won := by
  cases op with
  | enroll k secret =>
    obtain ⟨-, spent, hst⟩ := ha
    rcases settle_cases hex with h | h | h <;> cases h
    · exact .inr ⟨k, secret, spent, rfl, hst, rfl, rfl⟩
    all_goals exact .inl rfl
  | exchange src code verifier => rcases r with e | t <;> exact .inl rfl
  | getBinding k =>
    rw [advance_getBinding]
    split <;> exact .inl rfl
  | _ => exact .inl rfl

include h hi ha hex honly heff hsuits in
/-- A call that ends with nothing in hand. -/
theorem Renewal.takes_blank (hblank : (p.advance op r).Blank) : Takes k₀ sh' ph i (p.advance op r) := by
  have hfit := h.fits i p hi
  have hsub := exec_issued hex
  have hreplaced := advance_replaced ha hex
  have hwon : (p.advance op r).replaced ⊆ p.won := by
    obtain hsame | ⟨k, secret, spent, -, -, -, hsame⟩ := hreplaced
    · rw [hsame]
      exact subset_append_right _ _
    · rw [hsame]
      exact List.Subset.refl _
  refine h.takes_within hi hsuits (hblank.within hwon) (hblank.fits ?_ ?_)
  · intro token htoken secret' hs'
    obtain hsame | ⟨k, secret, spent, rfl, hst, hset, -⟩ := hreplaced
    · rw [hsame] at htoken
      cases heff with
      | quiet _ hsecret | claim _ _ _ hsecret | delete _ _ hsecret =>
        exact hfit.replaced token htoken secret' (hsecret ▸ hs')
      | @store secret hop _ hsecret =>
        subst hop
        obtain ⟨-, spent, hst⟩ := ha
        have hnext : p.stage.next = some secret.refreshToken := by rw [hst]; rfl
        rw [hsecret] at hs'
        cases hs'
        rintro rfl
        exact ((h.suits i p i p hi hi).next _ hnext).1 (mem_append_right _ htoken)
      | shred _ _ hsecret =>
        rw [hsecret] at hs'
        cases hs'
    · -- the secret that was stored is the next one, not one that was replaced
      obtain rfl := honly k rfl
      have hnext : p.stage.next = some secret.refreshToken := by rw [hst]; rfl
      rw [Shared.secret, hset, Dict.get_set_self] at hs'
      cases hs'
      rintro rfl
      exact ((h.suits i p i p hi hi).next _ hnext).1 (hwon htoken)
  · exact fun token htoken => (hfit.known.2.2 token (hwon htoken)).mono hsub

/-- Two phases with the same in hand, of which a call may yet take one for final. -/
structure Phase.Alike (q' q : Phase) : Prop where
  seen : q'.stage.seen = q.stage.seen
  presented : q'.stage.presented = q.stage.presented
  next : q'.stage.next = q.stage.next
  storing : q'.stage.isStoring = q.stage.isStoring
  removing : q'.stage.isRemoving = q.stage.isRemoving
  replacing : q'.stage.replacing = q.stage.replacing
  replaced : q'.replaced = q.replaced

theorem Phase.Alike.won (h : q'.Alike q) : q'.won = q.won := by
  rw [Phase.won, h.replacing, h.replaced, Phase.won]

theorem Phase.Alike.within (h : q'.Alike q) : q'.Within q := by
  have hwon := h.won
  cases h
  constructor <;> grind

section

include h hi

include hsub in
theorem Renewal.takes_alike (hstill : sh'.row k₀ = sh.row k₀ ∧ sh'.secret k₀ = sh.secret k₀) (hp : p'.Alike p)
    (hdoomed : ∀ b token, p'.stage.doomed = some (b, token) → ∀ row, sh.row k₀ = some row →
      row.version = b.version) : Takes k₀ sh' ph i p' := by
  obtain ⟨hrow, hsecret⟩ := hstill
  refine h.takes_within hi (fun j q l q' hj hl => (h.suits j q l q' hj hl).of_row_eq hrow) hp.within ?_
  have hwon := hp.won
  cases hp
  cases (h.fits i p hi).of_eq hsub hrow hsecret
  constructor <;> grind

include hsub hrep in
/-- A call that has read the row as it is. -/
theorem Renewal.takes_read (hstill : sh'.row k₀ = sh.row k₀ ∧ sh'.secret k₀ = sh.secret k₀)
    (hread : sh.row k₀ = some b) (hst' : p'.stage = .fresh b) : Takes k₀ sh' ph i p' := by
  obtain ⟨hrow, hsecret⟩ := hstill
  have hwon : p'.won ⊆ p.won := by
    simp [won, hst', hrep, Stage.replacing]
  refine h.takes_within hi (fun j q l q' hj hl => (h.suits j q l q' hj hl).of_row_eq hrow) ?_ ?_
  · constructor <;> grind
  · cases (h.fits i p hi).of_eq hsub hrow hsecret
    constructor <;> grind

include ha hex honly heff hsuits in
/-- **The call that moves**, one case for each move. -/
theorem Renewal.takes (hrot : op.Rotates sh ω) (hord : op.Orderly k₀ sh ph p) :
    Takes k₀ sh' ph i (p.advance op r) := by
  have hm : Move op r p.stage (p.advance op r).stage := .of_advance r ha
  have hsub := exec_issued hex
  have hblank : (p.advance op r).Blank → Takes k₀ sh' ph i (p.advance op r) :=
    h.takes_blank hi ha hex honly heff hsuits
  have hrep : (∀ k s, op ≠ .enroll k s) → (p.advance op r).replaced = p.replaced := by
    intro hop
    obtain hsame | ⟨k, secret, -, rfl, -⟩ := advance_replaced ha hex
    · exact hsame
    · exact absurd rfl (hop k secret)
  obtain ⟨hbinds, hremoves, hexchanged, -⟩ := h.calls i p hi
  generalize hst : p.stage = st at hm
  generalize hst' : (p.advance op r).stage = st' at hm
  cases hm with
  | keep hop =>
    have hrep' : (p.advance op r).replaced = p.replaced := by
      refine hrep ?_
      rintro k s rfl
      cases hop
    have hdoomed := (h.fits i p hi).doomed
    rw [hst] at hdoomed
    refine h.takes_alike hi hsub (exec_still hex hop) ?_ (by rw [hst']; exact hdoomed)
    refine ⟨?_, ?_, ?_, ?_, ?_, ?_, hrep'⟩ <;> rw [hst, hst']
  | drop => exact hblank (blank_of_stage (.inl hst'))
  | fail => exact hblank (blank_of_stage (.inr ⟨_, hst'⟩))
  | @read k row =>
    obtain rfl := honly k rfl
    exact h.takes_read hi hsub (hrep nofun) (exec_still hex rfl) (exec_getBinding hex) hst'
  | @confirm b row token hv =>
    obtain rfl := honly b.ref rfl
    have hrow := exec_getBinding hex
    refine h.takes_alike hi hsub (exec_still hex rfl) ?_ ?_
    · refine ⟨?_, ?_, ?_, ?_, ?_, ?_, hrep nofun⟩ <;> rw [hst, hst'] <;> rfl
    · rw [hst']
      rintro _ _ ⟨⟩ row' hrow'
      rw [hrow] at hrow'
      cases hrow'
      exact hv
  | @gone b e token he =>
    obtain rfl := honly b.ref rfl
    have hrow := exec_getBinding_none he hex
    refine h.takes_alike hi hsub (exec_still hex rfl) ?_ ?_
    · refine ⟨?_, ?_, ?_, ?_, ?_, ?_, hrep nofun⟩ <;> rw [hst, hst'] <;> rfl
    · rw [hrow]
      exact fun _ _ _ _ => nofun
  | @«open» b secret =>
    obtain rfl := honly b.ref rfl
    obtain ⟨rfl, hsecret⟩ := exec_use hex
    exact h.takes_open hi (hrep nofun) hst hst' hsecret (hord ⟨b, hst⟩)
  | @grant src b token t =>
    obtain ⟨rfl, hissued⟩ := exec_granted hex
    obtain ⟨-, hne, hfresh⟩ := hrot
    have hstill : sh'.row k₀ = sh.row k₀ ∧ sh'.secret k₀ = sh.secret k₀ := exec_still hex rfl
    obtain ⟨hrow, hsecret⟩ := hstill
    rw [if_pos hne] at hst'
    exact h.takes_grant hi hsub hrow hsecret (hrep nofun) hst hst' hne hfresh (hissued hne)
  | reject =>
    refine h.takes_alike hi hsub (exec_still hex rfl) ?_ ?_
    · refine ⟨?_, ?_, ?_, ?_, ?_, ?_, hrep nofun⟩ <;> rw [hst, hst'] <;> rfl
    · rw [hst']
      exact fun _ _ => nofun
  | exchange => exact absurd ha hbinds
  | @claim b old token next href hversion =>
    obtain ⟨hkept, -, hrange⟩ := hord
    obtain ⟨row, hold, hv, hrow, hsecret⟩ := exec_putIfVersion (honly b.ref rfl) hex
    have hlt : row.version.toNat < b.version.toNat := by
      rw [hversion, ← hv]
      exact toNat_lt_succ (hrange row hold)
    exact h.takes_claim hi hsub hsecret (hrep nofun) hst hst' hold hrow hlt hkept
  | rebind => exact absurd hst (hexchanged _)
  | create => exact absurd hst (hexchanged _)
  | @condemn b token =>
    obtain rfl := honly b.ref rfl
    rcases settle_cases hex with hsettled | hsettled | hsettled <;> cases hsettled
    exact h.takes_condemn hi hsub rfl (hrep nofun) hst hst' (by simp [Shared.secret])
  | shred hreading =>
    obtain ⟨-, ⟨hfrom, -⟩ | ⟨b, token, hfrom, -⟩ | ⟨hfrom, -⟩⟩ := ha
    · exact absurd hfrom hbinds
    · rw [← hst, hfrom] at hreading
      cases hreading
    · exact absurd hfrom hremoves

include ha in
/-- No operation of a refresh exchanges a code or removes a binding for no cause. -/
theorem Renewal.calls_step :
    ∀ j q, update ph i (some (p.advance op r)) j = some q →
      ¬ q.call.binds ∧ ¬ q.call.removes ∧ (∀ s, q.stage ≠ .exchanged s) ∧
        ∀ k, q.stage ≠ .removing k none := by
  obtain ⟨hbinds, hremoves, hexchanged, hremoving⟩ := h.calls i p hi
  refine forall_kept ?_ h.calls
  rw [advance_call]
  have hm : Move op r p.stage (p.advance op r).stage := .of_advance r ha
  generalize hst : p.stage = st at hm
  refine ⟨hbinds, hremoves, fun s hs => ?_, fun k hk => ?_⟩
  · rw [hs] at hm
    cases hm with
    | keep hop => exact hexchanged s hst
    | exchange => exact hbinds ha
  · rw [hk] at hm
    cases hm with
    | keep hop => exact hremoving k hst
    | shred hreading =>
      obtain ⟨-, ⟨hfrom, -⟩ | ⟨b, token, hfrom, -⟩ | ⟨hfrom, -⟩⟩ := ha
      · exact hbinds hfrom
      · rw [← hst, hfrom] at hreading
        cases hreading
      · exact hremoves hfrom

include ha hex honly in
/-- **Step lemma**: an orderly operation keeps the invariant. -/
theorem Renewal.step (hrot : op.Rotates sh ω) (hord : op.Orderly k₀ sh ph p) :
    Renewal k₀ sh' (update ph i (some (p.advance op r))) := by
  have heff := Effect.of_exec hex honly (h.not_create hi ha)
  have hsub := exec_issued hex
  obtain ⟨hfits, hsuits⟩ := h.others hi ha hsub heff hord
  have htakes := h.takes hi ha hex honly heff hsuits hrot hord
  refine ⟨?_, ?_, ?_, ?_, h.calls_step hi ha⟩
  · intro secret hsecret
    cases heff with
    | quiet _ hsame | claim _ _ _ hsame | delete _ _ hsame =>
      exact (h.secret secret (hsame ▸ hsecret)).mono hsub
    | @store secret' hop _ hstored =>
      subst hop
      obtain ⟨-, spent, hst⟩ := ha
      have hnext : p.stage.next = some secret'.refreshToken := by rw [hst]; rfl
      rw [hstored] at hsecret
      cases hsecret
      exact ((h.fits i p hi).known.2.1 _ hnext).mono hsub
    | shred _ _ hnone =>
      rw [hnone] at hsecret
      cases hsecret
  · exact forall_update htakes.fits hfits
  · exact forall_update₂ htakes.self htakes.left htakes.right hsuits
  · refine forall_update₂ (fun hne => absurd rfl hne) ?_ ?_ h.distinct
    · exact fun l q hli hl _ => htakes.distinct l q hli hl
    · exact fun j q hji hj _ token ht hnext => htakes.distinct j q hji hj token hnext ht

end

include h in
theorem Renewal.start {c : Call} (hbinds : ¬ c.binds) (hremoves : ¬ c.removes) :
    Renewal k₀ sh (update ph i (some (Phase.start c))) := by
  have hblank : (Phase.start c).Blank := Phase.blank_of_stage (.inl rfl)
  have hempty : ∀ q : Phase, (Phase.start c).Suits k₀ sh q := by
    intro q
    refine ⟨nofun, nofun, ?_, nofun⟩
    exact nofun
  have hright : ∀ q : Phase, q.Suits k₀ sh (Phase.start c) := by
    intro q
    refine ⟨fun _ _ _ _ _ _ => rfl, fun _ => rfl, nofun, fun token _ => ⟨?_, nofun⟩⟩
    exact nofun
  refine ⟨h.secret, ?_, ?_, ?_, ?_⟩
  · exact forall_kept (hblank.fits nofun nofun) h.fits
  · exact forall_update₂ (hempty _) (fun _ q _ _ => hempty q) (fun _ q _ _ => hright q) h.suits
  · exact forall_update₂ (fun _ => nofun) (fun _ _ _ _ _ => nofun) (fun _ _ _ _ _ _ _ => nofun) h.distinct
  · exact forall_kept ⟨hbinds, hremoves, nofun, nofun⟩ h.calls

/-! ## Runs -/

/-- **Refreshes of one binding** over a source that rotates its tokens. -/
def Refreshing (k₀ : Ref) (σ : Processes cfg) : Event (federation cfg) → Prop
  | .start _ c => ¬ c.binds ∧ ¬ c.removes
  | .step i ω => ∀ op, σ.nextOp i = some op → (∀ k, op.ref = some k → k = k₀) ∧ op.Rotates σ.sh ω

/-- The steps of an orderly run. -/
def InOrder (k₀ : Ref) (σ : Processes cfg) : Event (federation cfg) → Prop
  | .start _ _ => True
  | .step i _ => ∀ op p, σ.nextOp i = some op → σ.phase i = some p → op.Orderly k₀ σ.sh σ.phase p

/-- No call has started, and the stored refresh token is one that was issued. -/
structure Stored (k₀ : Ref) (σ : Processes cfg) : Prop where
  idle : ∀ i, σ.threads i = none
  secret : ∀ secret, σ.sh.secret k₀ = some secret → σ.sh.Knows secret.refreshToken

/-- The step removes the row or the secret. -/
def Removes (k₀ : Ref) (sh sh' : Shared) : Prop :=
  (sh.row k₀ ≠ none ∧ sh'.row k₀ = none) ∨ (sh.secret k₀ ≠ none ∧ sh'.secret k₀ = none)

theorem Stored.renewal (h : Stored k₀ σ) : Renewal k₀ σ.sh σ.phase := by
  have hnone : ∀ j q, σ.phase j ≠ some q := by
    intro j q hj
    rw [phase_of_idle h.idle j] at hj
    cases hj
  exact ⟨h.secret, fun j q hj => absurd hj (hnone j q), fun j q l q' hj => absurd hj (hnone j q),
    fun j q l q' hj => absurd hj (hnone j q), fun j q hj => absurd hj (hnone j q)⟩

/-- The invariant, along an orderly run. -/
theorem Stored.reaches (h₀ : Stored k₀ σ₀)
    (h : Pool.Reaches (fun σ e => Refreshing k₀ σ e ∧ InOrder k₀ σ e) σ₀ σ) :
    σ.Conforming (fun _ _ => True) ∧ Renewal k₀ σ.sh σ.phase := by
  refine ⟨h.conforming body_follows (conforming_of_idle h₀.idle), ?_⟩
  refine h.invariant (I := fun (sh : Shared) (ph : ℕ → Option Phase) => Renewal k₀ sh ph) body_follows
    ?_ ?_ (conforming_of_idle h₀.idle) h₀.renewal
  · exact fun σ i c hok hI _ => hI.start hok.1.1 hok.1.2
  · intro σ i ω p op r sh hok hI hi hop ha hex
    obtain ⟨honly, hrot⟩ := hok.1 op hop
    exact hI.step hi ha hex honly hrot (hok.2 op p hop hi)

include h hi ha hex honly in
/-- **A removal** is made for a token that was rejected, which is the stored one, and which nobody has
replaced or is about to. -/
theorem Renewal.removes (hremoves : Removes k₀ sh sh') :
    ∃ b token, p.stage.doomed = some (b, token) ∧ sh'.secret k₀ = none ∧
      (∀ secret, sh.secret k₀ = some secret → secret.refreshToken = token) ∧
      ∀ l q, ph l = some q → q.stage.isStoring = false ∧ token ∉ q.won := by
  obtain ⟨hbinds, hcall, hexchanged, hcause⟩ := h.calls i p hi
  -- a row that is there has not moved, so its secret is the one that was rejected
  have hdoomed : ∀ b token row, p.stage.doomed = some (b, token) → sh.row k₀ = some row →
      (∀ secret, sh.secret k₀ = some secret → secret.refreshToken = token) ∧
        ∀ l q, ph l = some q → q.stage.isStoring = false ∧ token ∉ q.won := by
    intro b token row hd hrow
    have hpresented := Stage.presented_of_doomed hd
    have hversion := (h.fits i p hi).doomed b token hd row hrow
    refine ⟨(h.fits i p hi).current b token hpresented row hrow hversion, fun l q hl => ?_⟩
    have hcurrent := (h.suits i p l q hi hl).current
    have hbeaten := (h.suits l q i p hl hi).beaten token
    grind
  cases Effect.of_exec hex honly (h.not_create hi ha) with
  | quiet hrow hsecret | claim _ _ hrow hsecret | store _ hrow hsecret =>
    simp [Removes, hrow, hsecret] at hremoves
  | shred hop hrow hsecret =>
    subst hop
    obtain ⟨-, ⟨hfrom, -⟩ | ⟨b, token, hst, -⟩ | ⟨hfrom, -⟩⟩ := ha
    · exact absurd hfrom hbinds
    · have hd : p.stage.doomed = some (b, token) := by rw [hst]; rfl
      have hseen := Stage.seen_of_presented (Stage.presented_of_doomed hd)
      cases hcase : sh.row k₀ with
      | none =>
        have hgone := ((h.fits i p hi).seen b hseen).2 hcase
        simp [Removes, hrow, hgone] at hremoves
      | some row => exact ⟨b, token, hd, hsecret, hdoomed b token row hd hcase⟩
    · exact absurd hfrom hcall
  | delete hop hrow hsecret =>
    subst hop
    obtain ⟨-, k', cause, hst, -⟩ := ha
    rcases cause with _ | ⟨b, token⟩
    · exact absurd hst (hcause k')
    · have hd : p.stage.doomed = some (b, token) := by rw [hst]; rfl
      have hnone : sh.secret k₀ = none := (h.fits i p hi).removing (by rw [hst]; rfl)
      cases hcase : sh.row k₀ with
      | none => simp [Removes, hcase, hsecret] at hremoves
      | some row => exact ⟨b, token, hd, hsecret.trans hnone, hdoomed b token row hd hcase⟩

/-- The secret is gone, nobody is about to store one, and nobody has replaced the token. -/
structure Dead (k₀ : Ref) (token : String) (sh : Shared) (ph : ℕ → Option Phase) : Prop where
  secret : sh.secret k₀ = none
  calls : ∀ l q, ph l = some q → q.stage.isStoring = false ∧ token ∉ q.won

include ha hex in
/-- A call that does not store a secret replaces no token. -/
theorem won_kept {token' : String} (hstoring : p.stage.isStoring = false)
    (hstoring' : (p.advance op r).stage.isStoring = false) (hwon : token' ∉ p.won) :
    token' ∉ (p.advance op r).won := by
  obtain hrep | ⟨k, secret, spent, -, hst, -⟩ := advance_replaced ha hex
  · rw [won, Stage.replacing_of_not_storing hstoring', hrep, nil_append]
    exact fun hmem => hwon (mem_append_right _ hmem)
  · rw [hst] at hstoring
    cases hstoring

include h hi ha hex honly in
/-- What is dead stays so: a row is not claimed while there is no secret. -/
theorem Dead.step (hD : Dead k₀ token sh ph) (hord : op.Orderly k₀ sh ph p) :
    Dead k₀ token sh' (update ph i (some (p.advance op r))) := by
  obtain ⟨hstoring, hwon⟩ := hD.calls i p hi
  have hstoring' : (p.advance op r).stage.isStoring = false := by
    have hm : Move op r p.stage (p.advance op r).stage := .of_advance r ha
    generalize hst : p.stage = st at hm
    generalize (p.advance op r).stage = st' at hm
    cases hm with
    | keep hop => exact hst ▸ hstoring
    | claim href hversion => exact absurd hD.secret hord.1
    | rebind => exact absurd hst ((h.calls i p hi).2.2.1 _)
    | create => exact absurd rfl (h.not_create hi ha _)
    | _ => rfl
  refine ⟨?_, forall_kept ⟨hstoring', ?_⟩ hD.calls⟩
  · cases Effect.of_exec hex honly (h.not_create hi ha) with
    | quiet _ hsecret | claim _ _ _ hsecret | delete _ _ hsecret => exact hsecret.trans hD.secret
    | store hop _ _ =>
      subst hop
      obtain ⟨-, spent, hst⟩ := ha
      rw [hst] at hstoring
      cases hstoring
    | shred _ _ hsecret => exact hsecret
  · exact won_kept ha hex hstoring hstoring' hwon

include ha hex in
/-- A call that is about to remove the binding claims no row. -/
theorem won_of_doomed {token' : String} (hd : p.stage.doomed = some (b, token)) (hwon : token' ∉ p.won) :
    (p.advance op r).stage.isStoring = false ∧ token' ∉ (p.advance op r).won := by
  have hstoring : (p.advance op r).stage.isStoring = false := by
    have hm : Move op r p.stage (p.advance op r).stage := .of_advance r ha
    generalize p.stage = st at hm hd
    generalize (p.advance op r).stage = st' at hm
    cases hm with
    | keep hop => cases st <;> first | rfl | cases hd
    | claim href hversion => cases hd
    | rebind => cases hd
    | create => cases hd
    | _ => rfl
  refine ⟨hstoring, won_kept ha hex ?_ hstoring hwon⟩
  cases hst : p.stage <;> rw [hst] at hd <;> first | rfl | cases hd

theorem Dead.start (h : Dead k₀ token sh ph) (c : Call) : Dead k₀ token sh (update ph i (some (start c))) :=
  ⟨h.secret, forall_kept ⟨rfl, nofun⟩ h.calls⟩

/-- **A rejected refresh does not destroy a renewed binding**: in every orderly run of refreshes, whoever
removes the row or the secret does so for a token the source has rejected to it; the secret it removes is
that token, and at no later time has any call stored a replacement for it. -/
theorem rejected_never_renewed (h₀ : Stored k₀ σ₀)
    (h : Pool.Reaches (fun σ e => Refreshing k₀ σ e ∧ InOrder k₀ σ e) σ₀ σ) {ω : Choice}
    (hok : Refreshing k₀ σ (.step j ω) ∧ InOrder k₀ σ (.step j ω))
    (hn : σ.next (.step j ω) = some σ') (hremoves : Removes k₀ σ.sh σ'.sh)
    (h' : Pool.Reaches (fun σ e => Refreshing k₀ σ e ∧ InOrder k₀ σ e) σ' τ) :
    ∃ p b token, σ.phase j = some p ∧ p.stage.doomed = some (b, token) ∧
      (∀ secret, σ.sh.secret k₀ = some secret → secret.refreshToken = token) ∧
      ∀ i q, τ.phase i = some q → token ∉ q.replaced := by
  obtain ⟨hconf, hR⟩ := h₀.reaches h
  have hR' := h₀.reaches (h.tail ⟨_, hok, hn⟩)
  obtain ⟨i, c, he, -⟩ | ⟨i, ω', c, p, op, k, r, sh, he, hi, hex, rfl⟩ := next_cases hn
  · cases he
  cases he
  have hop : σ.nextOp j = some op := by simp [nextOp, hi]
  have hp : σ.phase j = some p := by simp [phase, hi]
  have ha : Allowed p op := hconf.allowed hop hp
  obtain ⟨honly, hrot⟩ := hok.1 op hop
  obtain ⟨b, token, hd, hsecret, hstored, hcalls⟩ := hR.removes hp ha hex honly hremoves
  refine ⟨p, b, token, hp, hd, hstored, ?_⟩
  have hdead : Dead k₀ token (σ.put sh j ⟨c, p.advance op r, k r⟩).sh
      (σ.put sh j ⟨c, p.advance op r, k r⟩).phase := by
    rw [put_phase]
    refine ⟨hsecret, forall_kept ?_ hcalls⟩
    exact won_of_doomed ha hex hd (hcalls j p hp).2
  have hend : Renewal k₀ τ.sh τ.phase ∧ Dead k₀ token τ.sh τ.phase := by
    refine h'.invariant (I := fun (sh : Shared) (ph : ℕ → Option Phase) =>
      Renewal k₀ sh ph ∧ Dead k₀ token sh ph) body_follows ?_ ?_ hR'.1 ⟨hR'.2, hdead⟩
    · rintro σ i c hok ⟨hI, hD⟩ -
      exact ⟨hI.start hok.1.1 hok.1.2, hD.start c⟩
    · rintro σ i ω p op r sh hok ⟨hI, hD⟩ hi hop ha hex
      obtain ⟨honly, hrot⟩ := hok.1 op hop
      have hord := hok.2 op p hop hi
      exact ⟨hI.step hi ha hex honly hrot hord, hD.step hI hi ha hex honly hord⟩
  intro i q hi hmem
  exact (hend.2.calls i q hi).2 (mem_append_right _ hmem)

/-! ### A reader between the claim and the secret -/

/-- Whether a source that rotates its tokens may choose so. -/
def Op.rotates (sh : Shared) : Op → Choice → Bool
  | .refreshGrant _ token, .granted t =>
    sh.live.contains token && t.refreshToken != "" && !sh.issued.contains t.refreshToken
  | .refreshGrant _ token, .rejected => !sh.live.contains token
  | _, _ => true

theorem Op.rotates_spec (h : op.rotates sh ω = true) : op.Rotates sh ω := by
  unfold Op.rotates at h
  unfold Op.Rotates
  split
  · simpa [and_assoc] using h
  · simpa using h
  · trivial

/-- The first `m` calls, with refreshes of one binding only. -/
def refreshesOnly (k₀ : Ref) (m : ℕ) (σ : Processes cfg) : Event (federation cfg) → Bool
  | .start i (.fetch _ _ _) => i < m
  | .start _ _ => false
  | .step i ω => (σ.nextOp i).all fun op => op.ref.all (· == k₀) && op.rotates σ.sh ω

theorem refreshesOnly_spec (h : refreshesOnly k₀ m σ e = true) : e.below m = true ∧ Refreshing k₀ σ e := by
  cases e with
  | start i c =>
    cases c with
    | fetch process src k => exact ⟨h, id, id⟩
    | _ => cases h
  | step i ω =>
    refine ⟨rfl, fun op hop => ?_⟩
    rw [refreshesOnly, hop, all_some] at h
    obtain ⟨honly, hrot⟩ := Bool.and_eq_true_iff.1 h
    refine ⟨fun k hk => ?_, Op.rotates_spec hrot⟩
    simpa [hk] using honly

/-- The account is bound at version 5, with a token that is about to expire. -/
def sampleBound : Processes sampleConfig :=
  ⟨⟨0, MemoryBindingStore.empty.set ⟨sampleRef, "bearer", 1, true, 5⟩,
    Dict.set ∅ sampleRef.identity ⟨"at", "rt"⟩, ∅, [], ["rt"], ["rt"]⟩, fun _ => none⟩

theorem sampleBound_stored : Stored sampleRef sampleBound := by
  refine ⟨fun _ => rfl, fun secret hsecret => ?_⟩
  simp only [Shared.secret, sampleBound, Dict.get_set_self, some.injEq] at hsecret
  subst hsecret
  exact .inr (mem_singleton_self _)

/-- Another process refreshes the binding; the source rejects the token it has read, and the row has
not moved since. -/
def rejecting : List (Event (federation sampleConfig)) :=
  making 3 (.fetch 1 sampleSource sampleRef)
    [.done, .done, .done, .done, .done, .done, .rejected, .done]

/-- **A renewed binding is destroyed**: the call `3` reads the row the call `2` has claimed and the
secret the call `2` has not replaced yet. It is rejected for the token the call `2` has spent, and it
removes the binding; the call `2` stores the next token all the same, and the row is gone. -/
theorem renewal_destroyed : Stored sampleRef sampleBound ∧
    ∃ (σ σ' τ : Processes sampleConfig) (p : Phase) (b : Binding),
      Pool.Reaches (fun σ e => Refreshing sampleRef σ e ∧ Unfailing e = true) sampleBound σ ∧
      Refreshing sampleRef σ (.step 3 .done) ∧ σ.next (.step 3 .done) = some σ' ∧
      Removes sampleRef σ.sh σ'.sh ∧ σ.phase 3 = some p ∧ p.stage.doomed = some (b, "rt") ∧
      Pool.Reaches (fun σ e => Refreshing sampleRef σ e ∧ Unfailing e = true) σ' τ ∧
      (∃ q, τ.phase 2 = some q ∧ "rt" ∈ q.replaced) ∧ τ.sh.row sampleRef = none := by
  let check : Processes sampleConfig → Event (federation sampleConfig) → Bool := fun σ e =>
    refreshesOnly sampleRef 4 σ e && Unfailing e
  have hcheck : ∀ (σ : Processes sampleConfig) e, σ.Below 4 → check σ e = true →
      e.below 4 = true ∧ Refreshing sampleRef σ e ∧ Unfailing e = true := by
    intro σ e _ h
    obtain ⟨honly, hfail⟩ := Bool.and_eq_true_iff.1 h
    obtain ⟨hbelow, hrefreshing⟩ := refreshesOnly_spec honly
    exact ⟨hbelow, hrefreshing, hfail⟩
  obtain ⟨h, hσ⟩ := reaches_of_runIf (claiming ++ rejecting) hcheck (fun _ _ => rfl)
    (show sampleBound.runIf check _ = some _ from rfl)
  have hstep := hcheck _ (.step 3 .done) hσ rfl
  obtain ⟨h', -⟩ := reaches_of_runIf ([.step 3 .done, .step 3 .done] ++ storing) hcheck
    (hσ.next hstep.1 rfl) rfl
  exact ⟨sampleBound_stored, _, _, _, _, _, h, hstep.2.1, rfl, .inr ⟨nofun, rfl⟩, rfl, rfl, h',
    ⟨_, rfl, by decide⟩, rfl⟩

/-- Whether the steps are in order, among the first `m` calls. -/
def inOrder (k₀ : Ref) (m : ℕ) (σ : Processes cfg) : Event (federation cfg) → Bool
  | .start _ _ => true
  | .step i _ => (σ.nextOp i).all fun op =>
    match op with
    | .use _ => (List.range m).all fun j => (σ.phase j).all fun q => !q.stage.isStoring
    | .putIfVersion _ _ => (σ.sh.secret k₀).isSome &&
      ((List.range m).all fun j => (σ.phase j).all fun q => q.stage.doomed.isNone) &&
      (σ.sh.row k₀).all fun row => row.version + 1 != 0
    | _ => true

theorem inOrder_spec (hσ : σ.Below m) (h : inOrder k₀ m σ e = true) : InOrder k₀ σ e := by
  cases e with
  | start i c => trivial
  | step i ω =>
    intro op p hop _
    rw [inOrder, hop, all_some] at h
    cases op with
    | use k => exact fun _ j q hj => by simpa using hσ.forall_phase h hj
    | putIfVersion b v =>
      simp only [Bool.and_eq_true, isSome_iff_ne_none] at h
      obtain ⟨⟨hsecret, hdoomed⟩, hrange⟩ := h
      refine ⟨hsecret, fun j q hj => ?_, fun row hrow => ?_⟩
      · simpa using hσ.forall_phase hdoomed hj
      · simpa [hrow] using hrange
    | _ => trivial

/-- The source grants a token to a process that does not get to claim the row. -/
def granting : List (Event (federation sampleConfig)) :=
  making 2 (.fetch 0 sampleSource sampleRef)
    [.done, .done, .done, .done, .done, .done, .granted ⟨"at2", "rt2", "bearer", 1⟩]

/-- The binding is lost, and rightly removed. -/
theorem rejected_never_renewed_removed : ∃ (σ σ' : Processes sampleConfig),
    σ.next (.step 3 .done) = some σ' ∧ Removes sampleRef σ.sh σ'.sh ∧
      ∃ p b token, σ.phase 3 = some p ∧ p.stage.doomed = some (b, token) ∧
        (∀ secret, σ.sh.secret sampleRef = some secret → secret.refreshToken = token) ∧
        ∀ i q, σ'.phase i = some q → token ∉ q.replaced := by
  let check : Processes sampleConfig → Event (federation sampleConfig) → Bool := fun σ e =>
    refreshesOnly sampleRef 4 σ e && inOrder sampleRef 4 σ e
  have hcheck : ∀ (σ : Processes sampleConfig) e, σ.Below 4 → check σ e = true →
      e.below 4 = true ∧ Refreshing sampleRef σ e ∧ InOrder sampleRef σ e := by
    intro σ e hσ h
    obtain ⟨honly, horder⟩ := Bool.and_eq_true_iff.1 h
    obtain ⟨hbelow, hrefreshing⟩ := refreshesOnly_spec honly
    exact ⟨hbelow, hrefreshing, inOrder_spec hσ horder⟩
  obtain ⟨h, hσ⟩ := reaches_of_runIf (granting ++ rejecting) hcheck (fun _ _ => rfl)
    (show sampleBound.runIf check _ = some _ from rfl)
  exact ⟨_, _, rfl, .inr ⟨by nofun, rfl⟩, rejected_never_renewed sampleBound_stored h
    (hcheck _ (.step 3 .done) hσ rfl).2 rfl (.inr ⟨by nofun, rfl⟩) .refl⟩

end Re0Auth.Federation

import Re0Auth.Lib.Framing
import Re0Auth.Lib.Interleave
import Re0Auth.Vault.Repo

/-!
# The credential vault

A secret is sealed under a data key of its own and the data key is wrapped by a key encryption key
(`vault/envelope.go`, `service.go`, `rotate.go`). Any number of services, each with a current key and
the retired ones it may still unwrap with, work on one repository.

* **`Aead`**, **`KeyWrapper`**: the cryptography, as far as the vault sees it;
* **`Config`**: a service, which **`newService`** builds;
* **`Op`**, **`exec`**: the atomic operations, on a **`Shared`** state;
* **`enroll`**, **`use`**, **`revoke`**, **`rotate`**: the calls of **`vault`**.

What a wrap answers is the environment's choice among the values that unwrap to the data key and that
no wrap has answered before: every key wrap that round-trips and does not repeat itself is covered.
-/

namespace Re0Auth.Vault

open Lib OAuth List

/-! ## Envelopes -/

/-- `recordVersion`. -/
def recordVersion : UInt8 := 1

/-- `dekSize`. -/
def dekSize : ℕ := 32

/-- `nonceSize`. -/
def nonceSize : ℕ := 12

/-- **AEAD**: sealing that can be opened again. -/
structure Aead where
  «seal» : (key nonce plaintext aad : Bytes) → Bytes
  «open» : (key nonce ciphertext aad : Bytes) → Option Bytes
  open_seal : ∀ key nonce plaintext aad,
    «open» key nonce («seal» key nonce plaintext aad) aad = some plaintext

/-- **`KeyWrapper`**: the id of a key encryption key and what it unwraps. -/
structure KeyWrapper where
  keyID : String
  unwrap : (wrapped aad : Bytes) → Option Bytes
  /-- `KeyFingerprint`, where the wrapper has one. -/
  fingerprint : Option Bytes

/-- `LocalKeyWrapper`: the nonce is the head of the wrapped key. -/
def localKeyWrapper (A : Aead) (fingerprint : Bytes → Bytes) (id : String) (kek : Bytes) : KeyWrapper where
  keyID := id
  unwrap wrapped aad :=
    if wrapped.length < nonceSize then none
    else A.open kek (wrapped.take nonceSize) (wrapped.drop nonceSize) aad
  fingerprint := some (fingerprint kek)

/-- `LocalKeyWrapper.Wrap`, at the nonce drawn. -/
def localWrap (A : Aead) (kek nonce dek aad : Bytes) : Bytes := nonce ++ A.seal kek nonce dek aad

section

variable {A : Aead} {fingerprint : Bytes → Bytes} {id : String} {kek nonce dek aad aad' : Bytes}
  (hnonce : nonce.length = nonceSize)
include hnonce

/-- A local wrapper opens the sealed part of what it wrapped. -/
theorem localKeyWrapper_localWrap :
    (localKeyWrapper A fingerprint id kek).unwrap (localWrap A kek nonce dek aad) aad' =
      A.open kek nonce (A.seal kek nonce dek aad) aad' := by
  have hlen : ¬(localWrap A kek nonce dek aad).length < nonceSize := by
    rw [localWrap, length_append]
    omega
  simp only [localKeyWrapper, if_neg hlen]
  rw [localWrap, ← hnonce, take_left, drop_left]

end

/-- The rounds of `binary.AppendUvarint`, of which a length takes at most `fuel + 1`. -/
def appendUvarint : (fuel n : ℕ) → Bytes
  | 0, n => [UInt8.ofNat n]
  | fuel + 1, n =>
    if n < 0x80 then [UInt8.ofNat n] else (UInt8.ofNat n ||| 0x80) :: appendUvarint fuel (n >>> 7)

/-- The bytes of a string. -/
def utf8 (s : String) : Bytes := s.toUTF8.data.toList

/-- `bindingAAD`: the identity of a credential, each field after its length. -/
def bindingAAD (version : UInt8) (subject provider : String) : Bytes :=
  version :: (appendUvarint 9 (utf8 subject).length ++ utf8 subject ++
    appendUvarint 9 (utf8 provider).length ++ utf8 provider)

/-- The additional data a record is bound to. -/
def Record.aad (rec : Record) : Bytes :=
  bindingAAD rec.version rec.identity.subject rec.identity.provider

/-! ### What the additional data determines -/

/-- **A Go string**: any bytes, as many as an `int` counts. -/
structure GoString where
  bytes : Bytes
  fits : bytes.length < 2 ^ 63

/-- `bindingAAD` of strings of any bytes. -/
def bindingBytes (version : UInt8) (subject provider : Bytes) : Bytes :=
  version :: (appendUvarint 9 subject.length ++ subject ++ (appendUvarint 9 provider.length ++ provider))

theorem toNat_high (n : ℕ) : (UInt8.ofNat n ||| 0x80).toNat = n % 128 + 128 := by
  have h : ∀ a : Fin 256, (UInt8.ofFin a ||| 0x80).toNat = a % 128 + 128 := by decide +kernel
  have hn := h (Fin.ofNat 256 n)
  rw [show UInt8.ofFin (Fin.ofNat 256 n) = UInt8.ofNat n from rfl, Fin.val_ofNat] at hn
  omega

theorem appendUvarint_reads : ∀ fuel, Reads (· < 2 ^ (7 * fuel + 8)) (appendUvarint fuel)
  | 0, n, m, hn, hm, r, s, heq => by
    obtain ⟨hhead, rfl⟩ := cons.inj heq
    have hval := congrArg UInt8.toNat hhead
    simp only [UInt8.toNat_ofNat', Nat.mul_zero] at hval hn hm
    exact ⟨by omega, rfl⟩
  | fuel + 1, n, m, hn, hm, r, s, heq => by
    have hpow : 2 ^ (7 * (fuel + 1) + 8) = 2 ^ (7 * fuel + 8) * 2 ^ 7 := by
      rw [← Nat.pow_add, Nat.mul_succ, Nat.add_right_comm]
    dsimp only at hn hm
    -- the top bit of the first byte tells whether more bytes follow
    rw [appendUvarint, appendUvarint] at heq
    split_ifs at heq <;> obtain ⟨hhead, htail⟩ := cons.inj heq <;>
      have hval := congrArg UInt8.toNat hhead <;>
      simp only [toNat_high, UInt8.toNat_ofNat'] at hval
    · exact ⟨by omega, htail⟩
    · omega
    · omega
    · rw [Nat.shiftRight_eq_div_pow, Nat.shiftRight_eq_div_pow] at htail
      obtain ⟨hq, rfl⟩ := appendUvarint_reads fuel (by dsimp only; omega) (by dsimp only; omega) htail
      exact ⟨by omega, rfl⟩

theorem bindingBytes_inj {v v' : UInt8} {s s' p p' : GoString}
    (h : bindingBytes v s.bytes p.bytes = bindingBytes v' s'.bytes p'.bytes) : v = v' ∧ s = s' ∧ p = p' := by
  have hreads := (appendUvarint_reads 9).frame
  have hfits : ∀ t : GoString, t.bytes.length < 2 ^ (7 * 9 + 8) := fun t => t.fits.trans (by decide)
  obtain ⟨hv, htail⟩ := cons.inj h
  obtain ⟨hs, hp⟩ := hreads (hfits s) (hfits s') htail
  rw [← append_nil (_ ++ p.bytes), ← append_nil (_ ++ p'.bytes)] at hp
  obtain ⟨hp, -⟩ := hreads (hfits p) (hfits p') hp
  obtain ⟨s, _⟩ := s
  obtain ⟨p, _⟩ := p
  cases hs
  cases hp
  exact ⟨hv, rfl, rfl⟩

/-- A text opens under other additional data than it was sealed under. -/
def Aead.Misopens (A : Aead) : Prop :=
  ∃ key nonce text aad aad', aad ≠ aad' ∧ (A.open key nonce (A.seal key nonce text aad) aad').isSome = true

/-- **Binding**: equal additional data come from one version, subject and provider, and no secret sealed
or data key wrapped for one identity is accepted for another, unless the AEAD ignores its data. -/
theorem binding_injective (v v' : UInt8) (s s' p p' : GoString) :
    (bindingBytes v s.bytes p.bytes = bindingBytes v' s'.bytes p'.bytes ↔ v = v' ∧ s = s' ∧ p = p') ∧
    ∀ (A : Aead) (key nonce text : Bytes),
      ((A.open key nonce (A.seal key nonce text (bindingBytes v s.bytes p.bytes))
          (bindingBytes v' s'.bytes p'.bytes)).isSome = true ∨
        nonce.length = nonceSize ∧ ∃ fingerprint id,
          ((localKeyWrapper A fingerprint id key).unwrap
            (localWrap A key nonce text (bindingBytes v s.bytes p.bytes))
            (bindingBytes v' s'.bytes p'.bytes)).isSome = true) →
      (v = v' ∧ s = s' ∧ p = p') ∨ A.Misopens := by
  refine ⟨⟨bindingBytes_inj, by rintro ⟨rfl, rfl, rfl⟩; rfl⟩, fun A key nonce text haccepted => ?_⟩
  by_cases heq : bindingBytes v s.bytes p.bytes = bindingBytes v' s'.bytes p'.bytes
  · exact .inl (bindingBytes_inj heq)
  · refine .inr ⟨key, nonce, text, _, _, heq, ?_⟩
    obtain hopen | ⟨hnonce, fingerprint, id, hunwrap⟩ := haccepted
    · exact hopen
    · rwa [localKeyWrapper_localWrap hnonce] at hunwrap

/-! ## Services -/

/-- `Rotation`: what a rotation examined and changed. -/
structure Rotation where
  scanned : ℕ := 0
  rewrapped : ℕ := 0
  alreadyCurrent : ℕ := 0
  skipped : ℕ := 0
  deriving DecidableEq, Repr

/-- **Errors**; several at once are `errors.Join`. -/
inductive Error
  | invalidIdentity
  | notFound
  | random
  | wrapDEK
  /-- `aes.NewCipher` refuses the key. -/
  | cipher
  | notConfigured (id : Identity) (kekID : String)
  | unwrapDEK
  | decrypt
  | audit
  | materialChanged (id : Identity) (kekID : String)
  | unwrapRecord (id : Identity)
  | rewrapRecord (id : Identity)
  /-- The rounds given to the page loop are used up. -/
  | pages
  /-- The counts a rotation returns beside its error. -/
  | rotated (out : Rotation) (cause : Error)
  deriving DecidableEq, Repr

/-- `audit.Event`, but for the time. -/
structure AuditEvent where
  action : String
  subject : String := ""
  provider : String := ""
  outcome : String
  detail : List (String × String) := []

/-- `sameKeyMaterial`. -/
def sameKeyMaterial (a b : KeyWrapper) : Bool :=
  match a.fingerprint, b.fingerprint with
  | some fa, some fb => fa == fb
  | _, _ => false

/-- **A service**: the key that wraps and the keys that may unwrap, under their ids. -/
structure Config where
  current : KeyWrapper
  keys : Dict String KeyWrapper
  own : keys.get current.keyID = some current

/-- The loop of `WithRetiredKeys`: a retired key has an id and a material of its own. -/
def withRetiredKeys (cfg : Config) : (added retired : List KeyWrapper) → Option Config
  | _, [] => some cfg
  | added, k :: retired =>
    if hid : k.keyID = cfg.current.keyID then none
    else if (cfg.keys.get k.keyID).isSome then none
    else if sameKeyMaterial k cfg.current then none
    else if added.any (sameKeyMaterial k) then none
    else withRetiredKeys
      { cfg with
        keys := cfg.keys.set k.keyID k
        own := by rw [Dict.get_set, if_neg (Ne.symm hid), cfg.own] }
      (added ++ [k]) retired

/-- The service `NewService` applies the options to. -/
def Config.single (kek : KeyWrapper) : Config where
  current := kek
  keys := (∅ : Dict String KeyWrapper).set kek.keyID kek
  own := Dict.get_set_self ..

/-- **`NewService`**, at the keys of each `WithRetiredKeys` option. -/
def newService (kek : KeyWrapper) (opts : List (List KeyWrapper)) : Option Config :=
  if kek.keyID = "" then none else opts.foldlM (withRetiredKeys · []) (.single kek)

theorem sameKeyMaterial_comm (a b : KeyWrapper) : sameKeyMaterial a b = sameKeyMaterial b a := by
  simp only [sameKeyMaterial]
  cases a.fingerprint <;> cases b.fingerprint <;> simp [Bool.beq_comm]

/-- Keys of which no later one has the material of an earlier one. -/
def Apart (keys : List KeyWrapper) : Prop := keys.Pairwise fun a b => sameKeyMaterial b a = false

/-- One option adds its keys under their ids, and their material is new. -/
theorem withRetiredKeys_spec {cfg cfg' : Config} {added retired : List KeyWrapper}
    (h : withRetiredKeys cfg added retired = some cfg') (hadded : Apart (cfg.current :: added)) :
    Apart (cfg.current :: added ++ retired) ∧
      ∀ id k, cfg'.keys.get id = some k → cfg.keys.get id = some k ∨ k.keyID = id ∧ k ∈ retired := by
  induction retired generalizing cfg added with
  | nil =>
    cases h
    exact ⟨by rwa [append_nil], fun _ _ => .inl⟩
  | cons k₀ retired ih =>
    rw [withRetiredKeys] at h
    split_ifs at h with hid hdup hcur hany
    have hnew : ∀ a ∈ cfg.current :: added, sameKeyMaterial k₀ a = false := by
      simpa [hcur] using hany
    obtain ⟨hapart, hkeys⟩ := ih h (pairwise_append.2 ⟨hadded, pairwise_singleton .., by simpa using hnew⟩)
    refine ⟨by simpa using hapart, fun id k hk => ?_⟩
    rcases hkeys id k hk with hset | ⟨hown, hmem⟩
    · exact (Dict.get_of_get_set hset).imp_right fun ⟨hown, hk⟩ => by simp [hown, hk]
    · exact .inr ⟨hown, mem_cons_of_mem _ hmem⟩

/-- A key with a fingerprint. -/
def plainKey (id : String) (fingerprint : UInt8) : KeyWrapper := ⟨id, fun _ _ => none, some [fingerprint]⟩

/-- A wrap that was answered. -/
structure Wrap where
  key : KeyWrapper
  dek : Bytes
  aad : Bytes

/-- **Shared state**: the repository, and two records of the past. -/
structure Shared where
  repo : MemoryRepo
  /-- The wraps answered so far, by their value. -/
  wraps : Dict Bytes Wrap
  /-- The secret last enrolled for an identity, while no removal has followed. -/
  enrolled : Dict Identity Bytes

/-- **Operations.** A `put` names the secret its record seals. -/
inductive Op
  | fillRandom (n : ℕ)
  | wrap (key : KeyWrapper) (dek aad : Bytes)
  | unwrap (key : KeyWrapper) (wrapped aad : Bytes)
  | now
  | record (e : AuditEvent)
  | get (id : Identity)
  | put (rec : Record) (secret : Bytes)
  | delete (id : Identity)
  | rewrapIfUnchanged (id : Identity) (expect : Bytes) (next : Envelope)
  | listPage (afterSubject afterProvider : String) (limit : ℕ)
  | deleteSubject (subject : String)

/-- What an operation answers. -/
@[reducible] def Op.Res : Op → Type
  | fillRandom _ | wrap _ _ _ | unwrap _ _ _ => Option Bytes
  | now => Time
  | record _ => Bool
  | get _ => Option Record
  | put _ _ => Unit
  | delete _ => Bool
  | rewrapIfUnchanged _ _ _ => Bool
  | listPage _ _ _ => List Record
  | deleteSubject _ => Option ℕ

/-- **The environment's choices**: the bytes drawn or wrapped, the time, whether the audit log takes an
event. -/
inductive Choice
  | done
  | failed
  | bytes (b : Bytes)
  | time (t : Time)
  deriving DecidableEq

/-- **One atomic operation.** -/
def exec (op : Op) (ω : Choice) (sh : Shared) : Option (op.Res × Shared) :=
  match op with
  | .fillRandom n =>
    match ω with
    | .bytes b => if b.length = n then some (some b, sh) else none
    | .failed => some (none, sh)
    | _ => none
  | .wrap key dek aad =>
    match ω with
    | .bytes w =>
      if key.unwrap w aad = some dek ∧ sh.wraps.get w = none then
        some (some w, { sh with wraps := sh.wraps.set w ⟨key, dek, aad⟩ })
      else none
    | .failed => some (none, sh)
    | _ => none
  | .unwrap key wrapped aad => some (key.unwrap wrapped aad, sh)
  | .now =>
    match ω with
    | .time t => some (t, sh)
    | _ => none
  | .record _ =>
    match ω with
    | .failed => some (false, sh)
    | _ => some (true, sh)
  | .get id => some (sh.repo.get id, sh)
  | .put rec secret => some ((), { sh with
      repo := sh.repo.put rec
      enrolled := sh.enrolled.set rec.identity secret })
  | .delete id =>
    match sh.repo.delete id with
    | none => some (false, sh)
    | some repo => some (true, { sh with repo := repo, enrolled := sh.enrolled.del id })
  | .rewrapIfUnchanged id expect next =>
    some ((sh.repo.rewrapIfUnchanged id expect next).1,
      { sh with repo := (sh.repo.rewrapIfUnchanged id expect next).2 })
  | .listPage afterSubject afterProvider limit =>
    some (sh.repo.listPage afterSubject afterProvider limit, sh)
  | .deleteSubject subject =>
    match sh.repo.deleteSubject subject with
    | .error _ => some (none, sh)
    | .ok (n, repo) => some (some n, { sh with
        repo := repo
        enrolled := sh.enrolled.filter fun id _ => id.subject != subject })

/-- The repository, the keys and the audit log as a machine. -/
abbrev machine : Machine where
  Op := Op
  Res := Op.Res
  Sh := Shared
  Choice := Choice
  exec := exec

/-- Methods of a service: programs that may fail. -/
abbrev Svc (α : Type) : Type := ExceptT (List Error) (Prog machine) α

/-- One operation. -/
def ask (op : Op) : Prog machine op.Res := Prog.call (M := machine) op

/-- One operation, in a method. -/
def act (op : Op) : Svc op.Res := liftM (ask op)

/-! ## Methods -/

section Methods

variable (A : Aead) (cfg : Config)

/-- An operation that answers bytes or fails. -/
def demand {α : Type} (e : Error) : Option α → Svc α
  | some a => pure a
  | none => throw [e]

/-- `aes.NewCipher`: the lengths an AES key can have. -/
def newCipher (key : Bytes) : Bool := key.length == 16 || key.length == 24 || key.length == 32

/-- `sealSecret`. -/
def sealSecret (dek plaintext aad : Bytes) : Svc (Bytes × Bytes) :=
  if newCipher dek then do
    let nonce ← act (.fillRandom nonceSize) >>= demand .random
    return (nonce, A.seal dek nonce plaintext aad)
  else throw [.cipher]

/-- `openSecret`. -/
def openSecret (dek nonce ciphertext aad : Bytes) : Except Error Bytes :=
  if newCipher dek then
    match A.open dek nonce ciphertext aad with
    | some plaintext => .ok plaintext
    | none => .error .decrypt
  else .error .cipher

/-- `record`. -/
def record (e : AuditEvent) : Svc Unit := do
  let taken ← act (.record e)
  if taken then return () else throw [.audit]

/-- An error that is audited: the failure of the log is joined to it. -/
def refuse {α : Type} (e : Error) (event : AuditEvent) : Svc α := do
  let taken ← act (.record event)
  throw (if taken then [e] else [e, .audit])

/-- **`Enroll`**. -/
def enroll (id : Identity) (secret : Bytes) (meta_ : List (String × String)) : Svc Unit :=
  if !id.validate then throw [.invalidIdentity]
  else do
    let aad := bindingAAD recordVersion id.subject id.provider
    let dek ← act (.fillRandom dekSize) >>= demand .random
    let wrapped ← act (.wrap cfg.current dek aad) >>= demand .wrapDEK
    let (nonce, ct) ← sealSecret A dek secret aad
    let now ← act .now
    -- audited before it is persisted
    record { action := "vault.enroll", subject := id.subject, provider := id.provider, outcome := "ok" }
    let prev ← act (.get id)
    act (.put {
      identity := id
      version := recordVersion
      wrappedDEK := wrapped
      kekID := cfg.current.keyID
      nonce := nonce
      ciphertext := ct
      meta_ := meta_
      createdAt := (prev.map (·.createdAt)).getD now
      updatedAt := now } secret)

/-- The audit event of a use. -/
def useEvent (id : Identity) (outcome : String) : AuditEvent :=
  { action := "vault.use", subject := id.subject, provider := id.provider, outcome := outcome }

/-- The end of `Use`, once the data key is there: the access is recorded before the secret is handed
over. -/
def hand (id : Identity) : Except Error Bytes → Svc Bytes
  | .error e => refuse e (useEvent id "error")
  | .ok plain => do
    record (useEvent id "ok")
    return plain

/-- **`Use`**, with the secret its callback is given. -/
def use (id : Identity) : Svc Bytes :=
  if !id.validate then throw [.invalidIdentity]
  else do
    let found ← act (.get id)
    match found with
    | none => refuse .notFound (useEvent id "denied")
    | some rec =>
      match cfg.keys.get rec.kekID with
      | none => refuse (.notConfigured rec.identity rec.kekID) (useEvent id "error")
      | some key => do
        let dek ← act (.unwrap key rec.wrappedDEK rec.aad)
        match dek with
        | none => refuse .unwrapDEK (useEvent id "error")
        | some dek => hand id (openSecret A dek rec.nonce rec.ciphertext rec.aad)

/-- **`Revoke`**; a record that is not there is no error. -/
def revoke (id : Identity) : Svc Unit :=
  if !id.validate then throw [.invalidIdentity]
  else do
    let _ ← act (.delete id)
    record { action := "vault.revoke", subject := id.subject, provider := id.provider, outcome := "ok" }

/-- **`Exists`**. -/
def «exists» (id : Identity) : Svc Bool :=
  if !id.validate then throw [.invalidIdentity]
  else do
    let found ← act (.get id)
    return found.isSome

/-! ## Rotation -/

/-- `rotatePageSize`. -/
def rotatePageSize : ℕ := 200

/-- The end of a rotation step: the envelope is replaced if the row is still the one that was read. -/
def rewrap (out : Rotation) (rec : Record) (wrapped : Bytes) : Svc Rotation := do
  let now ← act .now
  let applied ← act (.rewrapIfUnchanged rec.identity rec.wrappedDEK ⟨cfg.current.keyID, wrapped, now⟩)
  return if applied then { out with rewrapped := out.rewrapped + 1 }
    else { out with skipped := out.skipped + 1 }

/-- One round of `rotateRecords`. -/
def rotateRecord (out : Rotation) (rec : Record) : Svc Rotation :=
  let out := { out with scanned := out.scanned + 1 }
  if rec.kekID = cfg.current.keyID then do
    let dek ← act (.unwrap cfg.current rec.wrappedDEK rec.aad)
    let _ ← demand (.rotated out (.materialChanged rec.identity cfg.current.keyID)) dek
    return { out with alreadyCurrent := out.alreadyCurrent + 1 }
  else do
    let old ← demand (.rotated out (.notConfigured rec.identity rec.kekID)) (cfg.keys.get rec.kekID)
    let dek ← act (.unwrap old rec.wrappedDEK rec.aad) >>=
      demand (.rotated out (.unwrapRecord rec.identity))
    let wrapped ← act (.wrap cfg.current dek rec.aad) >>=
      demand (.rotated out (.rewrapRecord rec.identity))
    rewrap cfg out rec wrapped

/-- `rotateRecords`. -/
def rotateRecords : Rotation → List Record → Svc Rotation
  | out, [] => return out
  | out, rec :: page => do
    let out ← rotateRecord cfg out rec
    rotateRecords out page

/-- The page loop of `Rotate`, for at most `pages` pages. -/
def rotatePages : (pages : ℕ) → Rotation → (afterSubject afterProvider : String) → Svc Rotation
  | 0, out, _, _ => throw [.rotated out .pages]
  | pages + 1, out, afterSubject, afterProvider => do
    let page ← act (.listPage afterSubject afterProvider rotatePageSize)
    match page.getLast? with
    | none => return out
    | some last => do
      let out ← rotateRecords cfg out page
      if page.length < rotatePageSize then return out
      else rotatePages pages out last.identity.subject last.identity.provider

/-- The audit event of a rotation; one that skipped records is not a success. -/
def rotateEvent (out : Rotation) : AuditEvent where
  action := "vault.rotate_keys"
  outcome := if out.skipped > 0 then "error" else "ok"
  detail := [("to_key", cfg.current.keyID), ("scanned", toString out.scanned),
    ("rewrapped", toString out.rewrapped), ("skipped", toString out.skipped)]

/-- **`Rotate`**, over a repository that can page. -/
def rotate (pages : ℕ) : Svc Rotation := do
  let out ← rotatePages cfg pages {} "" ""
  let taken ← act (.record (rotateEvent cfg out))
  if taken then return out else throw [.rotated out .audit]

end Methods

/-! ## The service -/

/-- **Calls**, each with the service it is made to; an erasure goes to the repository itself. -/
inductive Call
  | enroll (cfg : Config) (id : Identity) (secret : Bytes) (meta_ : List (String × String))
  | use (cfg : Config) (id : Identity)
  | revoke (cfg : Config) (id : Identity)
  | exists (cfg : Config) (id : Identity)
  | rotate (cfg : Config) (pages : ℕ)
  | deleteSubject (subject : String)

/-- What a call returns. -/
inductive Reply
  | done
  | secret (s : Bytes)
  | found (b : Bool)
  | rotation (out : Rotation)
  | removed (n : ℕ)
  deriving DecidableEq

/-- The program of a call. -/
def Call.body (A : Aead) : Call → Svc Reply
  | .enroll cfg id secret meta_ => (fun _ => Reply.done) <$> Vault.enroll A cfg id secret meta_
  | .use cfg id => Reply.secret <$> Vault.use A cfg id
  | .revoke _ id => (fun _ => Reply.done) <$> Vault.revoke id
  | .exists _ id => Reply.found <$> Vault.«exists» id
  | .rotate cfg pages => Reply.rotation <$> Vault.rotate cfg pages
  | .deleteSubject subject => Reply.removed <$> (act (.deleteSubject subject) >>= demand .invalidIdentity)

/-- **The vault**: all services on one repository. -/
abbrev vault (A : Aead) : Service machine where
  Call := Call
  Reply := Except (List Error) Reply
  body c := (c.body A).run

end Re0Auth.Vault

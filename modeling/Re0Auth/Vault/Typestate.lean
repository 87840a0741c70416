import Re0Auth.Vault.Service

/-!
# What a vault call holds

Between its operations a call of the vault holds copies of what it has read: a rotation the rest of a
page that other calls have moved on from, an enrolment the data key it has wrapped. This module says in
a typestate what is held when, and checks the programs against it.

* **`Stage`**, **`Phase`**: what a call holds, whether the audit log has taken its events so far, and
  the rows a rotation had to skip;
* **`Allowed`**: the operations that are in order, and what they are made with;
* **`Finished`**: what a call returns, in terms of what it held at the end;
* **`body_follows`**: every call keeps to the typestate, whatever the keys and the log answer.
-/

namespace Re0Auth.Vault

open Lib OAuth

/-- **Stage** of a call. -/
inductive Stage
  | idle
  /-- An enrolment has drawn a data key. -/
  | drawn (dek : Bytes)
  /-- An enrolment has wrapped its data key. -/
  | wrapped (dek w : Bytes)
  /-- A use has read the record. -/
  | read (found : Option Record)
  /-- A use has unwrapped the data key, or has not. -/
  | opened (rec : Record) (dek : Option Bytes)
  /-- A rotation holds the rest of a page, and the last identity of the page if it was full. -/
  | paging (page : List Record) (more : Option Identity)
  /-- A rotation has unwrapped the data key of a record. -/
  | unwrapped (rec : Record) (page : List Record) (more : Option Identity) (dek : Bytes)
  /-- A rotation has wrapped the data key anew. -/
  | rewrapping (rec : Record) (page : List Record) (more : Option Identity) (dek w : Bytes)
  | failed

/-- **Phase** of a call. -/
structure Phase where
  call : Call
  stage : Stage
  /-- The audit log has taken every event so far. -/
  audited : Bool
  /-- The rows that were no longer the ones a rotation had read. -/
  skipped : ℕ

/-- The id of the key a call wraps with. -/
def Call.keyID : Call → String
  | enroll cfg _ _ _ | use cfg _ | revoke cfg _ | «exists» cfg _ | rotate cfg _ => cfg.current.keyID
  | deleteSubject _ => ""

/-- The phase of a call that has done nothing. -/
def Phase.start (c : Call) : Phase := ⟨c, .idle, true, 0⟩

namespace Stage

/-- After a random draw: the first one of an enrolment is its data key. -/
def draw (b : Option Bytes) : Stage → Stage
  | idle =>
    match b with
    | some dek => drawn dek
    | none => failed
  | st => st

/-- After a wrap. -/
def wrap (w : Option Bytes) : Stage → Stage
  | drawn dek =>
    match w with
    | some w => wrapped dek w
    | none => failed
  | unwrapped rec page more dek =>
    match w with
    | some w => rewrapping rec page more dek w
    | none => failed
  | st => st

/-- After an unwrap; a record on the key `current` needs no other. -/
def unwrap (current : String) (dek : Option Bytes) : Stage → Stage
  | read (some rec) => opened rec dek
  | paging (rec :: page) more =>
    match dek with
    | some dek => if rec.kekID = current then paging page more else unwrapped rec page more dek
    | none => failed
  | st => st

/-- After a record was asked for. -/
def look (found : Option Record) : Stage → Stage
  | idle => read found
  | st => st

/-- After a row was compared and written. -/
def swap : Stage → Stage
  | rewrapping _ page more _ _ => paging page more
  | st => st

/-- After a page was read; only a full one is followed by another. -/
def turn (limit : ℕ) (page : List Record) : Stage :=
  paging page (if page.length < limit then none else page.getLast?.map (·.identity))

end Stage

/-- **The phase after an operation.** -/
def Phase.advance (p : Phase) : (op : Op) → op.Res → Phase
  | .fillRandom _, r => { p with stage := p.stage.draw r }
  | .wrap _ _ _, r => { p with stage := p.stage.wrap r }
  | .unwrap _ _ _, r => { p with stage := p.stage.unwrap p.call.keyID r }
  | .record _, r => { p with audited := p.audited && r }
  | .get _, r => { p with stage := p.stage.look r }
  | .put _ _, _ => { p with stage := .idle }
  | .rewrapIfUnchanged _ _ _, r =>
    { p with stage := p.stage.swap, skipped := if r then p.skipped else p.skipped + 1 }
  | .listPage _ _ limit, page => { p with stage := .turn limit page }
  | _, _ => p

/-- The call is a rotation. -/
def Call.rotates : Call → Bool
  | rotate _ _ => true
  | _ => false

/-- The call is a use. -/
def Call.uses : Call → Bool
  | use _ _ => true
  | _ => false

/-- The record seals the secret under the data key, and is as an enrolment writes it. -/
structure Seals (A : Aead) (cfg : Config) (id : Identity) (secret dek w : Bytes) (rec : Record) : Prop where
  identity : rec.identity = id
  valid : id.validate = true
  version : rec.version = recordVersion
  wrapped : rec.wrappedDEK = w
  kekID : rec.kekID = cfg.current.keyID
  opens : openSecret A dek rec.nonce rec.ciphertext rec.aad = .ok secret

/-- **Operations that are in order.** -/
def Allowed (A : Aead) (p : Phase) : Op → Prop
  | .wrap key dek aad =>
    (∃ cfg id secret m, p.call = .enroll cfg id secret m ∧ p.stage = .drawn dek ∧ key = cfg.current ∧
      aad = bindingAAD recordVersion id.subject id.provider) ∨
    ∃ cfg pages rec page more, p.call = .rotate cfg pages ∧ p.stage = .unwrapped rec page more dek ∧
      key = cfg.current ∧ aad = rec.aad
  | .unwrap key w aad =>
    (∃ cfg id rec, p.call = .use cfg id ∧ p.stage = .read (some rec) ∧
      cfg.keys.get rec.kekID = some key ∧ w = rec.wrappedDEK ∧ aad = rec.aad) ∨
    ∃ cfg pages rec page more, p.call = .rotate cfg pages ∧ p.stage = .paging (rec :: page) more ∧
      cfg.keys.get rec.kekID = some key ∧ w = rec.wrappedDEK ∧ aad = rec.aad
  | .put rec secret => ∃ cfg id m dek w, p.call = .enroll cfg id secret m ∧ p.stage = .wrapped dek w ∧
    Seals A cfg id secret dek w rec
  | .rewrapIfUnchanged id expect next => ∃ cfg pages rec page more dek, p.call = .rotate cfg pages ∧
    p.stage = .rewrapping rec page more dek next.wrappedDEK ∧ id = rec.identity ∧
    expect = rec.wrappedDEK ∧ next.kekID = cfg.current.keyID
  | .listPage afterSubject afterProvider limit => limit = rotatePageSize ∧ p.call.rotates = true ∧
    (p.stage = .idle ∧ afterSubject = "" ∧ afterProvider = "" ∨
      ∃ last, p.stage = .paging [] (some last) ∧ afterSubject = last.subject ∧
        afterProvider = last.provider)
  | .get _ => p.call.uses = true → p.stage = .idle
  | .delete _ | .deleteSubject _ => p.call.rotates = false
  | _ => True

/-- The stages in which a call holds no record to replace and no wrap. -/
def Stage.Bare : Stage → Prop
  | wrapped _ _ | paging _ _ | unwrapped _ _ _ _ | rewrapping _ _ _ _ _ => False
  | _ => True

/-- **What an operation that is in order does to the stage.** -/
inductive Goes (p : Phase) : (op : Op) → op.Res → Stage → Prop
  | stays {op r} : Goes p op r p.stage
  | bare {op r st} (h : Stage.Bare st) : Goes p op r st
  | wrapped {cfg id secret m dek w} (hc : p.call = .enroll cfg id secret m) :
    Goes p (.wrap cfg.current dek (bindingAAD recordVersion id.subject id.provider)) (some w) (.wrapped dek w)
  | rewrapping {cfg pages rec page more dek w} (hc : p.call = .rotate cfg pages)
    (hst : p.stage = .unwrapped rec page more dek) :
    Goes p (.wrap cfg.current dek rec.aad) (some w) (.rewrapping rec page more dek w)
  /-- The record was on the current key already. -/
  | verified {cfg pages rec page more key dek} (hc : p.call = .rotate cfg pages)
    (hst : p.stage = .paging (rec :: page) more) (hkey : cfg.keys.get rec.kekID = some key)
    (hkek : rec.kekID = cfg.current.keyID) :
    Goes p (.unwrap key rec.wrappedDEK rec.aad) (some dek) (.paging page more)
  | unwrapped {cfg pages rec page more key dek} (hc : p.call = .rotate cfg pages)
    (hst : p.stage = .paging (rec :: page) more) (hkey : cfg.keys.get rec.kekID = some key) :
    Goes p (.unwrap key rec.wrappedDEK rec.aad) (some dek) (.unwrapped rec page more dek)
  | swapped {cfg pages rec page more dek next r} (hc : p.call = .rotate cfg pages)
    (hst : p.stage = .rewrapping rec page more dek next.wrappedDEK) (hkek : next.kekID = cfg.current.keyID) :
    Goes p (.rewrapIfUnchanged rec.identity rec.wrappedDEK next) r (.paging page more)
  | turned {subject provider limit page} : Goes p (.listPage subject provider limit) page (.turn limit page)

/-- **The typestate** of the vault. -/
abbrev typestate (A : Aead) : Typestate (vault A) where
  Phase := Phase
  start := Phase.start
  allowed := Allowed A
  advance := Phase.advance

/-- An error that was audited, or that was not. -/
def refused (audited : Bool) (e : Error) : Except (List Error) Reply :=
  .error (if audited then [e] else [e, .audit])

/-- What a use returns. -/
def useReply (A : Aead) (audited : Bool) : Stage → Except (List Error) Reply
  | .read none => refused audited .notFound
  | .read (some rec) => refused audited (.notConfigured rec.identity rec.kekID)
  | .opened _ none => refused audited .unwrapDEK
  | .opened rec (some dek) =>
    match openSecret A dek rec.nonce rec.ciphertext rec.aad with
    | .ok s => if audited then .ok (.secret s) else .error [.audit]
    | .error e => refused audited e
  | _ => .error [.invalidIdentity]

/-- `Scanned == Rewrapped + AlreadyCurrent + Skipped`. -/
def Rotation.Balanced (out : Rotation) : Prop :=
  out.scanned = out.rewrapped + out.alreadyCurrent + out.skipped

/-- **What a call returns**, and in which phase. -/
def Finished (A : Aead) (r : Except (List Error) Reply) (p : Phase) : Prop :=
  match p.call with
  | .use cfg _ => r = useReply A p.audited p.stage ∧
    ∀ rec, p.stage = .read (some rec) → cfg.keys.get rec.kekID = none
  | .rotate _ _ => ∀ out, r = .ok (.rotation out) →
    out.Balanced ∧ p.stage = .paging [] none ∧ p.skipped = out.skipped
  | _ => True

/-! ## Rules -/

variable {A : Aead} {p q : Phase} {α β : Type} {cfg : Config} {id : Identity} {pages : ℕ} {op : Op}
  {Q : Except (List Error) α → Phase → Prop} {e : Error} {dek secret aad w : Bytes} {rec : Record}
  {out : Rotation} {page : List Record} {more : Option Identity} {fuel : ℕ}

/-- A method conforms from a phase and ends with `Q`. -/
abbrev Conforms (A : Aead) (p : Phase) (m : Svc α) (Q : Except (List Error) α → Phase → Prop) : Prop :=
  Prog.Follows (typestate A) p m.run Q

theorem conforms_op {f : op.Res → Svc α} (h : Allowed A p op)
    (hf : ∀ r, Conforms A (p.advance op r) (f r) Q) : Conforms A p (act op >>= f) Q := ⟨h, hf⟩

/-- An operation whose answer is demanded: without one the method fails. -/
theorem Conforms.demand {m : Svc (Option α)} {f : α → Svc β}
    {Q : Except (List Error) β → Phase → Prop} {R : Option α → Phase → Prop}
    (hm : Conforms A p m fun r q => ∃ a, r = .ok a ∧ R a q)
    (hsome : ∀ a q, R (some a) q → Conforms A q (f a) Q) (hnone : ∀ q, R none q → Q (.error [e]) q) :
    Conforms A p ((m >>= Vault.demand e) >>= f) Q := by
  refine .bindE (R := fun r q => match r with
    | .ok a => R (some a) q
    | .error es => es = [e] ∧ R none q) (.bindE hm ?_ ?_) hsome ?_
  · rintro a q ⟨b, hb, hR⟩
    cases hb
    cases a with
    | none => exact ⟨rfl, hR⟩
    | some a => exact hR
  · rintro es q ⟨b, hb, -⟩
    cases hb
  · rintro es q ⟨rfl, hR⟩
    exact hnone q hR

theorem conforms_act (h : Allowed A p op) :
    Conforms A p (act op) fun r q => ∃ a, r = .ok a ∧ q = p.advance op a := ⟨h, fun a => ⟨a, rfl, rfl⟩⟩

section Advance

variable {key : KeyWrapper} {a b w : Bytes} {n : ℕ} {r : Option Bytes}

@[simp] theorem stage_fillRandom : (p.advance (.fillRandom n) r).stage = p.stage.draw r := rfl

@[simp] theorem stage_wrap : (p.advance (.wrap key a b) r).stage = p.stage.wrap r := rfl

@[simp] theorem stage_unwrap : (p.advance (.unwrap key w a) r).stage = p.stage.unwrap p.call.keyID r := rfl

@[simp] theorem stage_get {r : Option Record} : (p.advance (.get id) r).stage = p.stage.look r := rfl

@[simp] theorem stage_listPage {subject provider : String} {r : List Record} :
    (p.advance (.listPage subject provider n) r).stage = .turn n r := rfl

end Advance

theorem advance_call (op : Op) (r : op.Res) : (p.advance op r).call = p.call := by
  cases op <;> rfl

theorem Goes.of_eq {r : op.Res} {st : Stage} (h : st = p.stage ∨ st.Bare) : Goes p op r st := by
  rcases h with rfl | h
  · exact .stays
  · exact .bare h

theorem Allowed.goes (ha : Allowed A p op) (r : op.Res) : Goes p op r (p.advance op r).stage := by
  cases op with
  | fillRandom n =>
    refine .of_eq ?_
    rw [stage_fillRandom]
    cases p.stage <;> cases r <;> first | exact .inl rfl | exact .inr trivial
  | get id =>
    refine .of_eq ?_
    rw [stage_get]
    cases p.stage <;> first | exact .inl rfl | exact .inr trivial
  | wrap key dek aad =>
    rw [stage_wrap]
    obtain ⟨cfg, id, secret, m, hc, hst, rfl, rfl⟩ | ⟨cfg, pages, rec, page, more, hc, hst, rfl, rfl⟩ := ha
    · rw [hst]
      cases r with
      | none => exact .bare trivial
      | some w => exact .wrapped hc
    · rw [hst]
      cases r with
      | none => exact .bare trivial
      | some w => exact .rewrapping hc hst
  | unwrap key w aad =>
    rw [stage_unwrap]
    obtain ⟨cfg, id, rec, -, hst, -⟩ | ⟨cfg, pages, rec, page, more, hc, hst, hkey, rfl, rfl⟩ := ha
    · rw [hst]
      exact .bare trivial
    · have hid : p.call.keyID = cfg.current.keyID := congrArg Call.keyID hc
      rw [hst, hid]
      cases r with
      | none => exact .bare trivial
      | some dek =>
        simp only [Stage.unwrap]
        split_ifs with hkek
        · exact .verified hc hst hkey hkek
        · exact .unwrapped hc hst hkey
  | put rec secret => exact .bare trivial
  | rewrapIfUnchanged id expect next =>
    obtain ⟨cfg, pages, rec, page, more, dek, hc, hst, rfl, rfl, hkek⟩ := ha
    show Goes p _ r p.stage.swap
    rw [hst]
    exact .swapped hc hst hkek
  | listPage subject provider limit => exact .turned
  | now | record | delete | deleteSubject => exact .stays

/-- A method that fails with an audited error. -/
theorem refuse_conforms {event : AuditEvent}
    (h : ∀ taken, Q (.error (if taken then [e] else [e, .audit])) { p with audited := p.audited && taken }) :
    Conforms A p (refuse e event) Q :=
  conforms_op trivial h

/-! ## Enrolling and using -/

/-- What a data key seals it opens. -/
theorem openSecret_seal {nonce : Bytes} (h : newCipher dek = true) :
    openSecret A dek nonce (A.seal dek nonce secret aad) aad = .ok secret := by
  rw [openSecret, if_pos h, A.open_seal]

theorem sealSecret_conforms (hst : p.stage = .wrapped dek w) :
    Conforms A p (sealSecret A dek secret aad) fun r q => q.call = p.call ∧ q.stage = .wrapped dek w ∧
      ∀ nonce ct, r = .ok (nonce, ct) → openSecret A dek nonce ct aad = .ok secret := by
  unfold sealSecret
  have hkeep : ∀ b, (p.advance (.fillRandom nonceSize) b).stage = .wrapped dek w := by
    intro b
    rw [stage_fillRandom, hst]
    rfl
  split_ifs with hcipher
  · refine .demand (conforms_act trivial) ?_ ?_
    · rintro nonce q rfl
      refine ⟨rfl, hkeep _, ?_⟩
      rintro nonce' ct h
      cases h
      exact openSecret_seal hcipher
    · rintro q rfl
      exact ⟨rfl, hkeep _, nofun⟩
  · exact ⟨rfl, hst, nofun⟩

theorem record_conforms {e : AuditEvent} {Q : Except (List Error) Unit → Phase → Prop}
    (hok : Q (.ok ()) p) (herr : Q (.error [.audit]) { p with audited := false }) :
    Conforms A p (record e) Q := by
  refine conforms_op trivial fun taken => ?_
  cases taken with
  | true =>
    have hp : p.advance (.record e) true = p := by simp [Phase.advance]
    rw [hp]
    exact hok
  | false =>
    have hp : p.advance (.record e) false = { p with audited := false } := by simp [Phase.advance]
    rw [hp]
    exact herr

theorem enroll_conforms {m : List (String × String)}
    (hcall : p.call = .enroll cfg id secret m) (hst : p.stage = .idle) :
    Conforms A p (enroll A cfg id secret m) fun _ _ => True := by
  unfold enroll
  split_ifs with hvalid
  · trivial
  refine .demand (conforms_act trivial) ?_ fun _ _ => trivial
  rintro dek q rfl
  have hdrawn : (p.advance (.fillRandom dekSize) (some dek)).stage = .drawn dek := by
    rw [stage_fillRandom, hst]
    rfl
  refine .demand (conforms_act (.inl ⟨cfg, id, secret, m, hcall, hdrawn, rfl, rfl⟩)) ?_
    fun _ _ => trivial
  rintro w q rfl
  have hwrapped : ((p.advance (.fillRandom dekSize) (some dek)).advance (.wrap cfg.current dek
      (bindingAAD recordVersion id.subject id.provider)) (some w)).stage = .wrapped dek w := by
    rw [stage_wrap, hdrawn]
    rfl
  refine .bindE (sealSecret_conforms hwrapped) ?_ fun _ _ _ => trivial
  rintro ⟨nonce, ct⟩ q ⟨hq, hqst, hopens⟩
  refine conforms_op trivial fun now => ?_
  refine .bindE (record_conforms (Q := fun r q' => r = .ok () → q' = q)
    (fun _ => rfl) nofun) ?_ fun _ _ _ => trivial
  rintro ⟨⟩ q' hq'
  obtain rfl := hq' rfl
  have hget : Allowed A q' (.get id) := by
    intro huses
    rw [hq, advance_call, advance_call, hcall] at huses
    cases huses
  refine conforms_op hget fun prev => ⟨?_, fun _ => trivial⟩
  refine ⟨cfg, id, m, dek, w, hq.trans hcall, ?_, rfl, by simpa using hvalid, rfl, rfl, rfl, ?_⟩
  · rw [stage_get, hqst]
    rfl
  · exact hopens nonce ct rfl

theorem hand_conforms (hst : p.stage = .opened rec (some dek)) (haud : p.audited = true) :
    Conforms A p (hand id (openSecret A dek rec.nonce rec.ciphertext rec.aad)) fun r q =>
      r.map Reply.secret = useReply A q.audited q.stage ∧ q.stage = .opened rec (some dek) := by
  cases hopen : openSecret A dek rec.nonce rec.ciphertext rec.aad with
  | error e =>
    refine refuse_conforms fun taken => ⟨?_, hst⟩
    simp [haud, hst, useReply, hopen, refused, Except.map]
  | ok plain =>
    refine .bindE (record_conforms (Q := fun r q => q.stage = p.stage ∧
      r = if q.audited then .ok () else .error [.audit]) ⟨rfl, by rw [haud]; rfl⟩ ⟨rfl, rfl⟩) ?_ ?_
    · rintro ⟨⟩ q ⟨hq, hr⟩
      refine ⟨?_, hq.trans hst⟩
      cases haudit : q.audited with
      | true => simp [Except.map, hq, hst, useReply, hopen]
      | false => simp [haudit] at hr
    · rintro es q ⟨hq, hr⟩
      refine ⟨?_, hq.trans hst⟩
      cases haudit : q.audited with
      | true => simp [haudit] at hr
      | false =>
        rw [haudit, if_neg Bool.false_ne_true] at hr
        cases hr
        simp [Except.map, hq, hst, useReply, hopen]

theorem use_conforms (hcall : p.call = .use cfg id) (hst : p.stage = .idle) (haud : p.audited = true) :
    Conforms A p (use A cfg id) fun r q => r.map Reply.secret = useReply A q.audited q.stage ∧
      ∀ rec, q.stage = .read (some rec) → cfg.keys.get rec.kekID = none := by
  unfold use
  split_ifs with hvalid
  · refine ⟨?_, ?_⟩
    · rw [hst]
      rfl
    · rw [hst]
      nofun
  refine conforms_op (fun _ => hst) fun found => ?_
  have hread : (p.advance (.get id) found).stage = .read found := by
    rw [stage_get, hst]
    rfl
  cases found with
  | none =>
    refine refuse_conforms fun taken => ⟨?_, ?_⟩
    · rw [hread]
      simp [Except.map, Phase.advance, haud, useReply, refused]
    · rw [hread]
      nofun
  | some rec =>
    dsimp only
    cases hkey : cfg.keys.get rec.kekID with
    | none =>
      refine refuse_conforms fun taken => ⟨?_, ?_⟩
      · rw [hread]
        simp [Except.map, Phase.advance, haud, useReply, refused]
      · rw [hread]
        rintro rec' h
        cases h
        exact hkey
    | some key =>
      refine conforms_op (.inl ⟨cfg, id, rec, hcall, hread, hkey, rfl, rfl⟩) fun dek => ?_
      have hopened : ((p.advance (.get id) (some rec)).advance
          (.unwrap key rec.wrappedDEK rec.aad) dek).stage = .opened rec dek := by
        rw [stage_unwrap, hread]
        rfl
      cases dek with
      | none =>
        refine refuse_conforms fun taken => ⟨?_, ?_⟩
        · rw [hopened]
          simp [Except.map, Phase.advance, haud, useReply, refused]
        · rw [hopened]
          nofun
      | some dek =>
        refine (hand_conforms hopened (by simpa [Phase.advance] using haud)).mono ?_
        rintro r q ⟨hr, hq⟩
        refine ⟨hr, ?_⟩
        rw [hq]
        nofun

/-! ## Rotating -/

/-- A rotation has judged what it has scanned, and stands before the rest of a page. -/
structure Scanning (cfg : Config) (pages : ℕ) (out : Rotation) (page : List Record)
    (more : Option Identity) (p : Phase) : Prop where
  call : p.call = .rotate cfg pages
  stage : p.stage = .paging page more
  balanced : out.Balanced
  skipped : p.skipped = out.skipped

theorem rewrap_conforms (hcall : p.call = .rotate cfg pages) (hst : p.stage = .rewrapping rec page more dek w)
    (hbal : out.scanned = out.rewrapped + out.alreadyCurrent + out.skipped + 1)
    (hskip : p.skipped = out.skipped) :
    Conforms A p (rewrap cfg out rec w) fun r q => ∀ out', r = .ok out' →
      Scanning cfg pages out' page more q := by
  refine conforms_op trivial fun now => ?_
  refine conforms_op ⟨cfg, pages, rec, page, more, dek, hcall, hst, rfl, rfl, rfl⟩ ?_
  rintro applied out' h
  have hswap : p.stage.swap = .paging page more := by
    rw [hst]
    rfl
  refine ⟨hcall, hswap, ?_, ?_⟩
  all_goals
    cases h
    cases applied
  · show out.scanned = out.rewrapped + out.alreadyCurrent + (out.skipped + 1)
    omega
  · show out.scanned = out.rewrapped + 1 + out.alreadyCurrent + out.skipped
    omega
  · exact congrArg (· + 1) hskip
  · exact hskip

theorem rotateRecord_conforms (h : Scanning cfg pages out (rec :: page) more p) :
    Conforms A p (rotateRecord cfg out rec) fun r q => ∀ out', r = .ok out' →
      Scanning cfg pages out' page more q := by
  obtain ⟨hcall, hst, hbal, hskip⟩ := h
  have hkeyID : p.call.keyID = cfg.current.keyID := by
    rw [hcall]
    rfl
  have hstage : ∀ key dek, (p.advance (.unwrap key rec.wrappedDEK rec.aad) dek).stage =
      .unwrap cfg.current.keyID dek (.paging (rec :: page) more) := by
    intro key dek
    rw [stage_unwrap, hst, hkeyID]
  unfold rotateRecord
  split_ifs with hkek
  · have hkey : cfg.keys.get rec.kekID = some cfg.current := hkek ▸ cfg.own
    refine conforms_op (.inr ⟨cfg, pages, rec, page, more, hcall, hst, hkey, rfl, rfl⟩) ?_
    rintro (_ | dek) out' h
    · cases h
    · cases h
      refine ⟨hcall, (hstage cfg.current (some dek)).trans (if_pos hkek), ?_, hskip⟩
      have hbal : out.scanned = out.rewrapped + out.alreadyCurrent + out.skipped := hbal
      show out.scanned + 1 = out.rewrapped + (out.alreadyCurrent + 1) + out.skipped
      omega
  · cases hkey : cfg.keys.get rec.kekID with
    | none => exact nofun
    | some old =>
      refine .demand (conforms_act
        (.inr ⟨cfg, pages, rec, page, more, hcall, hst, hkey, rfl, rfl⟩)) ?_ fun _ _ => nofun
      rintro dek q rfl
      have hunwrapped := (hstage old (some dek)).trans (if_neg hkek)
      refine .demand (conforms_act
        (.inr ⟨cfg, pages, rec, page, more, hcall, hunwrapped, rfl, rfl⟩)) ?_ fun _ _ => nofun
      rintro w q rfl
      have hrewrapping : ((p.advance (.unwrap old rec.wrappedDEK rec.aad) (some dek)).advance
          (.wrap cfg.current dek rec.aad) (some w)).stage = .rewrapping rec page more dek w := by
        rw [stage_wrap, hunwrapped]
        rfl
      exact rewrap_conforms hcall hrewrapping (congrArg (· + 1) hbal) hskip

theorem rotateRecords_conforms (h : Scanning cfg pages out page more p) :
    Conforms A p (rotateRecords cfg out page) fun r q => ∀ out', r = .ok out' →
      Scanning cfg pages out' [] more q := by
  induction page generalizing out p with
  | nil =>
    rintro out' hout
    cases hout
    exact h
  | cons rec page ih =>
    refine Prog.Follows.bindE (rotateRecord_conforms h) (fun out' q hq => ih (hq out' rfl)) ?_
    exact fun _ _ _ => nofun

/-- Before a page: none was read yet, or one that was full is done. -/
def Turning (afterSubject afterProvider : String) (st : Stage) : Prop :=
  st = .idle ∧ afterSubject = "" ∧ afterProvider = "" ∨
    ∃ last : Identity, st = .paging [] (some last) ∧ afterSubject = last.subject ∧
      afterProvider = last.provider

theorem rotatePages_conforms {afterSubject afterProvider : String}
    (hcall : p.call = .rotate cfg pages) (hbal : out.Balanced) (hskip : p.skipped = out.skipped)
    (hst : Turning afterSubject afterProvider p.stage) :
    Conforms A p (rotatePages cfg fuel out afterSubject afterProvider) fun r q => ∀ out', r = .ok out' →
      Scanning cfg pages out' [] none q := by
  induction fuel generalizing out p afterSubject afterProvider with
  | zero => exact nofun
  | succ fuel ih =>
    refine conforms_op ⟨rfl, by rw [hcall]; rfl, hst⟩ fun page => ?_
    cases hlast : page.getLast? with
    | none =>
      obtain rfl := List.getLast?_eq_none_iff.1 hlast
      rintro out' hout
      cases hout
      exact ⟨hcall, rfl, hbal, hskip⟩
    | some last =>
      refine .bindE (rotateRecords_conforms ⟨hcall, stage_listPage, hbal, hskip⟩) ?_ ?_
      · rintro out' q hq
        obtain ⟨hqcall, hqst, hqbal, hqskip⟩ := hq out' rfl
        by_cases hlen : page.length < rotatePageSize
        · rw [if_pos hlen] at hqst ⊢
          rintro out'' hout
          cases hout
          exact ⟨hqcall, hqst, hqbal, hqskip⟩
        · rw [if_neg hlen] at hqst ⊢
          refine ih hqcall hqbal hqskip (.inr ⟨last.identity, ?_, rfl, rfl⟩)
          rw [hqst, hlast]
          rfl
      · exact fun _ _ _ => nofun

theorem rotate_conforms (hcall : p.call = .rotate cfg pages) (hst : p.stage = .idle) (hskip : p.skipped = 0) :
    Conforms A p (rotate cfg fuel) fun r q => ∀ out, r = .ok out →
      out.Balanced ∧ q.stage = .paging [] none ∧ q.skipped = out.skipped := by
  refine .bindE (rotatePages_conforms hcall rfl hskip (.inl ⟨hst, rfl, rfl⟩)) ?_ ?_
  · rintro out q hq
    refine conforms_op trivial fun taken => ?_
    cases taken with
    | false => exact nofun
    | true =>
      rintro out' hout
      cases hout
      exact ⟨(hq out rfl).balanced, (hq out rfl).stage, (hq out rfl).skipped⟩
  · exact fun _ _ _ => nofun

/-! ## Every call -/

/-- **Every call keeps to the typestate**, and ends as its kind of call does. -/
theorem body_follows (c : Call) : ((vault A).body c).Follows (typestate A) (Phase.start c) (Finished A) := by
  have hcall : ∀ {Q : Except (List Error) Reply → Phase → Prop},
      Conforms A (.start c) (c.body A) Q →
      Conforms A (.start c) (c.body A) fun _ q => q.call = c := fun h =>
    h.unchanged (f := Phase.call) fun q op r => advance_call op r
  have hfinish : ∀ {Q : Except (List Error) Reply → Phase → Prop},
      Conforms A (.start c) (c.body A) Q → (∀ r q, q.call = c → Q r q → Finished A r q) →
      Conforms A (.start c) (c.body A) (Finished A) := fun h hQ =>
    (h.and (hcall h)).mono fun r q hq => hQ r q hq.2 hq.1
  show Conforms A (.start c) (c.body A) (Finished A)
  cases c with
  | enroll cfg id secret m =>
    refine hfinish (Q := fun _ _ => True) ((enroll_conforms rfl rfl).mapE fun _ _ _ => trivial) ?_
    rintro r q hq -
    simp [Finished, hq]
  | use cfg id =>
    refine hfinish ((use_conforms rfl rfl rfl).mapE
      (Q := fun r (q : Phase) => r = useReply A q.audited q.stage ∧
        ∀ rec, q.stage = .read (some rec) → cfg.keys.get rec.kekID = none) fun r q hq => hq) ?_
    rintro r q hq hr
    simpa [Finished, hq] using hr
  | revoke cfg id =>
    refine hfinish (Q := fun _ _ => True) (.mapE (R := fun _ _ => True) ?_
      fun _ _ _ => trivial) ?_
    · show Conforms A _ (revoke id) _
      unfold revoke
      split_ifs
      · trivial
      · exact conforms_op rfl fun _ => record_conforms trivial trivial
    · rintro r q hq -
      simp [Finished, hq]
  | «exists» cfg id =>
    refine hfinish (Q := fun _ _ => True) (.mapE (R := fun _ _ => True) ?_
      fun _ _ _ => trivial) ?_
    · show Conforms A _ («exists» id) _
      unfold «exists»
      split_ifs
      · trivial
      · exact conforms_op nofun fun _ => trivial
    · rintro r q hq -
      simp [Finished, hq]
  | rotate cfg pages =>
    refine hfinish ((rotate_conforms rfl rfl rfl).mapE
      (Q := fun r (q : Phase) => ∀ out, r = .ok (.rotation out) →
        out.Balanced ∧ q.stage = .paging [] none ∧ q.skipped = out.skipped) ?_) ?_
    · rintro (e | out) q hq out' hout
      · cases hout
      · cases hout
        exact hq out rfl
    · rintro r q hq hr
      simpa [Finished, hq] using hr
  | deleteSubject subject =>
    refine hfinish (Q := fun _ _ => True) (.mapE (R := fun _ _ => True) ?_
      fun _ _ _ => trivial) ?_
    · refine .bindE (conforms_act rfl) ?_ fun _ _ _ => trivial
      rintro (_ | n) q - <;> trivial
    · rintro r q hq -
      simp [Finished, hq]

end Re0Auth.Vault

import Re0Auth.Lifecycle.Deleter

/-!
# The protocol of an erasure

What one attempt does, whatever its ports answer, and what any number of failed attempts leave for the one
that succeeds.

* **`documented`**: the steps in their order;
* **`Cleared`**: the world between two steps; **`Erased`**, **`Stopped`**: the two ways an attempt ends;
* **`Alike`**: worlds an erasure makes the same;
* **`erasure_protocol`**: every attempt, and every sequence of attempts.
-/

namespace Re0Auth.Lifecycle

open Lib Prog List World

variable {cfg : Config} {actor subject : String} {w₀ w w' : World} {s : Store} {rows : List Row}
  {keys : List String} {pre : List Store}

/-! ## The documented order -/

/-- The order in which the stores are cleared. -/
def order : List Store := [.bindings, .vault, .tokens, .sessions, .flows, .oidc, .legacy, .account]

/-- The store is wired. -/
def wired (cfg : Config) : Store → Bool
  | .bindings => cfg.bindings
  | .sessions => cfg.sessions
  | .flows => cfg.flows
  | .oidc => cfg.oidc
  | .legacy => cfg.legacy
  | .vault | .tokens | .account => true

/-- **The documented steps**: the wired stores, the record, the pseudonym key. -/
def documented (cfg : Config) : List Step :=
  (order.filter (wired cfg)).map .clear ++ .record :: if cfg.pseudonyms then [.pseudonym] else []

/-- The error that names what a step was answered. -/
def cause : Step → Answer → Error
  | .pseudonym, .error text => .stillLinkable (.port text)
  | _, .error text => .port text
  | _, .left failed total => .bindingsLeft failed total
  | _, .ok => .subjectRequired

/-- The error of an attempt, from what stopped it and the answer to the failure record. -/
def reported (stop : Error) : Answer → Error
  | .error text => .join stop (.unrecorded (.port text))
  | _ => stop

/-! ## Worlds an erasure makes the same -/

/-- **Alike**: but for the account's rows in wired stores, and its key where it is destroyed, the worlds have
the same rows and keys. -/
structure Alike (cfg : Config) (subject : String) (w₀ w : World) : Prop where
  rows : ∀ s, clearOf subject (w.rows s) = clearOf subject (w₀.rows s)
  unwired : ∀ s, wired cfg s = false → w.rows s = w₀.rows s
  destroyed : Lifecycle.destroyed subject w.keys = Lifecycle.destroyed subject w₀.keys
  minted : cfg.pseudonyms = false → mint subject w.keys = mint subject w₀.keys

theorem Alike.refl (w : World) : Alike cfg subject w w := ⟨fun _ => rfl, fun _ _ => rfl, rfl, fun _ => rfl⟩

theorem Alike.trans (h : Alike cfg subject w₀ w) (h' : Alike cfg subject w w') : Alike cfg subject w₀ w' where
  rows s := (h'.rows s).trans (h.rows s)
  unwired s hs := (h'.unwired s hs).trans (h.unwired s hs)
  destroyed := h'.destroyed.trans h.destroyed
  minted hp := (h'.minted hp).trans (h.minted hp)

/-- Rows of the account are removed from a wired store. -/
theorem Alike.setRows {step : Step} {a : Answer} (h : Alike cfg subject w₀ w)
    (hs : wired cfg s = true) (hrows : clearOf subject rows = clearOf subject (w.rows s)) :
    Alike cfg subject w₀ ((w.setRows s rows).called step a) := by
  refine h.trans ⟨fun x => ?_, fun x hx => ?_, rfl, fun _ => rfl⟩
  · by_cases hxs : x = s
    · subst hxs
      simpa [World.setRows, World.called] using hrows
    · simp [World.setRows, World.called, hxs]
  · have hxs : x ≠ s := by
      rintro rfl
      rw [hs] at hx
      cases hx
    simp [World.setRows, World.called, hxs]

theorem destroyed_mint : destroyed subject (mint subject keys) = destroyed subject keys := by
  rw [mint]
  split_ifs
  · rfl
  · simp [destroyed]

theorem destroyed_destroyed : destroyed subject (destroyed subject keys) = destroyed subject keys := by
  simp [destroyed]

theorem mint_mint : mint subject (mint subject keys) = mint subject keys := by
  have hmem : subject ∈ mint subject keys := by
    rw [mint]
    split_ifs with hin
    · exact hin
    · simp
  rw [mint, if_pos hmem]

theorem clearOf_clearOf : clearOf subject (clearOf subject rows) = clearOf subject rows := by
  simp [clearOf]

/-- What only drops rows of the account is not seen after the account was cleared. -/
theorem clearOf_filter {p : Row → Bool} (hp : ∀ r, r.subject ≠ subject → p r = true) :
    clearOf subject (rows.filter p) = clearOf subject rows := by
  rw [clearOf, filter_filter]
  refine filter_congr fun r _ => ?_
  by_cases hr : r.subject = subject
  · simp [hr]
  · simp [hr, hp r hr]

/-! ## The two ways an attempt ends -/

/-- **Cleared**: the world after the first stores of the order. -/
structure Cleared (cfg : Config) (subject : String) (w₀ : World) (pre : List Store) (w : World) : Prop where
  calls : w.calls = w₀.calls ++ (pre.filter (wired cfg)).map fun s => (.clear s, .ok)
  rows : ∀ s, w.rows s = if s ∈ pre ∧ wired cfg s = true then clearOf subject (w₀.rows s) else w₀.rows s
  keys : w.keys = w₀.keys
  log : w.log = w₀.log

/-- **Stopped**: the attempt came to a step of the documented order that failed, and called no port after it
but for the failure record. The error names what the step was answered, and the failure of the record. -/
def Stopped (cfg : Config) (subject : String) (w₀ : World) (e : Error) (w : World) : Prop :=
  Alike cfg subject w₀ w ∧ ∃ before step after a, documented cfg = before ++ step :: after ∧ a ≠ .ok ∧
    if step = .record then
      w.calls = w₀.calls ++ before.map (·, .ok) ++ [(step, a)] ∧ e = cause step a
    else ∃ f, w.calls = w₀.calls ++ before.map (·, .ok) ++ [(step, a), (.failure, f)] ∧
      e = reported (cause step a) f

/-- **Erased**: every documented step succeeded. The wired stores hold nothing of the account, the log has
one more event, and the account has no key where keys are destroyed. -/
structure Erased (cfg : Config) (actor subject : String) (w₀ : World) (res : Result) (w : World) : Prop where
  calls : w.calls = w₀.calls ++ (documented cfg).map (·, .ok)
  rows : ∀ s, w.rows s = if wired cfg s = true then clearOf subject (w₀.rows s) else w₀.rows s
  log : ∃ r, w.log = w₀.log ++ [deletion cfg actor subject "ok" r ""] ∧
    res = { r with pseudonymDestroyed := cfg.pseudonyms }
  keys : w.keys = if cfg.pseudonyms then destroyed subject w₀.keys else mint subject w₀.keys

theorem Cleared.alike (h : Cleared cfg subject w₀ pre w) : Alike cfg subject w₀ w := by
  refine ⟨fun s => ?_, fun s hs => ?_, by rw [h.keys], fun _ => by rw [h.keys]⟩
  · rw [h.rows]
    split_ifs
    · exact clearOf_clearOf
    · rfl
  · rw [h.rows, if_neg fun hmem => by simp [hs] at hmem]

/-- A step that is not wired. -/
theorem Cleared.skip (h : Cleared cfg subject w₀ pre w)
    (hs : wired cfg s = false) : Cleared cfg subject w₀ (pre ++ [s]) w := by
  refine ⟨by simp [h.calls, hs], fun x => ?_, h.keys, h.log⟩
  have hiff : x ∈ pre ++ [s] ∧ wired cfg x = true ↔ x ∈ pre ∧ wired cfg x = true := by grind
  rw [h.rows, if_congr hiff rfl rfl]

/-- A store is cleared. -/
theorem Cleared.next (h : Cleared cfg subject w₀ pre w)
    (hs : wired cfg s = true) : Cleared cfg subject w₀ (pre ++ [s])
      ((w.setRows s (clearOf subject (w.rows s))).called (.clear s) .ok) := by
  refine ⟨by simp [called, setRows, h.calls, hs], fun x => ?_, h.keys, h.log⟩
  by_cases hxs : x = s
  · subst hxs
    simp only [called, setRows, Function.update_self, h.rows]
    split_ifs with hmem hnew
    · exact clearOf_clearOf
    · simp [hs] at hnew
    · rfl
    · simp [hs] at *
  · have hiff : x ∈ pre ++ [s] ∧ wired cfg x = true ↔ x ∈ pre ∧ wired cfg x = true := by grind
    simp only [called, setRows, Function.update_of_ne hxs, h.rows]
    rw [if_congr hiff rfl rfl]

/-! ## Steps -/

section Steps

variable {pre post : List Store} {s : Store} {res : Result} {step : String} {stop : Error}
  {α : Type} {Q : α → World → Prop} {E : Result × Error → World → Prop} {a : Answer}
  {rows : List Row}

theorem wpE_act {op : Op} {f : op.Res → Del α} :
    wpE (act op >>= f) Q E w ↔ ∀ ω r w', exec op ω w = some (r, w') → wpE (f r) Q E w' := by
  rw [wpE_bind, act, wpE_lift, wp_call]

/-- The failure record is written, or it is not; the rows stay. -/
theorem wpE_fail (h : ∀ f w', w'.rows = w.rows → w'.keys = w.keys ∨ w'.keys = mint subject w.keys →
      w'.calls = w.calls ++ [(.failure, f)] → E (res, reported stop f) w') :
    wpE (fail cfg actor subject step stop res : Del α) Q E w := by
  refine wpE_act.2 fun ω r w' hex => ?_
  have hstep : (deletion cfg actor subject "error" res step).step = .failure :=
    if_neg (show ¬ "error" = "ok" by decide)
  cases ω with
  | failed text removed =>
    cases hex
    exact h (.error text) _ rfl (.inl rfl) (by simp [called, hstep])
  | lost text =>
    cases hex
    exact h (.error text) _ rfl (.inr rfl) (by simp [called, recorded, hstep])
  | done | swept =>
    cases hex
    exact h .ok _ rfl (.inr rfl) (by simp [called, recorded, hstep])

/-- A failing step ends the attempt. -/
theorem Stopped.of_fail {before after : List Step} {st : Step}
    (hdoc : documented cfg = before ++ st :: after) (hst : st ≠ .record) (ha : a ≠ .ok)
    (halike : Alike cfg subject w₀ w) (hcalls : w.calls = w₀.calls ++ before.map (·, .ok) ++ [(st, a)]) :
    wpE (fail cfg actor subject step (cause st a) res : Del α) Q
      (fun x => Stopped cfg subject w₀ x.2) w := by
  refine wpE_fail fun f w' hrows hkeys hcalls' => ⟨halike.trans ⟨fun s => by rw [hrows],
    fun s _ => by rw [hrows], ?_, fun _ => ?_⟩, before, st, after, a, hdoc, ha, ?_⟩
  · rcases hkeys with hkeys | hkeys <;> rw [hkeys]
    exact destroyed_mint
  · rcases hkeys with hkeys | hkeys <;> rw [hkeys]
    exact mint_mint
  · rw [if_neg hst]
    exact ⟨f, by simp [hcalls', hcalls], rfl⟩

theorem documented_clear (horder : order = pre ++ s :: post) (hs : wired cfg s = true) :
    ∃ after, documented cfg = (pre.filter (wired cfg)).map .clear ++ .clear s :: after :=
  ⟨_, by simp only [documented, horder, filter_append, filter_cons_of_pos hs, map_append,
    map_cons, append_assoc, cons_append]; rfl⟩

/-- A store fails to be cleared. -/
theorem Cleared.stops (h : Cleared cfg subject w₀ pre w)
    (horder : order = pre ++ s :: post) (hs : wired cfg s = true) (ha : a ≠ .ok)
    (hrows : clearOf subject rows = clearOf subject (w.rows s)) :
    wpE (fail cfg actor subject step (cause (.clear s) a) res : Del α) Q
      (fun x => Stopped cfg subject w₀ x.2) ((w.setRows s rows).called (.clear s) a) := by
  obtain ⟨after, hdoc⟩ := documented_clear horder hs
  refine Stopped.of_fail hdoc (by simp) ha (h.alike.setRows hs hrows) ?_
  simp [called, setRows, h.calls]

/-- **Stage**: a step of the erasure clears its store, or stops the attempt. -/
def Stage (cfg : Config) (subject : String) (w₀ : World) (pre : List Store) (s : Store)
    (m : Result → Del Result) : Prop :=
  ∀ res w, Cleared cfg subject w₀ pre w →
    wpE (m res) (fun _ => Cleared cfg subject w₀ (pre ++ [s])) (fun x => Stopped cfg subject w₀ x.2) w

theorem stage_clearing {name : String} {note : ℤ → Result → Result} (horder : order = pre ++ s :: post)
    (hs : wired cfg s = true) : Stage cfg subject w₀ pre s (clearing cfg actor subject s name note) := by
  intro res w h
  refine wpE_act.2 fun ω r w' hex => ?_
  cases ω with
  | failed text removed =>
    cases hex
    refine h.stops (a := .error text) horder hs nofun (clearOf_filter fun r hr => ?_)
    simp [hr]
  | lost text =>
    cases hex
    exact h.stops (a := .error text) horder hs nofun clearOf_clearOf
  | done | swept =>
    cases hex
    exact h.next hs

/-- The rows a sweep without failures leaves are those of the other accounts. -/
theorem clearOf_of_countOf (h : countOf subject rows = 0) : rows = clearOf subject rows := by
  rw [countOf, Int.natCast_eq_zero, length_eq_zero_iff, filter_eq_nil_iff] at h
  exact (filter_eq_self.2 fun r hr => by simpa using h r hr).symm

theorem stage_revoking (hs : cfg.bindings = true) :
    Stage cfg subject w₀ [] .bindings (revoking cfg actor subject) := by
  intro res w h
  have horder : order = [] ++ .bindings :: order.tail := rfl
  refine wpE_act.2 fun ω r w' hex => ?_
  cases ω with
  | failed text removed =>
    cases hex
    refine h.stops (a := .error text) horder hs nofun (clearOf_filter fun r hr => ?_)
    simp [hr]
  | lost text =>
    cases hex
    exact h.stops (a := .error text) horder hs nofun clearOf_clearOf
  | swept left =>
    obtain ⟨rest, hrest⟩ : ∃ rest, rest = (w.rows .bindings).filter fun r =>
      ¬ (r.subject = subject ∧ r.id ∉ left) := ⟨_, rfl⟩
    have hsame : clearOf subject rest = clearOf subject (w.rows .bindings) := by
      rw [hrest]
      exact clearOf_filter fun r hr => by simp [hr]
    simp only [exec, ← hrest] at hex
    cases hex
    dsimp only
    split_ifs with hleft hzero hzero
    · omega
    · exact h.stops (a := .left _ _) horder hs nofun hsame
    · -- nothing of the account is left
      rw [clearOf_of_countOf hzero, hsame]
      exact h.next hs
    · have hnonneg : 0 ≤ countOf subject rest := Int.natCast_nonneg _
      omega
  | done =>
    cases hex
    exact h.next hs

theorem stage_whenWired {m : Result → Del Result} (hm : wired cfg s = true → Stage cfg subject w₀ pre s m) :
    Stage cfg subject w₀ pre s (whenWired (wired cfg s) m) := by
  intro res w h
  rw [whenWired]
  split_ifs with hs
  · exact hm hs res w h
  · exact h.skip (Bool.not_eq_true _ ▸ hs)

/-- **Recorded**: the stores are clear, and the log says so. -/
structure Recorded (cfg : Config) (actor subject : String) (w₀ : World) (res : Result) (w : World) : Prop where
  calls : w.calls = w₀.calls ++ ((order.filter (wired cfg)).map Step.clear ++ [Step.record]).map (·, .ok)
  rows : ∀ s, w.rows s = if wired cfg s = true then clearOf subject (w₀.rows s) else w₀.rows s
  log : w.log = w₀.log ++ [deletion cfg actor subject "ok" res ""]
  keys : w.keys = mint subject w₀.keys

theorem mem_order (s : Store) : s ∈ order := by cases s <;> decide

theorem recording_spec (h : Cleared cfg subject w₀ order w) : wpE (recording cfg actor subject res)
      (fun r w' => r = res ∧ Recorded cfg actor subject w₀ res w')
      (fun x => Stopped cfg subject w₀ x.2) w := by
  refine wpE_act.2 fun ω r w' hex => ?_
  have hstep : (deletion cfg actor subject "ok" res "").step = .record := if_pos rfl
  have hcalls : w.calls = w₀.calls ++ ((order.filter (wired cfg)).map Step.clear).map (·, .ok) := by
    rw [h.calls, map_map]
    rfl
  have hstop : ∀ {text w'}, Alike cfg subject w w' →
      w'.calls = w.calls ++ [(.record, .error text)] → Stopped cfg subject w₀ (.port text) w' := by
    intro text w' halike hw'
    refine ⟨h.alike.trans halike, _, .record, _, .error text, rfl, nofun, ?_⟩
    rw [if_pos rfl, hw', hcalls]
    exact ⟨rfl, rfl⟩
  cases ω with
  | failed text removed =>
    cases hex
    exact hstop ⟨fun _ => rfl, fun _ _ => rfl, rfl, fun _ => rfl⟩ (by rw [called, hstep])
  | lost text =>
    cases hex
    exact hstop ⟨fun _ => rfl, fun _ _ => rfl, destroyed_mint, fun _ => mint_mint⟩
      (by rw [called, hstep]; rfl)
  | done | swept =>
    cases hex
    refine ⟨rfl, ?_, fun s => ?_, by simp [called, recorded, h.log],
      by simp [called, recorded, h.keys, deletion]⟩
    · simp [called, recorded, hcalls, hstep]
    · simp [called, recorded, h.rows, mem_order]

theorem destroying_spec (hp : cfg.pseudonyms = true) (h : Recorded cfg actor subject w₀ res w) :
    wpE (destroying cfg actor subject res) (Erased cfg actor subject w₀)
      (fun x => Stopped cfg subject w₀ x.2) w := by
  refine wpE_act.2 fun ω r w' hex => ?_
  have hdoc : documented cfg = (order.filter (wired cfg)).map .clear ++ [.record] ++ .pseudonym :: [] := by
    simp [documented, hp]
  have halike : ∀ {w'}, w'.rows = w.rows → destroyed subject w'.keys = destroyed subject w₀.keys →
      Alike cfg subject w₀ w' := by
    intro w' hrows hkeys
    refine ⟨fun s => ?_, fun s hs => ?_, hkeys, fun hno => ?_⟩
    · rw [hrows, h.rows]
      split_ifs
      · exact clearOf_clearOf
      · rfl
    · rw [hrows, h.rows, if_neg (by simp [hs])]
    · rw [hp] at hno
      cases hno
  cases ω with
  | failed text removed =>
    cases hex
    refine Stopped.of_fail (a := .error text) hdoc nofun nofun (halike rfl ?_) ?_
    · exact (congrArg _ h.keys).trans destroyed_mint
    · rw [called, h.calls]
  | lost text =>
    cases hex
    refine Stopped.of_fail (a := .error text) hdoc nofun nofun (halike rfl ?_) ?_
    · exact destroyed_destroyed.trans ((congrArg _ h.keys).trans destroyed_mint)
    · rw [called, h.calls]
  | done | swept =>
    cases hex
    refine ⟨?_, h.rows, ⟨res, h.log, by rw [hp]⟩, ?_⟩
    · rw [called, h.calls, hdoc]
      simp
    · rw [if_pos hp]
      exact (congrArg _ h.keys).trans destroyed_mint

/-- **One attempt** erases the account or stops. -/
theorem deleteAccount_spec (hsubject : subject ≠ "") :
    wpE (deleteAccount cfg actor subject) (Erased cfg actor subject w₀)
      (fun x => Stopped cfg subject w₀ x.2) w₀ := by
  have hstart : Cleared cfg subject w₀ [] w₀ := ⟨by simp, fun s => by simp, rfl, rfl⟩
  rw [deleteAccount, if_neg hsubject]
  refine wpE_seq (stage_whenWired (s := .bindings) stage_revoking _ _ hstart) (fun _ _ h => ?_) fun _ _ => id
  refine wpE_seq (stage_clearing (s := .vault) rfl rfl _ _ h) (fun _ _ h => ?_) fun _ _ => id
  refine wpE_seq (stage_clearing (s := .tokens) rfl rfl _ _ h) (fun _ _ h => ?_) fun _ _ => id
  refine wpE_seq (stage_whenWired (s := .sessions) (stage_clearing rfl) _ _ h) (fun _ _ h => ?_) fun _ _ => id
  refine wpE_seq (stage_whenWired (s := .flows) (stage_clearing rfl) _ _ h) (fun _ _ h => ?_) fun _ _ => id
  refine wpE_seq (stage_whenWired (s := .oidc) (stage_clearing rfl) _ _ h) (fun _ _ h => ?_) fun _ _ => id
  refine wpE_seq (stage_whenWired (s := .legacy) (stage_clearing rfl) _ _ h) (fun _ _ h => ?_) fun _ _ => id
  refine wpE_seq (stage_clearing (s := .account) rfl rfl _ _ h) (fun res _ h => ?_) fun _ _ => id
  refine wpE_seq (recording_spec h) ?_ fun _ _ => id
  rintro _ w ⟨rfl, h⟩
  rw [whenWired]
  split_ifs with hp
  · exact destroying_spec hp h
  · refine ⟨by simp [h.calls, documented, hp], h.rows, ⟨_, h.log, by simp [hp]⟩, ?_⟩
    rw [h.keys, if_neg hp]

end Steps

/-! ## Attempts -/

/-- **What an attempt comes to**: it erases the account, is refused because it names none, or stops. -/
def Outcome (cfg : Config) (actor subject : String) (w₀ : World) : Except (Result × Error) Result → World → Prop
  | .ok res, w => Erased cfg actor subject w₀ res w
  | .error (_, e), w => (subject = "" ∧ e = .subjectRequired ∧ w = w₀) ∨ Stopped cfg subject w₀ e w

/-- One attempt, with the answers of its ports. -/
def attempt (cfg : Config) (actor subject : String) (ω : ℕ → Choice) (w : World) :
    Option (Except (Result × Error) Result × World) :=
  (deleteAccount cfg actor subject).run.perform ω w

/-- An attempt fails. -/
def Fails (cfg : Config) (actor subject : String) (w w' : World) : Prop :=
  ∃ ω x, attempt cfg actor subject ω w = some (.error x, w')

theorem exec_total (op : Op) (ω : Choice) (w : World) : ∃ x, exec op ω w = some x := by
  cases op <;> cases ω <;> exact ⟨_, rfl⟩

theorem attempt_outcome {ω : ℕ → Choice} {r : Except (Result × Error) Result}
    (h : attempt cfg actor subject ω w₀ = some (r, w)) : Outcome cfg actor subject w₀ r w := by
  refine wp_perform (Q := Outcome cfg actor subject w₀) ?_ h
  by_cases hsubject : subject = ""
  · rw [deleteAccount, if_pos hsubject]
    exact .inl ⟨hsubject, rfl, rfl⟩
  · refine wpE_iff.1 (wpE_mono (deleteAccount_spec hsubject) (fun _ _ h => h) ?_)
    exact fun _ _ h => .inr h

theorem Fails.alike (h : Fails cfg actor subject w w') : Alike cfg subject w w' := by
  obtain ⟨ω, ⟨res, e⟩, hperform⟩ := h
  obtain ⟨-, -, rfl⟩ | hstopped := attempt_outcome hperform
  · exact .refl _
  · exact hstopped.1

/-- Failed attempts leave a world that is like the first. -/
theorem alike_of_fails (h : Relation.ReflTransGen (Fails cfg actor subject) w₀ w) :
    Alike cfg subject w₀ w := by
  induction h with
  | refl => exact .refl _
  | tail _ hfails ih => exact ih.trans hfails.alike

/-- Worlds that are alike are erased to the same rows and keys. -/
theorem Alike.erased {res res₁ : Result} {w₁ : World} (h : Alike cfg subject w₀ w)
    (hw : Erased cfg actor subject w res w') (hw₀ : Erased cfg actor subject w₀ res₁ w₁) :
    w'.rows = w₁.rows ∧ w'.keys = w₁.keys := by
  constructor
  · funext s
    rw [hw.rows, hw₀.rows, h.rows]
    split_ifs with hs
    · rfl
    · exact h.unwired s (Bool.not_eq_true _ ▸ hs)
  · rw [hw.keys, hw₀.keys, h.destroyed]
    split_ifs with hp
    · rfl
    · exact h.minted (Bool.not_eq_true _ ▸ hp)

/-- **The erasure protocol.** Whatever the ports answer, an attempt ends, and it ends as `Outcome` says. Failed
attempts, however many, and the one that succeeds after them leave the rows and keys that one successful
attempt leaves. -/
theorem erasure_protocol (cfg : Config) (actor subject : String) (w₀ : World) :
    (∀ ω, ∃ r w, attempt cfg actor subject ω w₀ = some (r, w) ∧ Outcome cfg actor subject w₀ r w) ∧
      ∀ w, Relation.ReflTransGen (Fails cfg actor subject) w₀ w → ∀ ω ω₁ res res₁ w' w₁,
        attempt cfg actor subject ω w = some (.ok res, w') →
        attempt cfg actor subject ω₁ w₀ = some (.ok res₁, w₁) →
        w'.rows = w₁.rows ∧ w'.keys = w₁.keys := by
  constructor
  · intro ω
    obtain ⟨r, w, hperform⟩ := exists_perform exec_total (deleteAccount cfg actor subject).run ω w₀
    exact ⟨r, w, hperform, attempt_outcome hperform⟩
  · intro w hfails ω ω₁ res res₁ w' w₁ hw hw₁
    exact (alike_of_fails hfails).erased (attempt_outcome hw) (attempt_outcome hw₁)

end Re0Auth.Lifecycle

import Re0Auth.DataPlane.Service

/-!
# The authorization gate of a resource

The gate asks for scopes before the source is chosen, and the read falls back from one candidate to the
next. What a read returns is traced back to the request it made last, and so to a source the gate has asked
about.

* **`Trace`**, **`tracing`**: the last request of a call and its answer, as a typestate;
* **`data_gate`**: what a handler serves comes from a source whose scope the token holds.
-/

namespace Re0Auth.DataPlane

open Lib OAuth Federation

variable {cfg : Config} {α β : Type}

/-- **Trace** of a call: the source that was asked last, what for, the status it answered with, and the
body that was read. -/
structure Trace where
  call : Call
  asked : Option (DataSource × Target × ℕ)
  body : Option Body

/-- The trace after an operation. -/
def Trace.advance (t : Trace) : (op : Op) → op.Res → Trace
  | .send src target _, .ok resp => { t with asked := some (src, target, resp.status), body := none }
  | .send _ _ _, .error _ => { t with asked := none, body := none }
  | .readAll, .ok body => { t with body := some body }
  | _, _ => t

/-- The typestate of traces; it forbids nothing. -/
abbrev tracing (cfg : Config) : Typestate (dataPlane cfg) where
  Phase := Trace
  start c := ⟨c, none, none⟩
  allowed _ _ := True
  advance := Trace.advance

/-- Where the method succeeds, its value and the trace are as `P` says. -/
def Ends (cfg : Config) (t : Trace) (m : Read α) (P : α → Trace → Prop) : Prop :=
  m.run.Follows (tracing cfg) t fun r q => q.call = t.call ∧ ∀ a, r = .ok a → P a q

variable {t : Trace} {m : Read α} {f : α → Read β} {P R : α → Trace → Prop} {Q : β → Trace → Prop}
  {caller : String} {resp : Response} {src : DataSource} {σ τ : Pool (dataPlane cfg) (tracing cfg)}
  {i : ℕ} {th : Thread (dataPlane cfg) (tracing cfg)} {info : TokenInfo}
  {game resource pinned : String} {s : Served}

theorem Ends.bind (hm : Ends cfg t m R) (hf : ∀ a q, q.call = t.call → R a q → Ends cfg q (f a) Q) :
    Ends cfg t (m >>= f) Q := by
  refine Prog.Follows.bindE hm ?_ ?_
  · rintro a q ⟨hq, hR⟩
    refine (hf a q hq (hR a rfl)).mono ?_
    rintro r q' ⟨hq', hQ⟩
    exact ⟨hq'.trans hq, hQ⟩
  · rintro e q ⟨hq, -⟩
    exact ⟨hq, nofun⟩

theorem ends_return {a : α} (h : P a t) : Ends cfg t (pure a) P := by
  refine ⟨rfl, fun b hb => ?_⟩
  cases hb
  exact h

theorem ends_throw {e : ReadError} : Ends cfg t (throw e : Read α) P := ⟨rfl, nofun⟩

theorem Ends.attempt (hm : Ends cfg t m P) : Ends cfg t (attempt m) fun r q => ∀ a, r = .ok a → P a q := by
  refine Prog.follows_lift.2 (Prog.Follows.mono hm ?_)
  rintro r q ⟨hq, hP⟩
  refine ⟨hq, fun x hx => ?_⟩
  cases hx
  exact hP

theorem Ends.mono (hm : Ends cfg t m R) (h : ∀ a q, R a q → P a q) : Ends cfg t m P := by
  refine Prog.Follows.mono hm ?_
  rintro r q ⟨hq, hR⟩
  exact ⟨hq, fun a ha => h a q (hR a ha)⟩

/-- The trace follows any method. -/
theorem ends_any (m : Read α) : Ends cfg t m fun _ _ => True := by
  have hany : ∀ {γ : Type} (p : Prog machine γ) (t : Trace),
      p.Follows (tracing cfg) t fun _ q => q.call = t.call := by
    intro γ p
    induction p with
    | ret a => exact fun t => rfl
    | act op k ih =>
      refine fun t => ⟨trivial, fun r => (ih r (t.advance op r)).mono fun a q hq => hq.trans ?_⟩
      cases op <;> first | rfl | (cases r <;> rfl)
  exact (hany m.run t).mono fun r q hq => ⟨hq, fun _ _ => trivial⟩

/-- An operation that asks no source. -/
theorem ends_act (op : Op) (hsame : ∀ r, t.advance op r = t) : Ends cfg t (act op) fun _ q => q = t := by
  refine Prog.follows_lift.2 ⟨trivial, fun r => ?_⟩
  have heq : (tracing cfg).advance t op r = t := hsame r
  rw [heq]
  exact ⟨rfl, fun _ _ => rfl⟩

/-- A reservation does not change the trace of what it is held for. -/
theorem ends_reserving (hm : Ends cfg t m P) : Ends cfg t (reserving caller resp m) fun x q => P x.1 q := by
  refine (ends_act (.acquire caller _) fun _ => rfl).bind ?_
  rintro reserved q - rfl
  cases reserved with
  | none => exact ends_throw
  | some id =>
    refine hm.attempt.bind fun r q _ hr => ?_
    cases r with
    | ok a => exact ends_return (hr a rfl)
    | error e => exact (ends_any _).bind fun _ _ _ _ => ends_throw

/-! ## Reads -/

/-- The body was read from an answer with status 200 of the source to a request for the resource. -/
def Answered (src : DataSource) (resource : String) (body : Body) (t : Trace) : Prop :=
  t.asked = some (src, .resource resource, 200) ∧ t.body = some body

theorem ends_readResource {resource : String} (ht : t.asked = some (src, .resource resource, resp.status)) :
    Ends cfg t (readResource cfg src resp) (Answered src resource) := by
  have hbody : Ends cfg t readBody fun body q => q = { t with body := some body } := by
    refine Ends.bind (m := call (ask .readAll)) (R := fun body q => q = { t with body := some body }) ?_ ?_
    · refine ⟨trivial, fun r => ?_⟩
      cases r with
      | ok body => exact ⟨rfl, fun a ha => by cases ha; rfl⟩
      | error e => exact ⟨rfl, nofun⟩
    · rintro body q - rfl
      split_ifs
      · exact ends_throw
      · exact ends_return rfl
  refine hbody.bind ?_
  rintro body q - rfl
  by_cases hstatus : resp.status = 200
  · rw [if_neg (not_not.2 hstatus)]
    split_ifs
    · exact ends_throw
    · exact ends_return ⟨by rw [← hstatus, ← ht], rfl⟩
  · rw [if_pos hstatus]
    exact ends_throw

theorem ends_fetchResource {resource token : String} :
    Ends cfg t (fetchResource cfg src resource token caller) fun x q => Answered src resource x.1 q := by
  have hsend : Ends cfg t (call (ask (.send src (.resource resource) token))) fun resp q =>
      q.asked = some (src, .resource resource, resp.status) := by
    refine ⟨trivial, fun r => ?_⟩
    cases r with
    | ok resp => exact ⟨rfl, fun a ha => by cases ha; rfl⟩
    | error e => exact ⟨rfl, nofun⟩
  exact hsend.bind fun resp q _ hq => ends_reserving (ends_readResource hq)

section Callback

variable {fn : String → Read α} {process : ℕ}

theorem ends_withAccessToken {b : Binding} (hfn : ∀ t token, Ends cfg t (fn token) P) :
    Ends cfg t (withAccessToken b fn) P :=
  (ends_any _).bind fun _ q _ _ => hfn q _

theorem ends_callWithRefresh {src : Source} {binding : Binding}
    (hfn : ∀ t token, Ends cfg t (fn token) P) : Ends cfg t (callWithRefresh process src binding fn) P := by
  refine (ends_any _).bind fun binding q _ _ => ?_
  refine (ends_withAccessToken hfn).attempt.bind fun r q _ hr => ?_
  cases r with
  | ok a => exact ends_return (hr a rfl)
  | error e =>
    dsimp only
    split_ifs
    · exact ends_throw
    · exact (ends_any _).bind fun _ _ _ _ => ends_withAccessToken hfn

theorem ends_readBound {src : DataSource} {k : Ref}
    (hfn : ∀ t token, Ends cfg t (fn token) P) : Ends cfg t (readBound process src k fn) P := by
  refine (ends_any _).bind fun bound q _ _ => ?_
  cases bound with
  | error e =>
    dsimp only
    split_ifs <;> exact ends_throw
  | ok binding =>
    refine (ends_any _).bind fun cooling q _ _ => ?_
    split_ifs
    · exact ends_throw
    · refine (ends_callWithRefresh hfn).attempt.bind fun r q _ hr => ?_
      cases r with
      | ok a =>
        refine (ends_act (.noteOutcome _ _) fun _ => rfl).bind ?_
        rintro _ q - rfl
        exact ends_return (hr a rfl)
      | error e => exact (ends_any _).bind fun _ _ _ _ => ends_throw

end Callback

/-- **A read answers from a candidate.** -/
theorem ends_fetch {req : FetchRequest} : Ends cfg t (fetch cfg req) fun result q =>
    ∃ srcs src, cfg.registry.candidates req.game req.resource req.source = .ok srcs ∧ src ∈ srcs ∧
      result.source = src.name ∧ Answered src req.resource result.data q := by
  have htry : ∀ t src, Ends cfg t (trySource cfg src req) fun result q =>
      result.source = src.name ∧ Answered src req.resource result.data q := fun t src =>
    (ends_readBound fun _ _ => ends_fetchResource).bind fun x q _ hx => ends_return ⟨rfl, hx⟩
  -- over the candidates that are left
  have hall : ∀ srcs t i tried, Ends cfg t (tryAll cfg req i tried srcs) fun result q =>
      ∃ src ∈ srcs, result.source = src.name ∧ Answered src req.resource result.data q := by
    intro srcs
    induction srcs with
    | nil => exact fun t i tried => ends_throw
    | cons src rest ih =>
      intro t i tried
      refine (htry t src).attempt.bind fun r q _ hr => ?_
      cases r with
      | ok result => exact ends_return ⟨src, List.mem_cons_self, hr result rfl⟩
      | error e =>
        refine (ih q (i + 1) (tried.note e)).mono ?_
        rintro result q' ⟨src', hsrc', hresult⟩
        exact ⟨src', List.mem_cons_of_mem _ hsrc', hresult⟩
  unfold fetch
  cases cfg.registry.candidates req.game req.resource req.source with
  | error e => exact ends_throw
  | ok srcs =>
    refine (hall srcs t 0 _).mono ?_
    rintro result q ⟨src, hsrc, hresult⟩
    exact ⟨srcs, src, rfl, hsrc, hresult⟩

/-- What the gate lets through asks only for scopes the token holds. -/
theorem scope_of_gate {scopes : List Scope} {game resource pinned : String} {srcs : List DataSource}
    (hgate : gate cfg scopes game resource pinned = .ok ())
    (hcand : cfg.registry.candidates game resource pinned = .ok srcs) (hsrc : src ∈ srcs) :
    ∃ res, src.resource resource = some res ∧ res.scope ∈ scopes := by
  obtain ⟨-, res, hres⟩ := Registry.of_mem_candidates hcand hsrc
  refine ⟨res, hres, ?_⟩
  rw [gate] at hgate
  split at hgate
  · cases hgate
  · rename_i requirements hreq
    split at hgate
    · cases hgate
    · rename_i hnone
      obtain ⟨q, hq, hscope⟩ := Registry.resourceRequirements_scope hreq hcand hsrc hres
      have hheld := List.find?_eq_none.1 hnone q hq
      rw [← hscope]
      simpa using hheld

/-! ## The handler -/

/-- What a handler of a resource serves. -/
def Gated (r : Except ReadError Reply) (t : Trace) : Prop :=
  ∀ info game resource pinned s, t.call = .gameResource info game resource pinned → r = .ok (.served s) →
    ∃ src res, Answered src resource s.body t ∧ s.source = src.name ∧ src.resource resource = some res ∧
      res.scope ∈ info.scopes

theorem body_gated (cfg : Config) (c : Call) :
    (c.body cfg).run.Follows (tracing cfg) ⟨c, none, none⟩ Gated := by
  have hother : (∀ info game resource pinned, c ≠ .gameResource info game resource pinned) →
      (c.body cfg).run.Follows (tracing cfg) ⟨c, none, none⟩ Gated := by
    intro hc
    refine Prog.Follows.mono (ends_any (c.body cfg)) ?_
    rintro r q ⟨hq, -⟩ info game resource pinned s hcall
    exact absurd (hq.symm.trans hcall) (hc info game resource pinned)
  cases c with
  | gameResource info game resource pinned =>
    have hserved : Ends cfg ⟨.gameResource info game resource pinned, none, none⟩
        (handleGameResource cfg info game resource pinned) fun s q =>
          ∃ src res, Answered src resource s.body q ∧ s.source = src.name ∧
            src.resource resource = some res ∧ res.scope ∈ info.scopes := by
      unfold handleGameResource
      cases hgate : gate cfg info.scopes game resource pinned with
      | error e => exact ends_throw
      | ok _ =>
        refine ends_fetch.bind ?_
        rintro result q - ⟨srcs, src, hcand, hsrc, hname, hanswered⟩
        refine (ends_act (.release _) fun _ => rfl).bind ?_
        rintro _ q' - rfl
        obtain ⟨res, hres, hscope⟩ := scope_of_gate hgate hcand hsrc
        exact ends_return ⟨src, res, hanswered, hname, hres, hscope⟩
    refine Prog.Follows.mapE hserved ?_
    rintro r q ⟨hq, hr⟩ info' game' resource' pinned' s hcall hs
    cases hq.symm.trans hcall
    cases r with
    | error e => cases hs
    | ok a =>
      cases hs
      exact hr _ rfl
  | fetch req => exact hother nofun
  | raw req => exact hother nofun
  | gameRaw info game source path query => exact hother nofun
  | release id => exact hother nofun
  | other c => exact hother nofun

/-- **The data gate is sound.** In every run, whatever is bound, in cooldown or failing: what the handler of
a game resource serves is the body of an answer with status 200 to a request for that resource, made by the
same call, and the source that answered declares for the resource a scope the token holds. -/
theorem data_gate (hσ : ∀ i, σ.threads i = none) (h : Pool.Reaches (fun _ _ => True) σ τ)
    (hi : τ.threads i = some th) (hcall : th.call = .gameResource info game resource pinned)
    (hreply : τ.reply i = some (.ok (.served s))) :
    ∃ src res, th.phase.asked = some (src, .resource resource, 200) ∧ th.phase.body = some s.body ∧
      s.source = src.name ∧ src.resource resource = some res ∧ res.scope ∈ info.scopes := by
  have hconf := h.conforming (body_gated cfg) (fun i th hi => nomatch (hσ i).symm.trans hi)
  have hkept : th.phase.call = th.call := by
    refine h.unchanged (f := Trace.call) ?_ (fun i th hi => nomatch (hσ i).symm.trans hi) i th hi
    intro q op r
    cases op <;> first | rfl | (cases r <;> rfl)
  have hphase : τ.phase i = some th.phase := by rw [Pool.phase, hi, Option.map_some]
  obtain ⟨src, res, ⟨hasked, hbody⟩, hname, hres, hscope⟩ :=
    hconf.done hphase hreply info game resource pinned s (hkept.trans hcall) rfl
  exact ⟨src, res, hasked, hbody, hname, hres, hscope⟩

/-- A token that holds the source's scope for its profile resource. -/
def sampleToken : TokenInfo := ⟨true, "u", "client", ["g.profile.read"], 0⟩

def gatedStart : Pool (dataPlane sampleConfig) (tracing sampleConfig) :=
  ⟨⟨sampleBound, newBufferBudget 100, [], sampleCooldown⟩, fun _ => none⟩

def gatedRead : List (Event (dataPlane sampleConfig)) :=
  .start 0 (.gameResource sampleToken "g" "profile" "") ::
    (sampleChoices ++ [Choice.failed]).map fun ω => .step 0 ω

/-- A resource that is served. -/
theorem data_gate_served : ∃ (τ : Pool (dataPlane sampleConfig) (tracing sampleConfig)) (s : Served),
    τ.reply 0 = some (.ok (.served s)) ∧ ∃ (src : DataSource) (res : Resource), s.source = src.name ∧
      src.resource "profile" = some res ∧ res.scope ∈ sampleToken.scopes := by
  have h := Pool.reaches_of_run (σ := gatedStart) gatedRead rfl
  obtain ⟨src, res, -, -, hname, hres, hscope⟩ := data_gate (i := 0) (fun _ => rfl) h rfl rfl rfl
  exact ⟨(gatedStart.runIf (fun _ _ => true) gatedRead).get rfl, _, rfl, src, res, hname, hres, hscope⟩

end Re0Auth.DataPlane

import Re0Auth.Federation.Names
import Re0Auth.Federation.Service
import Mathlib.Data.List.Sort

/-!
# Which sources serve a resource

The configured sources (`internal/federation/federation.go`) and the choice among them
(`internal/federation/service.go`). A pinned source is the only candidate; otherwise the sources that
declare the resource are tried in the order of their names, those in service before the degraded ones.

* **`newRegistry`** builds the registry, in which no two sources share a row, a secret or an entry
  (**`one_row_per_source`**);
* **`Registry.candidates`**: the sources a read tries, in order;
* **`Registry.resourceRequirements`**: the scopes the authorization gate asks for.
-/

namespace Re0Auth.DataPlane

open Lib OAuth Federation List

/-- `Resource`: a data collection, and the scope that grants access to it. -/
structure Resource where
  name : String
  scope : String
  deriving DecidableEq, Repr

/-- `Source`, with what the data plane reads of it beside the binding flow. -/
structure DataSource extends Source where
  resources : List Resource
  /-- Empty where the source has no raw API. -/
  rawBase : String
  deriving DecidableEq, Repr

/-- `Source.Resource`. -/
def DataSource.resource (s : DataSource) (name : String) : Option Resource :=
  s.resources.find? (·.name = name)

/-- **Errors** of a read. -/
inductive ReadError
  /-- A store, the vault, or the refresh of the binding's token. -/
  | fed (e : Federation.Error)
  | unknownGame
  | unknownSource
  | unknownResource
  | sourceRetired
  | rawUnsupported
  | rawPathEscapes
  | responseTooLarge
  | bufferBudget
  | bindingCooldown (game source : String)
  /-- `SourceError`. -/
  | source (name : String) (status : ℕ)
  | invalidJSON (source : String)
  /-- The request could not be built or sent, or the body could not be read. -/
  | transport (context : String)
  /-- The gate's own refusal. -/
  | insufficientScope (scope source : String)
  deriving DecidableEq, Repr

/-- `Registry`. -/
structure Registry where
  byGame : Dict String (List DataSource)
  byKey : Dict String DataSource

/-- `sourceKey`. -/
def sourceKey (game name : String) : String := game ++ "/" ++ name

/-- `statusRank`. -/
def statusRank : SourceStatus → ℕ
  | .active => 0
  | .degraded => 1
  | .retired => 2

/-- `ResourceRequirement`. -/
structure ResourceRequirement where
  source : String
  scope : String
  deriving DecidableEq, Repr

namespace Registry

variable (r : Registry) {game name pinned : String} {src : DataSource} {srcs : List DataSource}

/-- `Registry.Get`. -/
def get (game name : String) : Option DataSource := r.byKey.get (sourceKey game name)

/-- `Registry.Sources`: a game's sources, ordered by name. -/
def sources (game : String) : List DataSource :=
  ((r.byGame.get game).getD []).insertionSort fun s t => s.name ≤ t.name

/-- **`candidates`**: the sources to try, in order. -/
def candidates (game resource pinned : String) : Except ReadError (List DataSource) :=
  let all := r.sources game
  if all.length = 0 then .error .unknownGame
  else if pinned ≠ "" then
    match r.get game pinned with
    | none => .error .unknownSource
    | some src =>
      if src.status = .retired then .error .sourceRetired
      else if src.resource resource = none then .error .unknownResource
      else .ok [src]
  else
    let out := all.filter fun src => src.status ≠ .retired ∧ src.resource resource ≠ none
    .ok (out.insertionSort fun s t => statusRank s.status ≤ statusRank t.status)

/-- The loop of `ResourceRequirements`: one requirement for each scope that was not seen before. -/
def requirements (resource : String) : (seen : List String) → List DataSource → List ResourceRequirement
  | _, [] => []
  | seen, src :: rest =>
    match src.resource resource with
    | none => requirements resource seen rest
    | some res =>
      if res.scope ∈ seen then requirements resource seen rest
      else ⟨src.name, res.scope⟩ :: requirements resource (res.scope :: seen) rest

/-- **`ResourceRequirements`**: what the gate has to ask for. -/
def resourceRequirements (game resource pinned : String) : Except ReadError (List ResourceRequirement) :=
  match r.candidates game resource pinned with
  | .error e => .error e
  | .ok candidates =>
    let out := requirements resource [] candidates
    if out.length = 0 then .error .unknownResource else .ok out

variable {r}

variable {resource : String}

/-- Every candidate is in service and declares the resource. -/
theorem of_mem_candidates (h : r.candidates game resource pinned = .ok srcs)
    (hsrc : src ∈ srcs) : src.status ≠ .retired ∧ ∃ res, src.resource resource = some res := by
  simp only [candidates] at h
  split at h
  · cases h
  · split at h
    · split at h
      · cases h
      · split_ifs at h with hretired hnone
        cases h
        obtain rfl := mem_singleton.1 hsrc
        exact ⟨hretired, Option.ne_none_iff_exists'.1 hnone⟩
    · cases h
      rw [mem_insertionSort, mem_filter] at hsrc
      obtain ⟨hretired, hnone⟩ := of_decide_eq_true hsrc.2
      exact ⟨hretired, Option.ne_none_iff_exists'.1 hnone⟩

variable {res : Resource}

/-- The scope of every source is asked for, if it was not seen before. -/
theorem requirements_scope (hres : src.resource resource = some res) :
    ∀ {seen : List String} {srcs : List DataSource}, src ∈ srcs →
      res.scope ∈ seen ∨ ∃ q ∈ requirements resource seen srcs, q.scope = res.scope := by
  intro seen srcs hsrc
  induction srcs generalizing seen with
  | nil => cases hsrc
  | cons s rest ih =>
    rw [requirements]
    rcases mem_cons.1 hsrc with rfl | hrest
    · by_cases hseen : res.scope ∈ seen
      · exact .inl hseen
      · simp only [hres, if_neg hseen]
        exact .inr ⟨_, mem_cons_self, rfl⟩
    · cases hs : s.resource resource with
      | none => exact ih hrest
      | some res' =>
        by_cases hseen : res'.scope ∈ seen
        · simp only [if_pos hseen]
          exact ih hrest
        · simp only [if_neg hseen]
          -- the scope was asked for here or is asked for later
          rcases @ih (res'.scope :: seen) hrest with hin | ⟨q, hq, hscope⟩
          · rcases mem_cons.1 hin with heq | hin
            · exact .inr ⟨_, mem_cons_self, heq.symm⟩
            · exact .inl hin
          · exact .inr ⟨q, mem_cons_of_mem _ hq, hscope⟩

/-- **The gate asks for the scope of every candidate.** -/
theorem resourceRequirements_scope {out : List ResourceRequirement}
    (h : r.resourceRequirements game resource pinned = .ok out)
    (hcand : r.candidates game resource pinned = .ok srcs) (hsrc : src ∈ srcs)
    (hres : src.resource resource = some res) : ∃ q ∈ out, q.scope = res.scope := by
  simp only [resourceRequirements, hcand] at h
  split_ifs at h with hempty
  cases h
  exact (requirements_scope hres hsrc).resolve_left not_mem_nil

/-! ## What a registry admits -/

/-- What `NewRegistry` asks of a source beside its names and completes it by: issuer, endpoints, resources,
status, token class and raw base. The names stay. -/
structure Checks where
  complete : DataSource → Option DataSource
  keeps : ∀ s s', complete s = some s' → s'.game = s.game ∧ s'.name = s.name

/-- The body of the loop of `NewRegistry`. -/
def add (chk : Checks) (r : Registry) (s : DataSource) : Option Registry :=
  let k := sourceKey s.game s.name
  if Ref.named ⟨"", s.game, s.name⟩ && (r.byKey.get k).isNone then
    (chk.complete s).map fun s =>
      ⟨r.byGame.set s.game ((r.byGame.get s.game).getD [] ++ [s]), r.byKey.set k s⟩
  else none

/-- **`NewRegistry`**. -/
def newRegistry (chk : Checks) (sources : List DataSource) : Option Registry :=
  sources.foldlM (add chk) ⟨∅, ∅⟩

/-- The game and the source are those of entries, of any user. -/
def Admits (r : Registry) (k : Ref) : Prop :=
  (∃ key s, r.byKey.get key = some s ∧ s.game = k.game) ∧ ∃ key s, r.byKey.get key = some s ∧ s.name = k.source

/-- Every entry has admitted names. -/
def Names (r : Registry) : Prop := ∀ key s, r.byKey.get key = some s → Ref.Named ⟨"", s.game, s.name⟩

theorem Names.add {chk : Checks} {r' : Registry} (h : r.Names) (hadd : r.add chk src = some r') : r'.Names := by
  simp only [Registry.add] at hadd
  split_ifs at hadd with hnew
  obtain ⟨s', hs', rfl⟩ := Option.map_eq_some_iff.1 hadd
  intro key s hs
  rcases Dict.get_of_get_set hs with hold | ⟨rfl, rfl⟩
  · exact h key s hold
  · obtain ⟨hgame, hname⟩ := chk.keeps src s hs'
    rw [hgame, hname]
    exact (Bool.and_eq_true_iff.1 hnew).1

theorem Names.named {k : Ref} (h : r.Names) (hk : r.Admits k) : k.Named := by
  obtain ⟨⟨key, s, hs, hgame⟩, key', s', hs', hname⟩ := hk
  have hg := h key s hs
  have hn := h key' s' hs'
  simp only [Ref.Named, Ref.named, Bool.and_eq_true, hgame, hname] at hg hn ⊢
  exact ⟨⟨⟨hg.1.1.1, hn.1.1.2⟩, hg.1.2⟩, hn.2⟩

/-- **One credential row per source**: in a registry that `NewRegistry` accepts, two bindings of admitted
games and sources share neither a secret nor a row, and two sources share no entry. -/
theorem one_row_per_source {chk : Checks} {sources : List DataSource} (h : newRegistry chk sources = some r)
    {k k' : Ref} (hk : r.Admits k) (hk' : r.Admits k') :
    (k ≠ k' → k.identity ≠ k'.identity ∧ k.bindingKey ≠ k'.bindingKey) ∧
      ((k.game, k.source) ≠ (k'.game, k'.source) →
        sourceKey k.game k.source ≠ sourceKey k'.game k'.source) := by
  have hnames : r.Names := foldlM_induct (by rintro _ _ ⟨⟩) (fun _ _ _ _ => Names.add) h
  have hnamed := hnames.named hk
  have hnamed' := hnames.named hk'
  refine ⟨fun hne => ⟨mt (hnamed.identity_inj hnamed') hne, mt (hnamed.bindingKey_inj hnamed') hne⟩, ?_⟩
  refine mt fun heq => ?_
  obtain ⟨hgame, hsource⟩ := hnamed.join_inj hnamed' (c := '/') rfl rfl heq
  rw [hgame, hsource]

/-- Two sources of two games. -/
def twoSources : List DataSource :=
  [⟨⟨"g", "a", .active, .revocable, "", ""⟩, [], ""⟩, ⟨⟨"g-1", "b", .active, .revocable, "", ""⟩, [], ""⟩]

theorem one_row_per_source_two : ∃ chk r, newRegistry chk twoSources = some r ∧
    Ref.identity ⟨"u|g", "g-1", "a"⟩ ≠ Ref.identity ⟨"u", "g", "b"⟩ := by
  let chk : Checks := ⟨some, by rintro s s' ⟨⟩; exact ⟨rfl, rfl⟩⟩
  have h : newRegistry chk twoSources = some _ := rfl
  exact ⟨chk, _, h, ((one_row_per_source h ⟨⟨"g-1/b", _, rfl, rfl⟩, "g/a", _, rfl, rfl⟩
    ⟨⟨"g/a", _, rfl, rfl⟩, "g-1/b", _, rfl, rfl⟩).1 (by decide)).1⟩

end Registry

end Re0Auth.DataPlane

import Re0Auth.OAuth.Entitlement

/-!
# Every call keeps to the order

The programs of the service, checked one by one against the two typestates: whatever the shared objects
answer, a call makes only operations that are in order and for which it has the evidence, and it ends
settled and without a turnstile (**`observed_follows`**, **`body_follows`**). The results about interleaved
runs look at phases and evidence only, so a change to a program of the service is answered here and nowhere
else.
-/

namespace Re0Auth.OAuth

open Lib List

/-! ## Rules -/

variable {cfg : Config} {p : Phase} {x y : Evidence} {α β : Type} {o : Op} {m : Svc cfg α} {e : Error}
  {Q : Except Error β → Phase → Evidence → Prop} {R : Except Error α → Phase → Evidence → Prop}
  {S : α → Evidence → Prop} {k : Claim} {call : Call} {clientID subject familyID id secret : String}
  {scopes : List Scope} {epoch : UInt64} {g : α → List String} {held : Option String}

/-- A part of a call keeps to the order, has the evidence its operations need, and ends with `Q`. -/
abbrev Performs (p : Phase) (x : Evidence) (m : Svc cfg α)
    (Q : Except Error α → Phase → Evidence → Prop) : Prop :=
  Prog.Follows ((typestate cfg).prod (evidence cfg)) (p, x) m.run fun r s => Q r s.1 s.2

theorem performs_act {Q : Except Error o.Res → Phase → Evidence → Prop} (h : Allowed cfg.env p o)
    (hx : Entitled cfg x o) (hQ : ∀ r, Q (.ok r) (p.advance o r) (x.advance o r)) :
    Performs p x (act o : Svc cfg o.Res) Q := ⟨⟨h, hx⟩, hQ⟩

theorem performs_op {f : o.Res → Svc cfg β} (h : Allowed cfg.env p o) (hx : Entitled cfg x o)
    (hf : ∀ r, Performs (p.advance o r) (x.advance o r) (f r) Q) : Performs p x (act o >>= f) Q :=
  ⟨⟨h, hx⟩, hf⟩

theorem Performs.bind {f : α → Svc cfg β} (hm : Performs p x m R)
    (hok : ∀ a q y, R (.ok a) q y → Performs q y (f a) Q)
    (herr : ∀ e q y, R (.error e) q y → Q (.error e) q y) : Performs p x (m >>= f) Q :=
  .bindE hm (fun a s => hok a s.1 s.2) fun e s => herr e s.1 s.2

theorem Performs.map {f : α → β} (hm : Performs p x m R)
    (hQ : ∀ r q y, R r q y → Q (r.map f) q y) : Performs p x (f <$> m) Q :=
  .mapE hm fun r s => hQ r s.1 s.2

/-- The end of a part that leaves the phase as it is; where it succeeds, its result and the evidence
satisfy `S`. -/
def Reads (p : Phase) (S : α → Evidence → Prop) (r : Except Error α) (q : Phase) (y : Evidence) : Prop :=
  q = p ∧ ∀ a, r = .ok a → S a y

theorem performs_pure {a : α} (h : S a x) : Performs p x (pure a : Svc cfg α) (Reads p S) := by
  refine ⟨rfl, fun a' ha => ?_⟩
  cases ha
  exact h

theorem Performs.then {f : α → Svc cfg β} (hm : Performs p x m (Reads p S))
    (hstop : ∀ e y, Q (.error e) p y) (hf : ∀ a y, S a y → Performs p y (f a) Q) :
    Performs p x (m >>= f) Q := by
  refine hm.bind ?_ ?_
  · rintro a q y ⟨rfl, ha⟩
    exact hf a y (ha a rfl)
  · rintro e q y ⟨rfl, -⟩
    exact hstop e y

/-- `client` shows the client, and its secret where it is asked for. -/
theorem client_performs {auth : Bool} (hclient : x.client = none)
    (hid : ∀ id' secret', x.call.credentials = some (id', secret') → id = id') :
    Performs p x (client id secret auth : Svc cfg Client) (Reads p fun c y =>
      y = { x with client := some (id, c) } ∧
        (auth = true → c.type = .confidential → c.authenticate cfg.env secret = true)) := by
  refine performs_op trivial ⟨hclient, hid⟩ fun r => ?_
  rcases r with e | c
  · cases e <;> exact ⟨rfl, nofun⟩
  · dsimp only
    split
    · exact ⟨rfl, nofun⟩
    · rename_i hauth
      refine performs_pure ⟨rfl, fun hauth' htype => ?_⟩
      simpa [hauth', htype] using hauth

/-- `checkCodeBinding` reads the clock; where it succeeds, the code is the client's. -/
theorem checkCodeBinding_performs (c : Client) (code : AuthorizationCode) (req : CodeExchangeRequest) :
    Performs p x (checkCodeBinding c code req : Svc cfg Unit) (Reads p fun _ y =>
      ∃ n, y = { x with clocks := n :: x.clocks } ∧ CodeBound cfg.env n c req code) := by
  refine performs_op trivial trivial fun now => ?_
  split_ifs with hexp hclient huri hpkce
  · exact ⟨rfl, nofun⟩
  · exact ⟨rfl, nofun⟩
  · exact ⟨rfl, nofun⟩
  · exact performs_pure ⟨now, rfl, hexp, not_not.1 hclient, not_not.1 huri, by simpa using hpkce⟩
  · exact ⟨rfl, nofun⟩

/-- The client was looked up and may have the scopes. -/
def Describes (cfg : Config) (x : Evidence) (id : String) (scopes : List Scope)
    (a : Client × List Descriptor) (y : Evidence) : Prop :=
  y = { x with client := some (id, a.1) } ∧ Permitted cfg a.1 scopes ∧
    resolve cfg.env cfg.scopes scopes a.1.id = .ok a.2

theorem resolveScopes_performs (c : Client) (scopes : List Scope) :
    Performs p { x with client := some (id, c) } (resolveScopes c scopes : Svc cfg (Client × List Descriptor))
      (Reads p (Describes cfg x id scopes)) := by
  unfold resolveScopes
  split
  · exact ⟨rfl, nofun⟩
  · rename_i ds hresolve
    split
    · exact ⟨rfl, nofun⟩
    · rename_i hfind
      refine performs_pure ⟨rfl, fun sc hsc => ?_, hresolve⟩
      obtain ⟨d, -, hd⟩ := resolveFrom_spec hresolve sc hsc not_mem_nil
      exact ⟨⟨d, hd⟩, by simpa using find?_eq_none.1 hfind sc hsc⟩

section

variable (hclient : x.client = none) (hid : ∀ id' secret', x.call.credentials = some (id', secret') → id = id')
include hclient hid

theorem describeScopes_performs (scopes : List Scope) :
    Performs p x (describeScopes id scopes : Svc cfg (Client × List Descriptor))
      (Reads p (Describes cfg x id scopes)) := by
  refine (client_performs hclient hid).then (fun _ _ => ⟨rfl, nofun⟩) ?_
  rintro c _ ⟨rfl, -⟩
  exact resolveScopes_performs c scopes

theorem describeAuthenticatedScopes_performs (scopes : List Scope) :
    Performs p x (describeAuthenticatedScopes id secret scopes : Svc cfg (Client × List Descriptor))
      (Reads p (Describes cfg x id scopes)) := by
  refine (client_performs hclient hid).then (fun _ _ => ⟨rfl, nofun⟩) ?_
  rintro c _ ⟨rfl, -⟩
  exact resolveScopes_performs c scopes

end

theorem describe_performs (req : AuthorizationRequest) (hclient : x.client = none)
    (hid : ∀ id' secret', x.call.credentials = some (id', secret') → req.clientID = id') :
    Performs p x (describe req : Svc cfg (Client × List Descriptor))
      (Reads p (Describes cfg x req.clientID req.scopes)) := by
  refine (client_performs hclient hid).then (fun _ _ => ⟨rfl, nofun⟩) ?_
  rintro c _ ⟨rfl, -⟩
  split_ifs
  · exact ⟨rfl, nofun⟩
  · exact ⟨rfl, nofun⟩
  · exact resolveScopes_performs c req.scopes

/-! ## Issuing -/

/-- What was claimed stays claimed while values are drawn and the clock is read. -/
theorem Evidence.Claims.mono {drawn : List String} {clocks : List Time}
    (h : x.Claims cfg clientID subject scopes familyID)
    (hy : y = { x with drawn := drawn, clocks := clocks }) (hclocks : x.clocks ⊆ clocks) :
    y.Claims cfg clientID subject scopes familyID := by
  subst hy
  cases h with
  | code hcall hclient hclaimed hclock hbound =>
    exact .code hcall hclient hclaimed (hclocks hclock) hbound
  | refresh hcall hclient hclaimed howner hnarrows =>
    exact .refresh hcall hclient hclaimed howner hnarrows
  | device hcall hclient hread howner hclaimed =>
    exact .device hcall hclient hread howner hclaimed

theorem issueFamily_performs (familyID : String) :
    Performs p x (issueFamily familyID : Svc cfg String) fun r q y => ∃ F, r = .ok F ∧
      ((familyID = "" ∧ q = { p with drawn := F :: p.drawn } ∧ y = { x with drawn := x.drawn ++ [F] }) ∨
        (familyID ≠ "" ∧ F = familyID ∧ q = p ∧ y = x)) := by
  unfold issueFamily
  split_ifs with h
  · exact performs_act trivial trivial fun F => ⟨F, rfl, .inl ⟨h, rfl, rfl⟩⟩
  · exact ⟨familyID, rfl, .inr ⟨h, rfl, rfl, rfl⟩⟩

/-- The values of a token response. -/
def TokenResponse.values (r : TokenResponse) : List String := [r.accessToken, r.refreshToken]

/-- A call that answers with tokens has claimed a grant. -/
def Earned (cfg : Config) (r : Except Error TokenResponse) (x : Evidence) : Prop :=
  r.isOk = true → ∃ clientID subject scopes family, x.Claims cfg clientID subject scopes family

/-- The end of a call for tokens: it has settled with the turnstile `held`, the tokens are its own, and it
has earned them. -/
structure Served (cfg : Config) (held : Option String) (r : Except Error TokenResponse) (q : Phase)
    (y : Evidence) : Prop where
  final : q.stage.Final
  held : q.held = held
  drawn : ∀ resp, r = .ok resp → resp.values ⊆ q.drawn
  earned : Earned cfg r y

theorem served_error (hs : p.stage.Final) (hh : p.held = held) : Served cfg held (.error e) p x :=
  ⟨hs, hh, nofun, nofun⟩

section

variable (hstage : p.stage = .claimed k) (hcov : k.Covers clientID subject scopes)
  (hepoch : ∀ s client e, p.epoch = some (s, client, e) → client = k.clientID)
  (hclaims : x.Claims cfg clientID subject scopes k.familyID) (hdrawn : x.drawn = [])
include hstage hcov hepoch hclaims hdrawn

/-- `issue` draws what it needs, then writes the access record and the refresh record of the claim, under
the first two values. -/
theorem issue_performs :
    Performs p x (issue clientID subject scopes k.familyID : Svc cfg TokenResponse) fun r q y =>
      ∃ resp F drawn clocks, r = .ok resp ∧ q.stage = .minted k F resp.accessToken resp.refreshToken ∧
        resp.values ⊆ q.drawn ∧ q.held = p.held ∧ q.epoch = p.epoch ∧
        y = { x with drawn := drawn, clocks := clocks } ∧ x.clocks ⊆ clocks ∧ resp.values ⊆ drawn := by
  refine performs_op trivial trivial fun (at_ : String) => ?_
  refine performs_op trivial trivial fun (rt : String) => ?_
  refine (issueFamily_performs k.familyID).bind (fun F q y hF => ?_) (by rintro e q y ⟨F, h, -⟩; cases h)
  -- the access value, the refresh value and, for a first issuance, the family
  obtain ⟨own, drawn, rfl, rfl, hown, hfamily, hat, hrt, hfam⟩ : ∃ own drawn,
      q = { p with drawn := own } ∧ y = { x with drawn := drawn } ∧ [at_, rt] ⊆ own ∧
      (if k.familyID = "" then F ∈ own else F = k.familyID) ∧
      drawn[0]? = some at_ ∧ drawn[1]? = some rt ∧
      if k.familyID = "" then drawn[2]? = some F else F = k.familyID := by
    obtain ⟨F', h, ⟨hempty, rfl, rfl⟩ | ⟨hne, rfl, rfl, rfl⟩⟩ := hF <;> cases h
    · refine ⟨_, [at_, rt, F], rfl, ?_, ?_, ?_, rfl, rfl, by rw [if_pos hempty]; rfl⟩
      · simp [Evidence.advance, hdrawn]
      · simp [Phase.advance]
      · rw [if_pos hempty]
        exact mem_cons_self
    · refine ⟨_, [at_, rt], rfl, ?_, ?_, by rw [if_neg hne], rfl, rfl, by rw [if_neg hne]⟩
      · simp [Evidence.advance, hdrawn]
      · simp [Phase.advance]
  have hissues : ∀ clocks, x.clocks ⊆ clocks →
      ({ x with drawn := drawn, clocks := clocks } : Evidence).Issues cfg clientID subject scopes F :=
    fun clocks hsub => ⟨k.familyID, hclaims.mono rfl hsub, hfam⟩
  have hminting : p.stage.saveAccess F at_ = .minting k F at_ := by rw [hstage]; rfl
  refine performs_op trivial trivial fun (now : Time) => ?_
  have hsub : x.clocks ⊆ now :: x.clocks := subset_cons_self ..
  refine performs_op ⟨hown mem_cons_self, k, hstage, hcov, hepoch, hfamily⟩ ⟨hat, hissues _ hsub⟩ fun _ => ?_
  refine performs_op ⟨hown (by simp), k, at_, hminting, hcov⟩ ⟨hrt, hissues _ hsub⟩ fun _ => ?_
  refine ⟨_, F, drawn, now :: x.clocks, rfl, ?_, hown, rfl, rfl, rfl, hsub, ?_⟩
  · change (p.stage.saveAccess F at_).saveRefresh rt = _
    rw [hminting]
    rfl
  · exact cons_subset.2 ⟨mem_of_getElem? hat, cons_subset.2 ⟨mem_of_getElem? hrt, nil_subset _⟩⟩

/-- `issueGuarded` takes the pair back where the epoch has moved. -/
theorem issueGuarded_performs (hcap : p.captured = epoch) :
    Performs p x (issueGuarded clientID subject scopes k.familyID epoch : Svc cfg TokenResponse)
      (Served cfg p.held) := by
  refine (issue_performs hstage hcov hepoch hclaims hdrawn).bind ?_
    (by rintro e q y ⟨_, _, _, _, h, -⟩; cases h)
  rintro resp q y ⟨resp, F, drawn, clocks, h, hminted, hown, hheld, hqe, rfl, hclocks, hvalues⟩
  cases h
  have hclaims' : ({ x with drawn := drawn, clocks := clocks } : Evidence).Claims cfg clientID subject
      scopes k.familyID := hclaims.mono rfl hclocks
  have hqcap : q.captured = epoch := by rw [← hcap, Phase.captured, Phase.captured, hqe]
  refine performs_op (.inr ⟨k, F, _, _, hminted, hcov.2.1, hcov.1⟩) trivial fun (e : UInt64) => ?_
  rw [advance_grantEpoch]
  by_cases he : e = epoch
  · rw [readEpoch_kept hminted (he.trans hqcap.symm), if_pos he]
    exact ⟨trivial, hheld, fun resp' h => by cases h; exact hown, fun _ => ⟨_, _, _, _, hclaims'⟩⟩
  · rw [readEpoch_undo hminted (fun h => he (h.trans hqcap)), if_neg he]
    refine performs_op (.inr ⟨k, F, _, rfl⟩) (.inr ⟨hvalues mem_cons_self, _, _, _, _, hclaims'⟩) fun _ => ?_
    refine performs_op (.inr ⟨k, F, rfl⟩) (.inr ⟨hvalues ?_, _, _, _, _, hclaims'⟩) fun _ => ?_
    · exact mem_cons_of_mem _ mem_cons_self
    · exact served_error trivial hheld

end

/-! ## The calls -/

/-- A call may answer: its stage is final, it holds no turnstile and what it hands out is its
own. -/
def Ready (hand : α → List String) (r : Except Error α) (p : Phase) : Prop :=
  p.stage.Final ∧ p.held = none ∧ ∀ a, r = .ok a → hand a ⊆ p.drawn

/-- The end of a call that hands out no tokens. -/
abbrev Hands (hand : α → List String) (r : Except Error α) (p : Phase) (_ : Evidence) : Prop := Ready hand r p

theorem ready_error (hs : p.stage.Final) (hh : p.held = none) : Ready g (.error e) p := ⟨hs, hh, nofun⟩

theorem ready_ok {a : α} (hs : p.stage.Final) (hh : p.held = none) (hd : g a ⊆ p.drawn) : Ready g (.ok a) p :=
  ⟨hs, hh, fun a' h => by cases h; exact hd⟩

theorem ready_nil {r : Except Error α} (hs : p.stage.Final) (hh : p.held = none) : Ready (fun _ => []) r p :=
  ⟨hs, hh, fun _ _ => nil_subset _⟩

/-- A call that has taken in its request. -/
abbrev Phase.begun (c : Call) : Phase := { Phase.start c with presented := c.presents }

theorem authorize_performs (req : AuthorizationRequest) :
    Performs (.begun (.authorize req)) (.start (.authorize req))
      (authorize req : Svc cfg AuthorizationResponse) (Hands fun r => [r.code]) := by
  refine (describe_performs req rfl (by nofun)).then (fun _ _ => ready_error trivial rfl) ?_
  rintro ⟨c, ds⟩ _ ⟨rfl, hpermitted, hresolve⟩
  dsimp only
  split
  · exact ready_error trivial rfl
  split
  · exact ready_error trivial rfl
  rename_i hcheck
  refine performs_op trivial trivial fun (code : String) => ?_
  refine performs_op trivial trivial fun now => ?_
  refine performs_op ⟨mem_cons_self, rfl, req, rfl, rfl⟩ ⟨req, c, rfl, rfl, rfl, hpermitted,
    ticked_of_checkExplicit hresolve hcheck, rfl, rfl, rfl⟩ fun _ => ?_
  exact ready_ok trivial rfl (cons_subset.2 ⟨mem_cons_self, nil_subset _⟩)

theorem exchange_performs (req : CodeExchangeRequest) :
    Performs (.begun (.exchange req)) (.start (.exchange req))
      (exchange req : Svc cfg TokenResponse) (Served cfg none) := by
  refine (client_performs rfl (by rintro _ _ ⟨⟩; rfl)).then (fun _ _ => served_error trivial rfl) ?_
  rintro c _ ⟨rfl, hauth⟩
  refine performs_op ⟨rfl, rfl, mem_cons_self⟩ trivial fun r => ?_
  rcases r with e | code
  · cases e <;> exact served_error trivial rfl
  refine (checkCodeBinding_performs c code req).then (fun _ _ => served_error trivial rfl) ?_
  rintro _ _ ⟨n, rfl, hbound⟩
  refine performs_op (.inl ⟨rfl, rfl⟩) trivial fun (epoch : UInt64) => ?_
  refine performs_op ⟨rfl, ⟨req, rfl⟩, mem_cons_self, code, epoch, rfl, by rw [hbound.client]; rfl⟩
    ⟨rfl, req, c, code, n, rfl, rfl, ⟨rfl, hauth rfl⟩, rfl, mem_cons_self, hbound⟩ fun r => ?_
  rcases r with e | claimed
  · cases e <;> exact served_error trivial rfl
  refine (checkCodeBinding_performs c claimed req).then (fun _ _ => served_error trivial rfl) ?_
  rintro _ _ ⟨n', rfl, hbound'⟩
  refine issueGuarded_performs (k := ⟨claimed.clientID, claimed.subject, claimed.scopes, ""⟩) rfl
    ⟨hbound'.client.symm, rfl, .refl _⟩ ?_
    (.code rfl ⟨rfl, hauth rfl⟩ rfl mem_cons_self hbound') rfl rfl
  rintro s client e ⟨⟩
  exact hbound'.client.symm

/-- The part of `Refresh` under the turnstile: a replay revokes its family, a rotation mints. -/
theorem claimRefresh_performs (c : Client) (req : RefreshRequest) {answer : Except Error String}
    (hcall : p.call = .refresh req) (hopen : p.stage = .open) (hpres : req.refreshToken ∈ p.presented)
    (hfam : p.HoldsFamily cfg.env req.refreshToken) (hcap : p.CapturedRefresh req.refreshToken)
    (hepoch : ∀ s client e, p.epoch = some (s, client, e) → client = c.id) (hval : p.captured = epoch)
    (hcall' : x.call = .refresh req) (hclient : x.Authenticated cfg.env req.clientID req.clientSecret c)
    (howner : x.owner = some (req.refreshToken, answer)) (hforeign : foreignOwner c answer = none)
    (hdrawn : x.drawn = []) :
    Performs p x (claimRefresh c req epoch : Svc cfg TokenResponse) (Served cfg p.held) := by
  refine performs_op ⟨hopen, ⟨req, hcall⟩, hpres, hfam, hcap⟩
    ⟨req, c, answer, hcall', rfl, hclient, howner, hforeign⟩ fun r => ?_
  rcases r with e | rt
  · cases e with
    | refreshTokenReused familyID =>
      exact performs_op rfl ⟨req, hcall'⟩ fun _ => served_error trivial rfl
    | _ => exact served_error trivial rfl
  refine performs_op trivial trivial fun now => ?_
  have hissue : ∀ scopes : List Scope, rt.clientID = c.id → scopes ⊆ rt.scopes →
      Performs { p with stage := .claimed ⟨rt.clientID, rt.subject, rt.scopes, rt.familyID⟩ }
        { x with claimedRefresh := some (req.refreshToken, rt), clocks := [now] }
        (issueGuarded c.id rt.subject scopes rt.familyID epoch : Svc cfg TokenResponse)
        (Served cfg p.held) := by
    intro scopes howns hscopes
    exact issueGuarded_performs (k := ⟨rt.clientID, rt.subject, rt.scopes, rt.familyID⟩) rfl
      ⟨howns.symm, rfl, hscopes⟩ (fun s client e h => (hepoch s client e h).trans howns.symm)
      (.refresh hcall' hclient rfl howns hscopes) hdrawn hval
  split_ifs with hexp howns hempty hwiden
  · exact served_error trivial rfl
  · exact hissue _ (not_not.1 howns) (.refl _)
  · exact served_error trivial rfl
  · refine hissue _ (not_not.1 howns) fun sc hsc => ?_
    simp only [Bool.not_eq_true', Bool.not_eq_false, all_eq_true, contains_iff_mem] at hwiden
    exact hwiden sc hsc
  · exact served_error trivial rfl

theorem heldEpoch_performs (clientID : String) (read : Except Error RefreshToken)
    {value : String} (hopen : p.stage = .open) (hheld : p.held = none)
    (hread : p.readRefresh = some (value, read.toOption)) (hnone : p.epoch = none) :
    Performs p x (heldEpoch clientID read : Svc cfg UInt64) fun r q y =>
      ∃ e captured, r = .ok e ∧ q = { p with epoch := captured } ∧ y = x ∧ q.captured = e ∧
        q.CapturedRefresh value ∧ ∀ s client e, captured = some (s, client, e) → client = clientID := by
  cases read with
  | error e =>
    exact ⟨0, none, rfl, by rw [← hnone], rfl, by rw [Phase.captured, hnone]; rfl, .inl ⟨hread, hnone⟩, nofun⟩
  | ok t =>
    refine performs_act (.inl ⟨hopen, hheld⟩) trivial fun (e : UInt64) => ?_
    rw [advance_grantEpoch, readEpoch_open hopen]
    refine ⟨e, some (t.subject, clientID, e), rfl, rfl, rfl, rfl, .inr ⟨t, clientID, e, hread, rfl⟩, ?_⟩
    rintro s client e' ⟨⟩
    rfl

theorem refresh_performs (req : RefreshRequest) :
    Performs (.begun (.refresh req)) (.start (.refresh req))
      (refresh req : Svc cfg TokenResponse) (Served cfg none) := by
  refine (client_performs rfl (by rintro _ _ ⟨⟩; rfl)).then (fun _ _ => served_error trivial rfl) ?_
  rintro c _ ⟨rfl, hauth⟩
  refine performs_op mem_cons_self trivial fun owner => ?_
  split
  · exact served_error trivial rfl
  rename_i hforeign
  refine performs_op ⟨rfl, rfl, mem_cons_self⟩ trivial fun read => ?_
  refine (heldEpoch_performs c.id read rfl rfl rfl rfl).bind ?_ (by rintro e q y ⟨_, _, h, -⟩; cases h)
  rintro epoch q y ⟨e, captured, h, rfl, rfl, hval, hcap, hclient⟩
  cases h
  refine performs_op ⟨rfl, rfl, mem_cons_self⟩ trivial fun family => ?_
  split
  · exact served_error trivial rfl
  rename_i key hkey
  refine performs_op ⟨rfl, rfl, req.refreshToken, family, rfl, hkey⟩ trivial fun _ => ?_
  refine .attemptE (claimRefresh_performs c req rfl rfl mem_cons_self
    ⟨family, key, rfl, hkey, rfl⟩ hcap hclient hval rfl ⟨rfl, hauth rfl⟩ rfl hforeign rfl) fun r s h => ?_
  refine performs_op ⟨h.final, h.held⟩ trivial fun _ => ?_
  rcases r with e | resp
  · exact served_error trivial rfl
  · exact ⟨trivial, rfl, fun resp' h' => by cases h'; exact h.drawn resp rfl, fun _ => h.earned rfl⟩

/-- `revocableOwner` shows whose the value is. -/
theorem revocableOwner_performs (value : String) (hpres : value ∈ p.presented) :
    Performs p x (revocableOwner value : Svc cfg (Except Error String)) (Reads p fun r y =>
      y.call = x.call ∧ y.client = x.client ∧ ∀ owner, r = .ok owner → y.Owns value owner) := by
  refine performs_op hpres trivial fun answer => ?_
  rcases answer with e | owner
  · cases e with
    | tokenNotFound =>
      refine performs_op hpres trivial fun spent => performs_pure ⟨rfl, rfl, fun owner h => ?_⟩
      cases h
      exact .inr ⟨rfl, rfl⟩
    | _ => exact performs_pure ⟨rfl, rfl, nofun⟩
  · refine performs_pure ⟨rfl, rfl, fun owner' h => ?_⟩
    cases h
    exact .inl rfl

theorem revoke_performs (req : RevokeRequest) :
    Performs (.begun (.revoke req)) (.start (.revoke req))
      (revoke req : Svc cfg Unit) (Hands fun _ => []) := by
  refine (client_performs rfl (by rintro _ _ ⟨⟩; rfl)).then (fun _ _ => ready_nil trivial rfl) ?_
  rintro c _ ⟨rfl, hauth⟩
  refine (revocableOwner_performs req.token mem_cons_self).then (fun _ _ => ready_nil trivial rfl) ?_
  rintro (e | owner) y ⟨hcall, hclient, howns⟩
  · cases e <;> exact ready_nil trivial rfl
  dsimp only
  split
  · exact ready_nil trivial rfl
  rename_i hid
  have hentitled : Entitled cfg y (.deleteAccess req.token) :=
    .inl ⟨req, c, hcall, rfl, ⟨hclient, hauth rfl⟩, not_not.1 hid ▸ howns owner rfl⟩
  -- neither deletion moves the stage: this call has claimed nothing
  refine performs_op (.inl ⟨rfl, ⟨req, rfl⟩, mem_cons_self⟩) hentitled fun _ => ?_
  exact performs_act (.inl ⟨rfl, ⟨req, rfl⟩, mem_cons_self⟩) hentitled fun _ => ready_nil trivial rfl

theorem introspect_performs (accessToken : String) :
    Performs (.begun (.introspect accessToken)) (.start (.introspect accessToken))
      (introspect accessToken : Svc cfg TokenInfo) (Hands fun _ => []) := by
  refine performs_op trivial trivial fun r => ?_
  rcases r with e | t
  · cases e <;> exact ready_nil trivial rfl
  refine performs_op trivial trivial fun now => ?_
  split
  · exact ready_nil trivial rfl
  refine performs_op trivial ⟨rfl, nofun⟩ fun r => ?_
  rcases r with e | c
  · cases e <;> exact ready_nil trivial rfl
  · exact ready_nil trivial rfl

theorem authenticateClient_performs (clientID clientSecret : String) :
    Performs (.begun (.authenticateClient clientID clientSecret)) (.start (.authenticateClient clientID clientSecret))
      (authenticateClient clientID clientSecret : Svc cfg Unit) (Hands fun _ => []) := by
  refine (client_performs rfl (by nofun)).then (fun _ _ => ready_nil trivial rfl) fun c y _ => ?_
  split <;> exact ready_nil trivial rfl

/-- `freeUserCode` reads device requests and nothing else. -/
theorem freeUserCode_performs (n : ℕ) :
    Performs p x (freeUserCode n : Svc cfg String) (Reads p fun _ y => ∃ d, y = { x with asked := d }) := by
  induction n generalizing x with
  | zero => exact ⟨rfl, nofun⟩
  | succ n ih =>
    refine performs_op trivial trivial fun code => ?_
    refine performs_op trivial trivial fun r => ?_
    rcases r with e | d
    · cases e with
      | userCodeConflict canonical => exact ih
      | deviceNotFound => exact performs_pure ⟨_, rfl⟩
      | _ => exact ⟨rfl, nofun⟩
    · exact ih

theorem saveDeviceAuthorization_performs {c : Client} {req : DeviceAuthorizationRequest} (deviceCode : String)
    (base : DeviceAuthorizationRecord) (n : ℕ) (hcall : p.call = .beginDevice req) (hopen : p.stage = .open)
    (hown : deviceCode ∈ p.drawn) (hcall' : x.call = .beginDevice req) (hdrawn : x.drawn = [deviceCode])
    (hclient : x.client = some (req.clientID, c)) (hpermitted : Permitted cfg c req.scopes)
    (hid : base.clientID = c.id) (hscopes : base.scopes = req.scopes) (hpending : base.status = .pending)
    (hsaved : x.saved = false) :
    Performs p x (saveDeviceAuthorization deviceCode base n : Svc cfg String) (Reads p fun _ _ => True) := by
  induction n generalizing x with
  | zero => exact ⟨rfl, nofun⟩
  | succ n ih =>
    refine (freeUserCode_performs 8).then (fun _ _ => ⟨rfl, nofun⟩) ?_
    rintro userCode _ ⟨d, rfl⟩
    refine performs_op ⟨hopen, ⟨req, hcall⟩, hown, hpending⟩
      ⟨req, c, hcall', hdrawn, hclient, hpermitted, hid, hscopes, hpending, hsaved⟩ fun r => ?_
    rcases r with e | u
    · cases e with
      | userCodeConflict canonical =>
        refine ih hcall' hdrawn hclient ?_
        simp [Evidence.advance, hsaved, Except.isOk, Except.toBool]
      | _ => exact ⟨rfl, nofun⟩
    · exact performs_pure trivial

theorem beginDeviceAuthorization_performs (req : DeviceAuthorizationRequest) :
    Performs (.begun (.beginDevice req)) (.start (.beginDevice req))
      (beginDeviceAuthorization req : Svc cfg DeviceAuthorizationResponse) (Hands fun r => [r.deviceCode]) := by
  unfold beginDeviceAuthorization
  split
  · exact ready_error trivial rfl
  refine (describeAuthenticatedScopes_performs rfl (by nofun) _).then (fun _ _ => ready_error trivial rfl) ?_
  rintro ⟨c, ds⟩ _ ⟨rfl, hpermitted, -⟩
  refine performs_op trivial trivial fun (deviceCode : String) => ?_
  refine performs_op trivial trivial fun now => ?_
  refine (saveDeviceAuthorization_performs _ _ 8 rfl rfl mem_cons_self rfl rfl rfl hpermitted rfl rfl rfl
    rfl).then (fun _ _ => ready_error trivial rfl) fun userCode y _ => ?_
  exact ready_ok trivial rfl (cons_subset.2 ⟨mem_cons_self, nil_subset _⟩)

theorem pollDeviceAuthorization_performs (req : DeviceCodeExchangeRequest) :
    Performs (.begun (.pollDevice req)) (.start (.pollDevice req))
      (pollDeviceAuthorization req : Svc cfg TokenResponse) (Served cfg none) := by
  refine (client_performs rfl (by rintro _ _ ⟨⟩; rfl)).then (fun _ _ => served_error trivial rfl) ?_
  rintro c _ ⟨rfl, hauth⟩
  refine performs_op ⟨rfl, rfl, mem_cons_self⟩ trivial fun r => ?_
  rcases r with e | d
  · cases e <;> exact served_error trivial rfl
  dsimp only
  split
  · exact served_error trivial rfl
  rename_i hid
  have hid : d.clientID = c.id := not_not.1 hid
  refine performs_op trivial trivial fun now => ?_
  split
  · exact served_error trivial rfl
  rename_i hexp
  split
  · exact served_error trivial rfl
  · split
    · exact served_error trivial rfl
    · refine performs_op ⟨req, rfl⟩ ⟨req, c, d, rfl, ⟨rfl, hauth rfl⟩, rfl, rfl, hid⟩ fun r => ?_
      rcases r with e | u <;> exact served_error trivial rfl
  · rename_i happroved
    refine performs_op (.inl ⟨rfl, rfl⟩) trivial fun (epoch : UInt64) => ?_
    refine performs_op ⟨rfl, ⟨req, rfl⟩, d, epoch, rfl, rfl, happroved, by rw [hid]; rfl⟩
      ⟨rfl, req, c, d, now, rfl, ⟨rfl, hauth rfl⟩, rfl, rfl, hid, happroved, mem_cons_self,
        not_not.1 hexp⟩ fun r => ?_
    rcases r with _ | consumed
    · exact served_error trivial rfl
    refine issueGuarded_performs (k := ⟨d.clientID, consumed.subject, consumed.scopes, ""⟩) rfl
      ⟨hid.symm, rfl, Subset.refl _⟩ ?_ (.device rfl ⟨rfl, hauth rfl⟩ rfl hid rfl) rfl rfl
    rintro s client e ⟨⟩
    exact hid.symm

theorem describeDeviceAuthorization_performs (userCode : String) :
    Performs (.begun (.describeDevice userCode)) (.start (.describeDevice userCode))
      (describeDeviceAuthorization userCode : Svc cfg DeviceAuthorization) (Hands fun _ => []) := by
  refine performs_op trivial trivial fun r => ?_
  rcases r with e | d
  · exact ready_nil trivial rfl
  refine performs_op trivial trivial fun now => ?_
  split
  · exact ready_nil trivial rfl
  split
  · exact ready_nil trivial rfl
  · refine (describeScopes_performs rfl (by nofun) d.scopes).then (fun _ _ => ready_nil trivial rfl) ?_
    exact fun _ _ _ => ready_nil trivial rfl

theorem recordDecision_performs (hash : String) (d : DeviceDecision) (hcall : call.Decides d)
    (hentitled : Entitled cfg x (.recordDecision hash d)) :
    Performs (.begun call) x (recordDecision hash d : Svc cfg Unit) (Hands fun _ => []) := by
  refine performs_op hcall hentitled fun applied => ?_
  split <;> exact ready_nil trivial rfl

theorem decideDeviceAuthorization_performs (userCode subject : String) (approve : Bool)
    (scopes : Option (List Scope)) (explicit : List Scope) :
    Performs (.begun (.decideDevice userCode subject approve scopes explicit))
      (.start (.decideDevice userCode subject approve scopes explicit))
      (decideDeviceAuthorization userCode subject approve scopes explicit : Svc cfg Unit) (Hands fun _ => []) := by
  unfold decideDeviceAuthorization
  split
  · exact ready_nil trivial rfl
  refine performs_op trivial trivial fun r => ?_
  rcases r with e | rec
  · exact ready_nil trivial rfl
  refine performs_op trivial trivial fun now => ?_
  split
  · exact ready_nil trivial rfl
  split
  · exact ready_nil trivial rfl
  rename_i hpending
  split
  · exact recordDecision_performs _ _ ⟨_, _, _, _, _, rfl, nofun⟩
      ⟨rfl, _, _, _, _, _, rec, rfl, rfl, rfl, not_not.1 hpending, nofun, nofun⟩
  rename_i happrove
  split
  · exact ready_nil trivial rfl
  rename_i granted hgranted
  refine (describeScopes_performs rfl (by nofun) granted).then (fun _ _ => ready_nil trivial rfl) ?_
  rintro ⟨c, ds⟩ _ ⟨rfl, -, hresolve⟩
  dsimp only
  split
  · exact ready_nil trivial rfl
  · rename_i hcheck
    exact recordDecision_performs _ _ ⟨_, _, _, _, _, rfl, fun _ => rfl⟩
      ⟨rfl, _, _, _, _, _, rec, rfl, rfl, rfl, not_not.1 hpending, nofun, fun _ =>
        ⟨by simpa using happrove, rfl, rfl, hgranted, ticked_of_checkExplicit hresolve hcheck⟩⟩

/-! ## Whole calls -/

/-- How a call ends: one that answers with tokens has claimed a grant. -/
def Shown (cfg : Config) (reply : Except Error Reply) (x : Evidence) : Prop :=
  ∀ resp, reply = .ok (.token resp) →
    ∃ clientID subject scopes family, x.Claims cfg clientID subject scopes family

/-- A call may answer, has earned the tokens it answers with, and has deleted what it was asked to delete
where it does not fail. -/
structure Answers (cfg : Config) (c : Call) (r : Except Error Reply) (q : Phase) (y : Evidence) : Prop where
  ready : Ready Reply.handsOut r q
  shown : Shown cfg r y
  purged : c.selects.isSome → r.isOk → q.purged = true

/-- An answer that hands out what the result does. -/
theorem Performs.answer {f : α → Reply} (hm : Performs p x m fun r q _ => Ready g r q ∧
      (call.selects.isSome → r.isOk → q.purged = true)) (hf : ∀ a, (f a).handsOut = g a)
    (hne : ∀ a resp, f a ≠ .token resp) : Performs p x (f <$> m) (Answers cfg call) := by
  refine hm.map ?_
  rintro (e | a) q y ⟨⟨hs, hh, hd⟩, hpurged⟩
  · exact ⟨ready_error hs hh, nofun, hpurged⟩
  · refine ⟨ready_ok hs hh (hf a ▸ hd a rfl), fun resp h => ?_, hpurged⟩
    exact absurd (Except.ok.inj h) (hne a resp)

/-- The answer of a call that is not asked to delete records. -/
theorem Performs.hands {f : α → Reply} (hm : Performs p x m (Hands g)) (hc : call.selects = none)
    (hf : ∀ a, (f a).handsOut = g a) (hne : ∀ a resp, f a ≠ .token resp) :
    Performs p x (f <$> m) (Answers cfg call) := by
  refine Performs.answer (hm.mono fun _ _ h => ⟨h, fun hsome => ?_⟩) hf hne
  rw [hc] at hsome
  cases hsome

theorem Performs.tokens {m : Svc cfg TokenResponse} (hm : Performs p x m (Served cfg none))
    (hc : call.selects = none) : Performs p x (Reply.token <$> m) (Answers cfg call) := by
  refine hm.map fun r q y h => ⟨⟨h.final, h.held, ?_⟩, ?_, by rw [hc]; nofun⟩
  all_goals rcases r with e | a
  · nofun
  · rintro _ ⟨⟩
    exact h.drawn a rfl
  · nofun
  · exact fun _ _ => h.earned rfl

theorem attempt_performs {m : Svc cfg (Except Error Unit)} (hm : Performs p x m (Reads p fun _ _ => True))
    (hs : p.stage.Final) (hh : p.held = none) (hc : call.selects = none) :
    Performs p x (attempt m) (Answers cfg call) := by
  have hpurged : ∀ {P : Prop}, call.selects.isSome → P := by
    rw [hc]
    nofun
  refine hm.then (fun _ _ => ⟨ready_error hs hh, nofun, hpurged⟩) ?_
  rintro (e | _) y -
  · exact ⟨ready_error hs hh, nofun, hpurged⟩
  · exact ⟨ready_ok hs hh (nil_subset _), nofun, hpurged⟩

theorem work_performs (cfg : Config) (c : Call) :
    Performs (.begun c) (.start c) (c.work cfg) (Answers cfg c) := by
  cases c with
  | authorize req => exact (authorize_performs req).hands rfl (fun _ => rfl) nofun
  | describeAuthorization req =>
    refine Performs.hands (g := fun _ => []) ?_ rfl (fun _ => rfl) nofun
    exact (describe_performs req rfl (by nofun)).mono fun _ _ h => h.1 ▸ ready_nil trivial rfl
  | exchange req => exact (exchange_performs req).tokens rfl
  | refresh req => exact (refresh_performs req).tokens rfl
  | revoke req => exact (revoke_performs req).hands rfl (fun _ => rfl) nofun
  | revokeGrant subject clientID =>
    refine Performs.answer (g := fun _ => []) ?_ (fun _ => rfl) nofun
    unfold revokeGrant
    split
    · exact ⟨ready_nil trivial rfl, nofun⟩
    · refine performs_op ⟨rfl, rfl⟩ trivial fun _ => ?_
      exact performs_act ⟨rfl, rfl, rfl⟩ trivial fun _ => ⟨ready_nil trivial rfl, fun _ _ => rfl⟩
  | introspect accessToken => exact (introspect_performs accessToken).hands rfl (fun _ => rfl) nofun
  | authenticateClient clientID clientSecret =>
    exact (authenticateClient_performs clientID clientSecret).hands rfl (fun _ => rfl) nofun
  | beginDevice req => exact (beginDeviceAuthorization_performs req).hands rfl (fun _ => rfl) nofun
  | pollDevice req => exact (pollDeviceAuthorization_performs req).tokens rfl
  | describeDevice userCode =>
    exact (describeDeviceAuthorization_performs userCode).hands rfl (fun _ => rfl) nofun
  | decideDevice userCode subject approve scopes explicit =>
    exact (decideDeviceAuthorization_performs userCode subject approve scopes explicit).hands rfl
      (fun _ => rfl) nofun
  | deleteClient id =>
    refine Performs.answer (g := fun _ => []) ?_ (fun _ => rfl) nofun
    refine performs_op ⟨rfl, .inr ⟨id, rfl, rfl⟩⟩ trivial fun _ => ?_
    exact performs_act rfl trivial fun _ => ⟨ready_nil trivial rfl, fun _ _ => rfl⟩
  | createClient | setStatus | rotateSecret =>
    exact attempt_performs (performs_act rfl trivial fun _ => ⟨rfl, fun _ _ => trivial⟩) trivial rfl rfl
  | revokeTokens f =>
    refine Performs.answer (g := fun _ => []) ?_ (fun _ => rfl) nofun
    exact performs_act ⟨rfl, .inl rfl⟩ trivial fun _ => ⟨ready_nil trivial rfl, fun _ _ => rfl⟩
  | sweepTokens | sweepDevices | advanceClock =>
    refine Performs.hands (g := fun _ => []) ?_ rfl (fun _ => rfl) nofun
    exact performs_act rfl trivial fun _ => ready_nil trivial rfl

/-- How a call ends, under observation. -/
def Concluded (cfg : Config) (a : Except Error Reply) (q : Phase × Evidence) : Prop :=
  Closed a q.1 ∧ Shown cfg a q.2

/-- **Every call has the evidence its operations need** and keeps to their order, ends settled and holding no
turnstile, and has deleted what it was asked to delete where it does not fail. -/
theorem observed_follows (cfg : Config) (c : Call) :
    ((service cfg).body c).Follows ((typestate cfg).prod (evidence cfg))
      (Phase.start c, Evidence.start c) (Concluded cfg) := by
  refine Prog.follows_bind.2 ⟨⟨⟨rfl, rfl, rfl⟩, trivial⟩, fun _ => ?_⟩
  have hwork := work_performs cfg c
  have hcall := hwork.unchanged (f := fun s : Phase × Evidence => s.1.call) fun (s : Phase × Evidence) =>
    advance_call s.1
  refine Prog.Follows.bind (hwork.and hcall) ?_
  rintro r s ⟨⟨⟨hs, hh, hd⟩, hshown, hpurged⟩, hcall⟩
  refine Prog.follows_bind.2 ⟨⟨⟨hs, hh, ?_⟩, trivial⟩, fun _ => ⟨⟨rfl, hh, ?_⟩, hshown⟩⟩
  · cases r with
    | error e => exact nil_subset _
    | ok reply => exact hd reply rfl
  · change s.1.call.selects.isSome → _
    rw [hcall]
    exact hpurged

/-- **Every call keeps to the order of operations.** -/
theorem body_follows (cfg : Config) (c : Call) :
    ((service cfg).body c).Follows (typestate cfg) (Phase.start c) Closed :=
  (observed_follows cfg c).fst fun _ _ h => h.1

end Re0Auth.OAuth

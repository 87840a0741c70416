import Re0Auth.OAuth.Codes
import Re0Auth.OAuth.Families

/-!
# Scopes stay within what was approved

Every family of tokens goes back to one authorization: a code a subject approved, or a device request a
subject decided. Rotations may narrow the scopes and never widen them.

* **`Founds`**: the authorization a call has redeemed, with the calls that made it;
* **`Provenance`**: every record can be traced to the call that founded its family;
* **`scope_confinement`**: the scopes of a record are among those that were approved, and all of these
  were registered, allowed to the client and ticked where that is asked for.
-/

namespace Re0Auth.OAuth

open Lib Function Pool List Option Evidence MemoryDeviceStore

variable {cfg : Config} {op : Op} {ω : String} {sh sh' : Shared} {r : op.Res} {p : Phase}
  {x : Evidence} {ph ph' : ℕ → Option (Phase × Evidence)} {i : ℕ} {env : Env} {reg : Registry}
  {v subject clientID familyID hash : String} {d : DeviceAuthorizationRecord}
  {approved explicit scopes : List Scope} {c : Client} {q : Phase × Evidence} {σ₀ σ : Observed cfg}

/-! ## The scope registry -/

/-- A registry keeps each descriptor under its scope. -/
def Registry.Keyed (reg : Registry) : Prop := ∀ sc d, Dict.get reg sc = some d → d.scope = sc

theorem Registry.Keyed.register {reg' : Registry} {d : Descriptor}
    (h : reg.Keyed) (hreg : reg.register env d = .ok reg') : reg'.Keyed := by
  rw [Registry.register] at hreg
  split at hreg
  · cases hreg
  split at hreg
  · cases hreg
  split at hreg
  · cases hreg
  cases hreg
  intro sc d' hd'
  rcases Dict.get_of_get_set hd' with hd' | ⟨rfl, rfl⟩
  · exact h sc d' hd'
  · rfl

/-- What `NewRegistry` builds. -/
theorem newRegistry_keyed {descriptors : List Descriptor}
    (h : newRegistry env descriptors = .ok reg) : reg.Keyed := by
  have key : ∀ reg₀ : Registry, reg₀.Keyed →
      descriptors.foldlM (Registry.register env) reg₀ = .ok reg → reg.Keyed := by
    clear h
    induction descriptors with
    | nil =>
      intro reg₀ h₀ h
      cases h
      exact h₀
    | cons d rest ih =>
      intro reg₀ h₀ h
      rw [foldlM_cons] at h
      cases hd : reg₀.register env d with
      | error e =>
        rw [hd] at h
        cases h
      | ok reg₁ =>
        rw [hd] at h
        exact ih reg₁ (h₀.register hd) h
  exact key ∅ (fun _ _ h => by cases h) h

/-! ## Authorizations -/

/-- The scopes of a decision narrow those of the request. -/
theorem grantedScopes_subset {requested granted : List Scope} {scopes : Option (List Scope)}
    (h : grantedScopes requested scopes = .ok granted) : granted ⊆ requested := by
  rcases scopes with _ | ⟨_ | ⟨sc, rest⟩⟩
  · cases h
    exact Subset.refl _
  · cases h
  · dsimp only [grantedScopes] at h
    split_ifs at h with hall
    cases h
    intro sc' hsc'
    simpa using all_eq_true.1 hall sc' hsc'

namespace Evidence

/-- The call is the `Authorize` that issued the code: the subject has approved the scopes it asks for. -/
structure Authorizes (cfg : Config) (x : Evidence) (v : String) (code : AuthorizationCode)
    (req : AuthorizationRequest) (c : Client) : Prop where
  call : x.call = .authorize req
  drawn : v ∈ x.drawn
  client : x.client = some (req.clientID, c)
  permitted : Permitted cfg c req.scopes
  ticked : Ticked cfg req.scopes req.explicit
  owner : code.clientID = c.id
  subject : code.subject = req.subject
  scopes : code.scopes = req.scopes

/-- The call is the `BeginDeviceAuthorization` that made the request with this hash. -/
structure Begins (cfg : Config) (x : Evidence) (hash : String) (req : DeviceAuthorizationRequest)
    (c : Client) : Prop where
  call : x.call = .beginDevice req
  drawn : ∃ v ∈ x.drawn, hash = cfg.env.tokenHash v
  client : x.client = some (req.clientID, c)
  permitted : Permitted cfg c req.scopes

/-- The call is the decision by which a subject has approved scopes of a device request. -/
structure Approves (cfg : Config) (x : Evidence) (hash : String) (requested : List Scope)
    (subject : String) (scopes explicit : List Scope) : Prop where
  call : ∃ userCode chosen, x.call = .decideDevice userCode subject true chosen explicit ∧
    grantedScopes requested chosen = .ok scopes
  decided : x.decided = some (hash, ⟨.approved, subject, scopes, explicit⟩)
  ticked : Ticked cfg scopes explicit

variable {y : Evidence} {c : Client} {hash : String}

theorem Authorizes.kept {v : String} {code : AuthorizationCode} {req : AuthorizationRequest}
    (h : x.Authorizes cfg v code req c) (hk : x.Kept y) : y.Authorizes cfg v code req c :=
  { h with
    call := hk.call.trans h.call
    drawn := hk.drawn.subset h.drawn
    client := hk.client _ h.client }

theorem Begins.kept {req : DeviceAuthorizationRequest}
    (h : x.Begins cfg hash req c) (hk : x.Kept y) : y.Begins cfg hash req c := by
  obtain ⟨v, hv, hhash⟩ := h.drawn
  exact ⟨hk.call.trans h.call, ⟨v, hk.drawn.subset hv, hhash⟩, hk.client _ h.client, h.permitted⟩

theorem Approves.kept {subject : String} {requested scopes explicit : List Scope}
    (h : x.Approves cfg hash requested subject scopes explicit) (hk : x.Kept y) :
    y.Approves cfg hash requested subject scopes explicit := by
  obtain ⟨userCode, chosen, hcall, hgranted⟩ := h.call
  exact ⟨⟨userCode, chosen, hk.call.trans hcall, hgranted⟩, hk.decided _ h.decided, h.ticked⟩

end Evidence

/-- A code that was issued. -/
def Authorized (cfg : Config) (ph : ℕ → Option (Phase × Evidence)) (v : String)
    (code : AuthorizationCode) : Prop :=
  ∃ j q req c, ph j = some q ∧ q.2.Authorizes cfg v code req c

/-- A device request that was made, and decided where it is approved. -/
def Requested (cfg : Config) (ph : ℕ → Option (Phase × Evidence)) (d : DeviceAuthorizationRecord) :
    Prop :=
  ∃ j q req c, ph j = some q ∧ q.2.Begins cfg d.deviceCodeHash req c ∧ d.clientID = c.id ∧
    (d.status = .pending → d.scopes = req.scopes) ∧
    (d.status = .approved → ∃ l z, ph l = some z ∧
      z.2.Approves cfg d.deviceCodeHash req.scopes d.subject d.scopes d.explicit)

/-- **Founds**: the authorization a call has redeemed, as the client that asked for it, the subject that
approved it, the scopes it approved and those it ticked. The call was authenticated as that client. -/
inductive Founds (cfg : Config) (ph : ℕ → Option (Phase × Evidence)) (x : Evidence) :
    Client → String → List Scope → List Scope → Prop
  | code {v : String} {code : AuthorizationCode} {req : AuthorizationRequest} {c : Client} {j : ℕ}
      {q : Phase × Evidence} (claimed : x.claimedCode = some (v, code)) (issuer : ph j = some q)
      (authorizes : q.2.Authorizes cfg v code req c)
      (redeemer : ∃ id cl, x.client = some (id, cl) ∧ cl.id = c.id) :
      Founds cfg ph x c req.subject req.scopes req.explicit
  | device {hash : String} {d : DeviceAuthorizationRecord} {req : DeviceAuthorizationRequest}
      {c : Client} {j l : ℕ} {q z : Phase × Evidence}
      (claimed : x.claimedDevice = some (hash, d)) (issuer : ph j = some q)
      (begins : q.2.Begins cfg hash req c) (decider : ph l = some z)
      (approves : z.2.Approves cfg hash req.scopes d.subject d.scopes d.explicit)
      (redeemer : ∃ id cl, x.client = some (id, cl) ∧ cl.id = c.id) :
      Founds cfg ph x c d.subject d.scopes d.explicit

/-- **Confined**: a record of a family whose scopes are among those of the authorization that founded
it. The family is the third value its founder has drawn. -/
def Confined (cfg : Config) (ph : ℕ → Option (Phase × Evidence)) (clientID subject : String)
    (scopes : List Scope) (familyID : String) : Prop :=
  familyID ≠ "" ∧ ∃ j q c approved explicit, ph j = some q ∧ q.2.drawn[2]? = some familyID ∧
    Founds cfg ph q.2 c subject approved explicit ∧ clientID = c.id ∧ scopes ⊆ approved

/-! ## Calls go on -/

/-- The calls have gone on: nothing they were shown is lost. -/
def Grows (ph ph' : ℕ → Option (Phase × Evidence)) : Prop :=
  ∀ j q, ph j = some q → ∃ q', ph' j = some q' ∧ q.2.Kept q'.2

theorem Grows.step (hi : ph i = some (p, x)) (he : Entitled cfg x op) :
    Grows ph (update ph i (some (p.advance op r, x.advance op r))) := by
  intro j q hj
  by_cases hij : j = i
  · subst hij
    cases hi.symm.trans hj
    exact ⟨_, update_self .., kept_advance he⟩
  · exact ⟨q, by rw [update_of_ne hij, hj], .refl _⟩

theorem Grows.start (hi : ph i = none) (q₀ : Phase × Evidence) : Grows ph (update ph i (some q₀)) := by
  intro j q hj
  exact ⟨q, update_of_none hi hj, .refl _⟩

theorem Authorized.mono {code : AuthorizationCode} (h : Authorized cfg ph v code)
    (hg : Grows ph ph') : Authorized cfg ph' v code := by
  obtain ⟨j, q, req, c, hj, hauth⟩ := h
  obtain ⟨q', hj', hk⟩ := hg j q hj
  exact ⟨j, q', req, c, hj', hauth.kept hk⟩

theorem Requested.mono (h : Requested cfg ph d) (hg : Grows ph ph') : Requested cfg ph' d := by
  obtain ⟨j, q, req, c, hj, hbegins, hid, hpending, happroved⟩ := h
  obtain ⟨q', hj', hk⟩ := hg j q hj
  refine ⟨j, q', req, c, hj', hbegins.kept hk, hid, hpending, fun hd => ?_⟩
  obtain ⟨l, z, hl, happroves⟩ := happroved hd
  obtain ⟨z', hl', hk'⟩ := hg l z hl
  exact ⟨l, z', hl', happroves.kept hk'⟩

theorem Founds.mono {y : Evidence}
    (h : Founds cfg ph x c subject approved explicit) (hg : Grows ph ph') (hk : x.Kept y) :
    Founds cfg ph' y c subject approved explicit := by
  cases h with
  | code hclaimed hissuer hauth hredeemer =>
    obtain ⟨q', hissuer', hq⟩ := hg _ _ hissuer
    obtain ⟨id, cl, hclient, hid⟩ := hredeemer
    exact .code (hk.claimedCode _ hclaimed) hissuer' (hauth.kept hq) ⟨id, cl, hk.client _ hclient, hid⟩
  | device hclaimed hissuer hbegins hdecider happroves hredeemer =>
    obtain ⟨q', hissuer', hq⟩ := hg _ _ hissuer
    obtain ⟨z', hdecider', hz⟩ := hg _ _ hdecider
    obtain ⟨id, cl, hclient, hid⟩ := hredeemer
    exact .device (hk.claimedDevice _ hclaimed) hissuer' (hbegins.kept hq) hdecider'
      (happroves.kept hz) ⟨id, cl, hk.client _ hclient, hid⟩

theorem Confined.mono (h : Confined cfg ph clientID subject scopes familyID) (hg : Grows ph ph') :
    Confined cfg ph' clientID subject scopes familyID := by
  obtain ⟨hne, j, q, c, approved, explicit, hj, hfam, hfounds, hid, hsub⟩ := h
  obtain ⟨q', hj', hk⟩ := hg j q hj
  exact ⟨hne, j, q', c, approved, explicit, hj', hk.getElem hfam, hfounds.mono hg hk, hid, hsub⟩

/-! ## What a call is shown -/

section

variable (hex : exec cfg op ω sh = some (r, sh'))
include hex

/-- A request that was read by its device code was stored under the hash of that code. -/
theorem readDevice_advance (h : (x.advance op r).device = some d) :
    x.device = some d ∨ ∃ v, op = .getDevice v ∧
      sh.devices.byDev.get (cfg.env.tokenHash v) = some d := by
  cases op with
  | getDevice v =>
    cases hex
    change (sh.devices.getDevice cfg.env v).toOption = some d at h
    rw [getDevice] at h
    split at h
    · cases h
    · rename_i d' hd'
      cases h
      exact .inr ⟨v, rfl, hd'⟩
  | recordDecision hash dec =>
    dsimp only [advance] at h
    split at h <;> exact .inl h
  | _ => exact .inl h

/-- A device request a call has read was stored. -/
theorem device_advance (h : (x.advance op r).device = some d ∨ (x.advance op r).asked = some d) :
    (x.device = some d ∨ x.asked = some d) ∨ ∃ k, sh.devices.byDev.get k = some d := by
  obtain h | h := h
  · obtain h | ⟨v, -, hd⟩ := readDevice_advance hex h
    · exact .inl (.inl h)
    · exact .inr ⟨_, hd⟩
  cases op with
  | getDeviceByUserCode userCode =>
    cases hex
    change (sh.devices.getDeviceByUserCode cfg.env userCode).toOption = some d at h
    rw [getDeviceByUserCode] at h
    split at h
    · cases h
    · split at h
      · cases h
      · rename_i d' hd'
        cases h
        exact .inr ⟨_, hd'⟩
  | recordDecision hash dec =>
    dsimp only [advance] at h
    split at h <;> exact .inl (.inr h)
  | _ => exact .inl (.inr h)

/-- A device request is claimed when it is approved. -/
theorem claimedDevice_advance (h : (x.advance op r).claimedDevice = some (hash, d)) :
    x.claimedDevice = some (hash, d) ∨ op = .consumeDevice hash ∧
      sh.devices.byDev.get hash = some d ∧ d.status = .approved := by
  cases op with
  | consumeDevice hash' =>
    obtain ⟨d', hd', heq⟩ := map_eq_some_iff.1 h
    cases heq
    cases hex
    exact .inr ⟨rfl, get_of_consumeDevice hd'⟩
  | recordDecision hash' dec =>
    dsimp only [advance] at h
    split at h <;> exact .inl h
  | _ => exact .inl h

/-- A refresh token that was claimed was stored. -/
theorem claimedRefresh_advance {t : RefreshToken} (h : (x.advance op r).claimedRefresh = some (v, t)) :
    x.claimedRefresh = some (v, t) ∨ op = .consumeRefresh v ∧
      sh.tokens.refresh.get (cfg.env.tokenHash v) = some t := by
  cases op with
  | consumeRefresh v' =>
    obtain ⟨t', ht', heq⟩ := map_eq_some_iff.1 h
    cases heq
    cases hex
    have hok : (sh.tokens.consumeRefresh cfg.env (some sh.now) v).1 = .ok t := by
      cases hres : (sh.tokens.consumeRefresh cfg.env (some sh.now) v).1 with
      | error e =>
        rw [hres] at ht'
        cases ht'
      | ok t' =>
        rw [hres] at ht'
        cases ht'
        rfl
    exact .inr ⟨rfl, MemoryStore.get_of_consumeRefresh hok⟩
  | recordDecision hash dec =>
    dsimp only [advance] at h
    split at h <;> exact .inl h
  | _ => exact .inl h

/-- What a call has drawn is not empty. -/
theorem drawn_advance_ne (h : v ∈ (x.advance op r).drawn) : v ∈ x.drawn ∨ v ≠ "" := by
  cases op with
  | newToken =>
    obtain h | h := mem_append.1 h
    · exact .inl h
    · obtain rfl := mem_singleton.1 h
      exact .inr (exec_newToken hex).1.1
  | recordDecision hash dec =>
    dsimp only [advance] at h
    split at h <;> exact .inl h
  | _ => exact .inl h

end

/-! ## The invariant -/

/-- What a call was shown can be traced. -/
structure Traced (cfg : Config) (ph : ℕ → Option (Phase × Evidence)) (x : Evidence) : Prop where
  drawn : "" ∉ x.drawn
  device : ∀ d, x.device = some d ∨ x.asked = some d → Requested cfg ph d
  claimedCode : ∀ v code, x.claimedCode = some (v, code) → Authorized cfg ph v code
  claimedDevice : ∀ hash d, x.claimedDevice = some (hash, d) →
    d.deviceCodeHash = hash ∧ d.status = .approved ∧ Requested cfg ph d
  claimedRefresh : ∀ v t, x.claimedRefresh = some (v, t) →
    Confined cfg ph t.clientID t.subject t.scopes t.familyID

/-- **Provenance** of the records. -/
structure Provenance (cfg : Config) (sh : Shared) (ph : ℕ → Option (Phase × Evidence)) : Prop where
  codes : ∀ k code, sh.tokens.codes.get k = some code →
    ∃ v, k = cfg.env.tokenHash v ∧ Authorized cfg ph v code
  devices : ∀ k d, sh.devices.byDev.get k = some d → d.deviceCodeHash = k ∧ Requested cfg ph d
  access : ∀ k t, sh.tokens.access.get k = some t →
    Confined cfg ph t.clientID t.subject t.scopes t.familyID
  refresh : ∀ k t, sh.tokens.refresh.get k = some t →
    Confined cfg ph t.clientID t.subject t.scopes t.familyID
  calls : ∀ j q, ph j = some q → Traced cfg ph q.2

theorem Traced.mono (h : Traced cfg ph x) (hg : Grows ph ph') : Traced cfg ph' x where
  drawn := h.drawn
  device d hd := (h.device d hd).mono hg
  claimedCode v code hc := (h.claimedCode v code hc).mono hg
  claimedDevice hash d hd :=
    ⟨(h.claimedDevice hash d hd).1, (h.claimedDevice hash d hd).2.1, (h.claimedDevice hash d hd).2.2.mono hg⟩
  claimedRefresh v t ht := (h.claimedRefresh v t ht).mono hg

/-- A device code belongs to one request. -/
theorem begins_unique (hO : Observes cfg.env sh ph) {j l : ℕ} {z : Phase × Evidence}
    {req req' : DeviceAuthorizationRequest} {c' : Client} (hj : ph j = some q)
    (hl : ph l = some z) (h : q.2.Begins cfg hash req c) (h' : z.2.Begins cfg hash req' c') :
    req = req' ∧ c = c' := by
  obtain ⟨v, hv, rfl⟩ := h.drawn
  obtain ⟨v', hv', hhash⟩ := h'.drawn
  obtain rfl := cfg.env.tokenHash_injective hhash
  obtain rfl := hO.eq_of_drawn hj hl hv hv'
  obtain rfl : req = req' := by
    have hcall := h.call.symm.trans h'.call
    cases hcall
    rfl
  have hclient := h.client.symm.trans h'.client
  exact ⟨rfl, (Prod.mk.inj (some.inj hclient)).2⟩

/-- What a call issues is confined. -/
theorem confined_of_issues (hO : Observes cfg.env sh ph) (hT : Traced cfg ph x) (hi : ph i = some (p, x))
    (h : x.Issues cfg clientID subject scopes familyID) :
    Confined cfg ph clientID subject scopes familyID := by
  obtain ⟨family, hclaims, hfam⟩ := h
  have hdrawn : x.drawn[2]? = some familyID → familyID ≠ "" := by
    rintro hget rfl
    exact hT.drawn (mem_of_getElem? hget)
  cases hclaims with
  | code hcall hclient hclaimed hclock hbound =>
    obtain ⟨j, q, req, c, hj, hauth⟩ := hT.claimedCode _ _ hclaimed
    have hfounds : Founds cfg ph x c req.subject req.scopes req.explicit :=
      .code hclaimed hj hauth ⟨_, _, hclient.1, hbound.client.symm.trans hauth.owner⟩
    rw [hauth.subject, hauth.scopes, ← hbound.client, hauth.owner]
    exact ⟨hdrawn hfam, i, _, c, _, _, hi, hfam, hfounds, rfl, Subset.refl _⟩
  | device hcall hclient hread howner hclaimed =>
    obtain ⟨hhash, happroved, j, q, req, c, hj, hbegins, hid, -, hdecided⟩ :=
      hT.claimedDevice _ _ hclaimed
    -- the request that was read and the one that was claimed are one
    obtain ⟨j', q', req', c', hj', hbegins', hid', -⟩ := hT.device _ (.inl hread)
    rw [hhash] at hbegins
    obtain ⟨rfl, rfl⟩ := begins_unique hO hj hj' hbegins hbegins'
    obtain ⟨l, z, hl, happroves⟩ := hdecided happroved
    rw [hhash] at happroves
    have hredeemer := howner.symm.trans hid'
    rw [hredeemer]
    exact ⟨hdrawn hfam, i, _, c, _, _, hi, hfam,
      .device hclaimed hj hbegins hl happroves ⟨_, _, hclient.1, hredeemer⟩, rfl, Subset.refl _⟩
  | refresh hcall hclient hclaimed howner hnarrows =>
    obtain ⟨hne, j, q, c, approved, explicit, hj, hfam', hfounds, hid, hsub⟩ :=
      hT.claimedRefresh _ _ hclaimed
    rw [if_neg hne] at hfam
    rw [hfam, ← howner]
    exact ⟨hne, j, q, c, approved, explicit, hj, hfam', hfounds, hid, Subset.trans hnarrows hsub⟩

theorem Provenance.start (h : Provenance cfg sh ph) (hi : ph i = none) (c : Call) :
    Provenance cfg sh (update ph i (some (Phase.start c, start c))) := by
  have hg := Grows.start hi (Phase.start c, Evidence.start c)
  refine ⟨fun k code hc => ?_, fun k d hd => ?_, fun k t ht => (h.access k t ht).mono hg,
    fun k t ht => (h.refresh k t ht).mono hg,
    forall_kept ⟨not_mem_nil, nofun, nofun, nofun, nofun⟩ fun j q hj =>
      (h.calls j q hj).mono hg⟩
  · obtain ⟨v, hk, hauth⟩ := h.codes k code hc
    exact ⟨v, hk, hauth.mono hg⟩
  · obtain ⟨hk, hreq⟩ := h.devices k d hd
    exact ⟨hk, hreq.mono hg⟩

/-- The request after a decision of a call that has read it. -/
theorem Requested.decide (hO : Observes cfg.env sh ph) (hT : Traced cfg ph x) (hg : Grows ph ph')
    {k : String} {d₀ : DeviceAuthorizationRecord}
    {dec : DeviceDecision} (hi' : ph' i = some q) (hq : q.2.call = x.call)
    (hdecided : q.2.decided = some (k, dec)) (he : Entitled cfg x (.recordDecision k dec))
    (h : Requested cfg ph d₀) (hk : d₀.deviceCodeHash = k) : Requested cfg ph' (d₀.decide dec) := by
  obtain ⟨-, userCode, subject, approve, chosen, explicit, rec, hcall, hread, rfl, hpending, hstatus,
    happrove⟩ := he
  obtain ⟨j, y, req, c, hj, hbegins, hid, -⟩ := h
  obtain ⟨j', y', req', c', hj', hbegins', -, hscopes, -⟩ := hT.device rec (.inr hread)
  rw [hk] at hbegins
  obtain ⟨rfl, rfl⟩ := begins_unique hO hj hj' hbegins hbegins'
  obtain ⟨y₁, hj₁, hkept⟩ := hg j y hj
  refine ⟨j, y₁, req, c, hj₁, ?_, hid, fun hd => absurd hd hstatus, fun hd => ⟨i, q, hi', ?_⟩⟩
  · rw [show (d₀.decide dec).deviceCodeHash = rec.deviceCodeHash from hk]
    exact hbegins.kept hkept
  · obtain ⟨rfl, rfl, rfl, hgranted, hticked⟩ := happrove hd
    rw [hscopes hpending] at hgranted
    rw [show (d₀.decide dec).deviceCodeHash = rec.deviceCodeHash from hk]
    refine ⟨⟨userCode, chosen, hq.trans hcall, hgranted⟩, ?_, hticked⟩
    rw [hdecided, ← show dec.status = .approved from hd]
    rfl

/-- **Step lemma.** -/
theorem Provenance.step (h : Provenance cfg sh ph) (hO : Observes cfg.env sh ph)
    (hi : ph i = some (p, x)) (he : Entitled cfg x op) (hex : exec cfg op ω sh = some (r, sh')) :
    Provenance cfg sh' (update ph i (some (p.advance op r, x.advance op r))) := by
  have hg := Grows.step (r := r) hi he
  have hi' := update_self i (some (p.advance op r, x.advance op r)) ph
  have hT := h.calls i _ hi
  refine ⟨fun k code hc => ?_, fun k d hd => ?_, fun k t ht => ?_, fun k t ht => ?_,
    forall_kept ?_ fun j q hj => (h.calls j q hj).mono hg⟩
  · obtain hold | ⟨value, rfl, rfl⟩ := exec_codes hex hc
    · obtain ⟨v, hk, hauth⟩ := h.codes k code hold
      exact ⟨v, hk, hauth.mono hg⟩
    · obtain ⟨req, c, hcall, hdrawn, hclient, hpermitted, hticked, hid, hsubject, hscopes⟩ := he
      refine ⟨value, rfl, i, _, req, c, hi', hcall, ?_, hclient, hpermitted, hticked, hid, hsubject, hscopes⟩
      rw [show (x.advance (.saveCode value code) r).drawn = x.drawn from rfl, hdrawn]
      exact mem_singleton_self _
  · obtain hold | ⟨v, d₀, rfl, rfl, rfl⟩ | ⟨at_, d₀, rfl, hget, rfl⟩ |
      ⟨dec, d₀, rfl, hdecided, hget, hpending, rfl⟩ := exec_devices hex hd
    · obtain ⟨hk, hreq⟩ := h.devices k d hold
      exact ⟨hk, hreq.mono hg⟩
    · obtain ⟨req, c, hcall, hdrawn, hclient, hpermitted, hid, hscopes, hstatus, -⟩ := he
      have hv : v ∈ x.drawn := by rw [hdrawn]; exact mem_singleton_self _
      exact ⟨rfl, i, _, req, c, hi', ⟨hcall, ⟨v, hv, rfl⟩, hclient, hpermitted⟩, hid,
        fun _ => hscopes, fun hd' => by rw [show d₀.status = .approved from hd'] at hstatus; cases hstatus⟩
    · obtain ⟨hk, hreq⟩ := h.devices k d₀ hget
      exact ⟨hk, hreq.mono hg⟩
    · obtain ⟨hk, hreq⟩ := h.devices k d₀ hget
      exact ⟨hk, hreq.decide hO hT hg hi' (kept_advance he).call (hdecided x) he hk⟩
  · obtain hold | ⟨value, rfl, rfl⟩ := exec_access hex ht
    · exact (h.access k t hold).mono hg
    · exact (confined_of_issues hO hT hi he.2).mono hg
  · obtain hold | ⟨value, rfl, rfl⟩ := exec_refresh hex ht
    · exact (h.refresh k t hold).mono hg
    · exact (confined_of_issues hO hT hi he.2).mono hg
  · refine ⟨fun hmem => ?_, fun d hd => ?_, fun v code hc => ?_, fun hash d hd => ?_, fun v t ht => ?_⟩
    · obtain hold | hne := drawn_advance_ne hex hmem
      · exact hT.drawn hold
      · exact hne rfl
    · obtain hold | ⟨k, hget⟩ := device_advance hex hd
      · exact (hT.device d hold).mono hg
      · exact (h.devices k d hget).2.mono hg
    · obtain hold | ⟨rfl, hget, -⟩ := claimedCode_advance hex hc
      · exact (hT.claimedCode v code hold).mono hg
      · obtain ⟨v', hv', hauth⟩ := h.codes _ code hget
        obtain rfl := cfg.env.tokenHash_injective hv'
        exact hauth.mono hg
    · obtain hold | ⟨rfl, hget, happroved⟩ := claimedDevice_advance hex hd
      · obtain ⟨hhash, happroved, hreq⟩ := hT.claimedDevice hash d hold
        exact ⟨hhash, happroved, hreq.mono hg⟩
      · obtain ⟨hk, hreq⟩ := h.devices hash d hget
        exact ⟨hk, happroved, hreq.mono hg⟩
    · obtain hold | ⟨rfl, hget⟩ := claimedRefresh_advance hex ht
      · exact (hT.claimedRefresh v t hold).mono hg
      · exact (h.refresh _ t hget).mono hg

/-! ## Runs -/

theorem Observed.Started.provenance (h : σ₀.Started) : Provenance cfg σ₀.sh σ₀.phase := by
  refine ⟨?_, ?_, ?_, ?_, fun i q hq => ?_⟩
  · rw [h.tokens]
    nofun
  · rw [h.devices]
    nofun
  · rw [h.tokens]
    nofun
  · rw [h.tokens]
    nofun
  · rw [phase, h.idle i] at hq
    cases hq

theorem Provenance.runs (h : Pool.Reaches (fun _ _ => True) σ₀ σ) (h₀ : σ₀.Started) :
    σ.Sound ∧ Provenance cfg σ.sh σ.phase :=
  Observed.invariant (I := Provenance cfg) h (Observed.sound_of_idle h₀.idle)
    (fun _ _ c _ hI hi => hI.start hi c)
    (fun _ _ _ _ _ _ _ _ _ hO hI hi _ _ he hex => hI.step hO hi he hex) h₀.provenance

/-- What was approved was registered for the client, allowed to it, and ticked where that is asked
for. -/
theorem Founds.sanctioned (hreg : cfg.scopes.Keyed) (h : Founds cfg ph x c subject approved explicit) :
    ∀ sc ∈ approved, c.allowsScope sc = true ∧ ∃ d, cfg.scopes.get sc = some d ∧
      d.allowsClient c.id = true ∧ (d.explicitConsent = true → sc ∈ explicit) := by
  have key : Permitted cfg c approved ∧ Ticked cfg approved explicit := by
    cases h with
    | code hclaimed hissuer hauth hredeemer => exact ⟨hauth.permitted, hauth.ticked⟩
    | device hclaimed hissuer hbegins hdecider happroves hredeemer =>
      obtain ⟨userCode, chosen, -, hgranted⟩ := happroves.call
      exact ⟨fun sc hsc => hbegins.permitted sc (grantedScopes_subset hgranted hsc), happroves.ticked⟩
  intro sc hsc
  obtain ⟨⟨d, hd, hallows⟩, hscope⟩ := key.1 sc hsc
  refine ⟨hscope, d, hd, hallows, fun hconsent => ?_⟩
  have hticked := key.2 sc hsc d hd hconsent
  rwa [hreg sc d hd] at hticked

/-- The scopes of a record, its subject and its client go back to the authorization that founded its
family: all scopes approved there were in the registry for that client and in the client's registration
when the request was made, and those marked for explicit consent were ticked in the decision. -/
def Consented (cfg : Config) (ph : ℕ → Option (Phase × Evidence)) (clientID subject : String)
    (scopes : List Scope) (familyID : String) : Prop :=
  ∃ i q c approved explicit, ph i = some q ∧ q.2.drawn[2]? = some familyID ∧
    Founds cfg ph q.2 c subject approved explicit ∧ clientID = c.id ∧ scopes ⊆ approved ∧
    ∀ sc ∈ approved, c.allowsScope sc = true ∧ ∃ d, cfg.scopes.get sc = some d ∧
      d.allowsClient clientID = true ∧ (d.explicitConsent = true → sc ∈ explicit)

theorem Confined.consented (hreg : cfg.scopes.Keyed) (h : Confined cfg ph clientID subject scopes familyID) :
    Consented cfg ph clientID subject scopes familyID := by
  obtain ⟨-, i, q, c, approved, explicit, hi, hfam, hfounds, rfl, hsub⟩ := h
  exact ⟨i, q, c, approved, explicit, hi, hfam, hfounds, rfl, hsub, hfounds.sanctioned hreg⟩

/-- **Scope confinement**: in every state a service reaches, every access record and every refresh
record is within the authorization that founded its family. -/
theorem scope_confinement {descriptors : List Descriptor}
    (hreg : newRegistry cfg.env descriptors = .ok cfg.scopes) (h₀ : σ₀.Started)
    (h : Pool.Reaches (fun _ _ => True) σ₀ σ) :
    (∀ k t, σ.sh.tokens.access.get k = some t →
      Consented cfg σ.phase t.clientID t.subject t.scopes t.familyID) ∧
    ∀ k t, σ.sh.tokens.refresh.get k = some t →
      Consented cfg σ.phase t.clientID t.subject t.scopes t.familyID := by
  have hprov := (Provenance.runs h h₀).2
  have hkeyed := newRegistry_keyed hreg
  exact ⟨fun k t ht => (hprov.access k t ht).consented hkeyed,
    fun k t ht => (hprov.refresh k t ht).consented hkeyed⟩

/-- The service of `sampleNew`, under observation. -/
def observedNew : Observed sampleConfig where
  sh := sampleNew.sh
  threads _ := none

theorem observedNew_started : observedNew.Started := ⟨fun _ => rfl, rfl, rfl, rfl⟩

/-- The pair of a rotation goes back to the code that founded its family. -/
theorem scope_confinement_rotated : ∃ (σ : Observed sampleConfig) (t : AccessToken),
    σ.sh.tokens.access.get "h:at2" = some t ∧
      Consented sampleConfig σ.phase t.clientID t.subject t.scopes t.familyID := by
  have h := reaches_of_run (σ := observedNew) rotating rfl
  have hreg : newRegistry sampleConfig.env [⟨"a.b", "read", "", .low, false, []⟩] =
      .ok sampleConfig.scopes := rfl
  exact ⟨_, _, by exact rfl, (scope_confinement hreg observedNew_started h).1 "h:at2" _ rfl⟩

end Re0Auth.OAuth

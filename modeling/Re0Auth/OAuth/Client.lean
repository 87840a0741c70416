import Re0Auth.Lib.Dict

/-!
# Scopes and clients

The scope catalog (`oauth/scope.go`) and the registered clients (`oauth/client.go`).

* **`Env`**: the functions of the Go standard library the authorization server computes with. They
  are not part of the repository; the one property of them that is used is a field.
* **`resolve`**, **`checkExplicit`**: the checks of a requested scope set;
* **`Client`** with **`Client.registeredRedirect`** and **`Client.authenticate`**;
* **`MemoryClientRegistry`**: the registry operations, each of which the source runs under the
  registry's lock.
-/

namespace Re0Auth.OAuth

open Lib

/-- Instants, in nanoseconds since Go's zero time: `t.IsZero()` is `t = 0`. -/
abbrev Time := Int

/-- `time.Duration`, in nanoseconds. -/
abbrev Duration := Int

/-- One second, `time.Second`. -/
def second : Duration := 1000000000

/-- A namespaced permission such as `phigros.score.read`. -/
abbrev Scope := String

/-- **Environment**: functions of the Go standard library. -/
structure Env where
  /-- `TokenHash`: the hexadecimal SHA-256 digest of a value. -/
  tokenHash : String → String
  /-- SHA-256 has no known collisions: distinct values have distinct digests. -/
  tokenHash_injective : Function.Injective tokenHash
  /-- The unpadded base64url encoding of the SHA-256 digest of a PKCE verifier. -/
  s256 : String → String
  /-- `verifySecretHash`: whether a secret belongs to a stored verifier. -/
  verifySecretHash : List UInt8 → String → Bool
  /-- `validSecretHash`: whether bytes are a verifier this package wrote. -/
  validSecretHash : List UInt8 → Bool
  /-- The scheme `url.Parse` finds, `none` where the string does not parse. -/
  urlScheme : String → Option String
  /-- `url.QueryEscape`. -/
  queryEscape : String → String
  /-- `strings.ToLower`. -/
  toLower : String → String
  /-- `strings.ToUpper`. -/
  toUpper : String → String
  /-- `strings.TrimSpace`. -/
  trimSpace : String → String
  /-- The quoting of `%q`. -/
  quote : String → String

/-- A simple environment, for runs on fixed inputs. -/
def sampleEnv : Env where
  tokenHash v := "h:" ++ v
  tokenHash_injective := fun a b h => by simpa using h
  s256 := id
  verifySecretHash _ _ := true
  validSecretHash _ := true
  urlScheme _ := some "https"
  queryEscape := id
  toLower := id
  toUpper := id
  trimSpace := id
  quote := id

/-! ## Scopes -/

/-- The blast radius of granting a scope. -/
inductive Risk
  | low | medium | high | critical
  deriving DecidableEq, Repr

/-- One scope of the catalog. -/
structure Descriptor where
  scope : Scope
  title : String
  description : String
  risk : Risk
  explicitConsent : Bool
  allowedClients : List String
  deriving DecidableEq, Repr

/-- An empty list of clients restricts nothing. -/
def Descriptor.allowsClient (d : Descriptor) (id : String) : Bool :=
  d.allowedClients.isEmpty || d.allowedClients.contains id

/-- The scope catalog, `Registry.byScope`. -/
abbrev Registry := Dict Scope Descriptor

/-- `Scope.valid`: at least two segments, each of lower-case letters, digits and underscores. -/
def Scope.valid (s : Scope) : Bool :=
  let parts := s.toList.splitOn '.'
  decide (2 ≤ parts.length) && parts.all fun p => !p.isEmpty && p.all fun r =>
    r == '_' || ('a' ≤ r && r ≤ 'z') || ('0' ≤ r && r ≤ '9')

/-- `Register` refuses a malformed scope, a missing title and a scope that is registered. -/
def Registry.register (env : Env) (r : Registry) (d : Descriptor) : Except String Registry :=
  if !Scope.valid d.scope then .error ("oauth: malformed scope " ++ env.quote d.scope)
  else if d.title = "" then .error ("oauth: scope " ++ d.scope ++ " needs a title")
  else match Dict.get r d.scope with
    | some _ => .error ("oauth: duplicate scope " ++ d.scope)
    | none => .ok (Dict.set r d.scope d)

/-- **`NewRegistry`**: the first descriptor that is refused is the answer. -/
def newRegistry (env : Env) (descriptors : List Descriptor) : Except String Registry :=
  descriptors.foldlM (Registry.register env) ∅

/-- The loop of `Registry.Resolve`: `seen` holds the scopes already handled. -/
def resolveFrom (env : Env) (r : Registry) (clientID : String) :
    List Scope → List Scope → Except String (List Descriptor)
  | [], _ => .ok []
  | s :: rest, seen =>
    if seen.contains s then resolveFrom env r clientID rest seen
    else match r.get s with
      | none => .error ("oauth: unknown scope " ++ env.quote s)
      | some d =>
        if d.allowsClient clientID then
          (resolveFrom env r clientID rest (s :: seen)).map (d :: ·)
        else .error ("oauth: scope " ++ s ++ " is not available to client " ++ clientID)

/-- **`Registry.Resolve`**: every scope must be known and available to the client. -/
def resolve (env : Env) (r : Registry) (scopes : List Scope) (clientID : String) :
    Except String (List Descriptor) :=
  resolveFrom env r clientID scopes []

/-- An OAuth 2.0 error, or one of the sentinel errors of the stores. -/
inductive Error
  | protocol (code description : String)
  | tokenNotFound
  | refreshTokenReused (familyID : String)
  | clientNotFound
  | deviceNotFound
  | userCodeConflict (canonical : String)
  | other (text : String)
  deriving DecidableEq, Repr

/-- **`checkExplicit`**: every scope marked for explicit consent was ticked on its own. -/
def checkExplicit : List Descriptor → List Scope → Except Error Unit
  | [], _ => .ok ()
  | d :: rest, explicit =>
    if d.explicitConsent && !explicit.contains d.scope then
      .error (.protocol "access_denied" ("explicit consent is required for " ++ d.scope))
    else checkExplicit rest explicit

/-- `joinScopes`. -/
def joinScopes (scopes : List Scope) : String := " ".intercalate scopes

/-! ## Clients -/

/-- Whether a client can keep a secret. -/
inductive ClientType
  | «public» | confidential
  deriving DecidableEq, Repr

/-- The administrative lifecycle of a client. -/
inductive ClientStatus
  | active | suspended
  deriving DecidableEq, Repr

/-- **Client**: a registered downstream application. -/
structure Client where
  id : String
  name : String
  type : ClientType
  status : ClientStatus
  createdAt : Time
  redirectURIs : List String
  allowedScopes : List Scope
  allowMissingPKCE : Bool
  secretHash : List UInt8
  deriving DecidableEq, Repr

/-- `forbiddenRedirectSchemes`. -/
def forbiddenRedirectSchemes : List String :=
  ["javascript", "data", "vbscript", "file", "blob", "about"]

/-- `forbiddenRedirectScheme`: a string that does not parse is forbidden too. -/
def forbiddenRedirectScheme (env : Env) (raw : String) : Bool :=
  match env.urlScheme raw with
  | none => true
  | some scheme => forbiddenRedirectSchemes.contains (env.toLower scheme)

namespace Client

/-- `RegisteredRedirect`: the registered URI equal to `uri`, `""` where there is none. -/
def registeredRedirect (env : Env) (c : Client) (uri : String) : String :=
  if forbiddenRedirectScheme env uri then ""
  else (c.redirectURIs.find? fun r => r == uri && !forbiddenRedirectScheme env r).getD ""

/-- `AllowsRedirect`. -/
def allowsRedirect (env : Env) (c : Client) (uri : String) : Bool :=
  c.registeredRedirect env uri != ""

/-- `AllowsScope`. -/
def allowsScope (c : Client) (s : Scope) : Bool := c.allowedScopes.contains s

/-- `Authenticate`: a client without a stored verifier accepts no secret. -/
def authenticate (env : Env) (c : Client) (secret : String) : Bool :=
  if c.secretHash.isEmpty then false else env.verifySecretHash c.secretHash secret

end Client

/-- `MemoryClientRegistry.byID`. -/
abbrev MemoryClientRegistry := Dict String Client

namespace MemoryClientRegistry

/-- `Create` refuses an id that is registered. -/
def create (r : MemoryClientRegistry) (c : Client) : Except Error MemoryClientRegistry :=
  match Dict.get r c.id with
  | some _ => .error (.other ("oauth: client " ++ c.id ++ " already exists"))
  | none => .ok (Dict.set r c.id c)

/-- `Get` reports a suspended client as not found. -/
def lookup (r : MemoryClientRegistry) (id : String) : Except Error Client :=
  match Dict.get r id with
  | none => .error .clientNotFound
  | some c => if c.status = .suspended then .error .clientNotFound else .ok c

/-- `SetStatus`. -/
def setStatus (r : MemoryClientRegistry) (id : String) (status : ClientStatus) :
    Except Error MemoryClientRegistry :=
  match Dict.get r id with
  | none => .error .clientNotFound
  | some c => .ok (Dict.set r id { c with status := status })

/-- `RotateSecret`: the digest must be one this package wrote and the client confidential. -/
def rotateSecret (env : Env) (r : MemoryClientRegistry) (id : String) (secretHash : List UInt8) :
    Except Error MemoryClientRegistry :=
  if env.validSecretHash secretHash then
    match Dict.get r id with
    | none => .error .clientNotFound
    | some c =>
      if c.type = .confidential then .ok (Dict.set r id { c with secretHash := secretHash })
      else .error (.other "oauth: client has no secret to rotate")
  else .error (.other ("oauth: a rotation needs a pbkdf2-sha256 secret hash, got " ++
    toString secretHash.length ++ " bytes"))

/-- The last step of `Delete`: the registration goes. -/
def remove (r : MemoryClientRegistry) (id : String) : MemoryClientRegistry := Dict.del r id

end MemoryClientRegistry

end Re0Auth.OAuth

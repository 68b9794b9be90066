import DashFaucet.Cap
import DashFaucet.Data.Base64
import DashFaucet.Data.Json
import DashFaucet.Data.Text
import DashFaucet.Data.Utf8

/-!
# Sign-in

Sign-in without a session store (`auth.ts`): a cookie is `payload.mac`, the payload a JSON object in
base64url, and the MAC binds the purpose. A session is such a cookie, and its CSRF token such a MAC.
HMAC-SHA-256 stays a parameter, from a key and a message to a tag, and so do JSON and the
conversion to lower case.
-/

namespace DashFaucet

def trim (s : String) : String := String.ofList (Text.trim s.toList)

/-- What is read of a request: `url.pathname`, `url.host`, `url.search`, `headers.get`, and what
`json()` makes of the body, or throws. -/
structure Request where
  method : String
  path : String
  host : String
  search : String
  header : String → Option String
  body : Except String Json

/-- Constant-time string comparison (digests, MACs, tokens). -/
def digestEquals (a b : String) : Bool :=
  if a.length ≠ b.length then false
  else
    (a.toList.zip b.toList).foldl (fun diff p => diff ||| (p.1.toNat ^^^ p.2.toNat)) 0 = 0

namespace Auth

inductive Provider where
  | google
  | github
  deriving DecidableEq, Repr

/-- A signed-in person: `google:<sub>` or `github:<numeric id>`. -/
structure Identity where
  id : String
  provider : Provider
  email : String
  name : String
  /-- GitHub login, for display. -/
  login : Option String := none
  deriving DecidableEq, Repr

structure Session extends Identity where
  /-- Random per login; the CSRF token is derived from it. -/
  sid : String
  exp : Number

structure AuthConfig where
  /-- No trailing slash. Empty disables login entirely. -/
  origin : String
  sessionSecret : String
  emailDomain : String
  githubOrg : String
  admins : List String
  /-- Whether there is a client at the provider. -/
  configured : Provider → Bool
  /-- 0: self-serve keys never expire. -/
  keyTtlMs : ℤ
  maxKeysPerUser : ℕ

/-! ### Encoding and signing -/

/-- The character of base64url for one of base64. -/
def toUrl (c : Char) : Char := if c = '+' then '-' else if c = '/' then '_' else c

/-- The character of base64 for one of base64url. -/
def ofUrl (c : Char) : Char := if c = '-' then '+' else if c = '_' then '/' else c

def b64url (bytes : List ℕ) : String :=
  String.ofList (((Base64.btoa bytes).map toUrl).rdropWhile (· = '='))

def fromB64url (text : String) : Except String (List ℕ) :=
  if text.toList.all (fun c => c.isAlphanum || c = '_' || c = '-') = false then
    .error "not base64url"
  else
    let fill := List.replicate ((4 - text.length % 4) % 4) '='
    match Base64.atob (text.toList.map ofUrl ++ fill) with
    | some bytes => .ok bytes
    | none => .error "InvalidCharacterError"

section

variable (hmac : List ℕ → List ℕ → List ℕ)

def mac (secret purpose data : String) : String :=
  b64url (hmac (encodeUtf8 secret) (encodeUtf8 (purpose ++ "." ++ data)))

variable {T : Type} (codec : JsonCodec T)

/-- `payload.mac`, where the MAC binds the purpose so a state cookie is never a session. -/
def «seal» (secret purpose : String) (value : T) : String :=
  let payload := b64url (encodeUtf8 (codec.stringify value))
  payload ++ "." ++ mac hmac secret purpose payload

def «unseal» (secret purpose : String) (token : Option String) (now : Number) : Option T :=
  match token.filter (· ≠ "") with
  | none => none
  | some token =>
    match token.toList.splitOn '.' with
    | [payload, signature] =>
      let payload := String.ofList payload
      let signature := String.ofList signature
      -- two parts, neither of them empty
      if payload = "" ∨ signature = "" then none
      else if digestEquals signature (mac hmac secret purpose payload) = false then none
      else
        match fromB64url payload with
        | .error _ => none
        | .ok bytes =>
          match codec.parse (String.ofList (Utf8.decode bytes)) with
          | .error _ => none
          | .ok value =>
            -- an expiry that is no number is none
            match codec.exp value with
            | some exp => if exp > now then some value else none
            | none => none
    | _ => none

end

/-! ### Cookies -/

def sessionCookie : String := "__Host-faucet_session"

def oauthCookie : String := "__Host-faucet_oauth"

def sessionTtlMs : ℤ := 12 * 3600000

def readCookie (request : Request) (name : String) : Option String :=
  (((request.header "Cookie").getD "").toList.splitOn ';').findSome? fun part =>
    let key := part.takeWhile (· ≠ '=')
    if 0 < key.length ∧ key.length < part.length ∧ trim (String.ofList key) = name then
      some (trim (String.ofList (part.drop (key.length + 1))))
    else none

/-- A cookie pinned to this exact host, https and path `/`. -/
def cookie (name value : String) (maxAgeMs : ℤ) : String :=
  s!"{name}={value}; Path=/; Max-Age={max 0 (maxAgeMs / 1000)}; HttpOnly; Secure; SameSite=Lax"

def clearSessionCookie : String := cookie sessionCookie "" 0

section

variable (hmac : List ℕ → List ℕ → List ℕ) (codec : JsonCodec Session)
  (toLowerCase : String → String)

def readSession (request : Request) (cfg : AuthConfig) (now : ℤ) : Option Session :=
  if cfg.sessionSecret = "" then none
  else
    «unseal» hmac codec cfg.sessionSecret "session" (readCookie request sessionCookie)
      (Number.ofInt now)

/-- How `AUTH_ADMINS` names a session: Google by Workspace address, GitHub by numeric id. -/
def adminHandle (session : Session) : String :=
  if session.provider = .google then "google:" ++ toLowerCase session.email else session.id

/-- An admin by name, or by the Workspace of a Google account. -/
def isAdminSession (session : Session) (cfg : AuthConfig) : Bool :=
  if cfg.admins.contains (adminHandle toLowerCase session) then true
  else
    -- the address up to its last `@`, and from there on
    let user := session.email.toList.rdropWhile (· ≠ '@')
    let domain := session.email.toList.drop (user.length - 1)
    decide (session.provider = .google) && decide (1 < user.length) &&
      cfg.admins.contains ("google:" ++ toLowerCase (String.ofList domain))

/-- The browser says this request comes from our own pages. -/
def sameOrigin (request : Request) (cfg : AuthConfig) : Bool :=
  request.header "Origin" = some cfg.origin

/-- Per-session CSRF token, sent back by the UI in `X-CSRF-Token`. -/
def csrfToken (session : Session) (cfg : AuthConfig) : String :=
  mac hmac cfg.sessionSecret "csrf" session.sid

/-- A cookie-authenticated request that changes something must come from our own origin and carry
the session's CSRF token. -/
def checkCsrf (request : Request) (session : Session) (cfg : AuthConfig) : Bool :=
  if request.method = "GET" ∨ request.method = "HEAD" then true
  else if sameOrigin request cfg = false then false
  else digestEquals ((request.header "X-CSRF-Token").getD "") (csrfToken hmac session cfg)

end

def enabledProviders (cfg : AuthConfig) : List Provider :=
  [Provider.google, .github].filter cfg.configured

end Auth

end DashFaucet

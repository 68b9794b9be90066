import DashFaucet.Amounts
import DashFaucet.Data.Query
import DashFaucet.Portal

/-!
# The login

The OAuth round trip of `auth.ts`: the redirect to a provider, and the identity its callback yields.
Its steps are programs that fetch: the provider's token endpoint, Google's published keys, GitHub's
API. Google's keys are cached for all requests, so the programs share a store.

HMAC and SHA-256, WebCrypto's import and verification of keys, JSON and the conversions of strings
stay parameters.

* `Libraries`, `LoginConfig`, `World`, `Query`: what a login reads, and what it asks.
* `googleKey`, `verifyGoogleIdToken`, `googleIdentity`: sign-in with Google.
* `githubIdentity`: sign-in with GitHub.
* `startLogin`, `finishLogin`: the two steps; `auth` is `/auth/*` with both of them in place.
-/

namespace DashFaucet.Login

open Auth Portal

/-! ### Values of the language -/

/-- A property of a value: reading one of `null` throws. -/
def property (value : Json) (name : String) : Except String (Option Json) :=
  match value with
  | .null => .error s!"Cannot read properties of null (reading '{name}')"
  | .obj fields => .ok (fields.lookup name)
  | _ => .ok none

/-- `value?.name`. -/
def optional (value : Option Json) (name : String) : Option Json :=
  match value with
  | some (.obj fields) => fields.lookup name
  | _ => none

/-- What counts as true. -/
def truthy : Option Json → Bool
  | none | some .null => false
  | some (.bool b) => b
  | some (.num n) => n ≠ Number.ofInt 0
  | some (.str s) => s ≠ ""
  | some (.arr _) | some (.obj _) => true

def isTrue : Option Json → Bool
  | some (.bool b) => b
  | _ => false

def isText (value : Option Json) (text : String) : Bool :=
  match value with
  | some (.str s) => s = text
  | _ => false

/-- Equal as keys of a map. An array or an object is only equal to itself, and what two texts stand
for is never the same one. -/
def sameKey : Json → Json → Bool
  | .null, .null => true
  | .bool a, .bool b => a = b
  | .num a, .num b => a = b
  | .str a, .str b => a = b
  | _, _ => false

/-- `value ?? next ?? …`. -/
def firstSet : List (Option Json) → Option Json
  | [] => none
  | none :: values | some .null :: values => firstSet values
  | some value :: _ => some value

def endsWith (text suffix : String) : Bool := suffix.toList.isSuffixOf text.toList

/-- `url.searchParams.get(name)`. -/
def searchParam (search name : String) : Option String :=
  let query := if search.toList.head? = some '?' then search.toList.tail else search.toList
  (Query.get (Query.parse query) name.toList).map String.ofList

def queryText (pairs : List (String × String)) : String :=
  String.ofList (Query.serialize (pairs.map fun p => (p.1.toList, p.2.toList)))

def encodeURIComponent (text : String) : String :=
  String.ofList (Query.encodeURIComponent text.toList)

/-! ### What a login reads -/

/-- What a login keeps in its cookie while the provider is asked. -/
structure OAuthState where
  provider : Auth.Provider
  state : String
  nonce : String
  verifier : String
  returnTo : String
  exp : Number

structure Libraries where
  hmac : List ℕ → List ℕ → List ℕ
  /-- A digest is 32 bytes. -/
  digest : ∀ key message, (hmac key message).length = 32 ∧ ∀ b ∈ hmac key message, b < 256
  sha256 : List ℕ → List ℕ
  sessions : JsonCodec Session
  /-- The `exp` of a session is a field of its own. -/
  sessions_exp : sessions.exp = fun session => some session.exp
  flows : JsonCodec OAuthState
  flows_exp : flows.exp = fun flow => some flow.exp
  parseJson : String → Except String Json
  toLowerCase : String → String
  toUpperCase : String → String
  /-- `new URL(origin).host`. -/
  hostOf : String → String
  /-- A number in a template. -/
  numberText : Number → String
  /-- Any value in a template. -/
  templateText : Option Json → String
  /-- `crypto.subtle.importKey` takes this key. -/
  importable : Json → Bool
  /-- `crypto.subtle.verify` of a signature and a message under a key. -/
  verify : Json → List ℕ → List ℕ → Bool

def Libraries.runtime (lib : Libraries) : Runtime where
  hmac := lib.hmac
  digest := lib.digest
  sha256 := lib.sha256
  stringifySession := lib.sessions.stringify
  parseSession := lib.sessions.parse
  toLowerCase := lib.toLowerCase
  toUpperCase := lib.toUpperCase
  hostOf := lib.hostOf
  searchParam := searchParam
  encodeURIComponent := encodeURIComponent
  numberText := lib.numberText
  parseAmountSats := parseAmountSats

structure OAuthClient where
  clientId : String
  clientSecret : String

/-- The configuration of the portal with the clients at the providers. -/
structure LoginConfig extends PortalConfig where
  client : Auth.Provider → Option OAuthClient
  configured : ∀ provider, auth.configured provider = (client provider).isSome

inductive Body where
  | none
  | form (pairs : List (String × String))
  | json (value : Json)

structure Fetch where
  url : String
  method : String
  headers : List (String × String)
  body : Body

/-- A response: its status, and what `json()` makes of its body or throws. -/
structure FetchReply where
  status : ℕ
  json : Except String Json

def FetchReply.ok (reply : FetchReply) : Bool := 200 ≤ reply.status && reply.status ≤ 299

/-- Google's keys by their `kid`, the one set last first. -/
structure JwksCache where
  keys : List (Json × Json)
  expires : ℤ

def JwksCache.find (cache : JwksCache) (kid : Json) : Option Json :=
  (cache.keys.find? fun key => sameKey key.1 kid).map Prod.snd

/-- A fetch and how it ended. -/
structure Heard where
  request : Fetch
  reply : Except String FetchReply
  time : ℤ

/-- A request that was answered, and when. -/
structure Served where
  request : Request
  response : Response
  time : ℤ

/-- What the requests share: the time, and the cached keys. What was fetched, which requests came
when, and what they were answered, is a record for the proofs. -/
structure World where
  now : ℤ
  jwks : Option JwksCache
  heard : List Heard
  came : List (Request × ℤ)
  served : List Served

inductive Query where
  | fetch (request : Fetch)
  | portal (q : Portal.Query)

def Query.Answer : Query → Type
  | .fetch _ => Except String FetchReply
  | .portal q => q.Answer

abbrev Prog := Async Query Query.Answer World String

def ask (q : Query) : Prog q.Answer := Async.ask q

def fetch (request : Fetch) : Prog FetchReply := do
  let reply ← ask (.fetch request)
  Async.ofExcept reply

/-- `Date.now()`. -/
def now : Prog ℤ := do
  let world ← Async.read
  pure world.now

def random (count : ℕ) : Prog (List ℕ) := ask (.portal (.random count))

/-- `try … finally`: what the cleanup throws takes the place of everything else. -/
def finallyDo {α : Type} (p : Prog α) (cleanup : Prog Unit) : Prog α := do
  let result ← p.attempt
  cleanup
  Async.ofExcept result

def userAgent : String :=
  "dash-faucet-cf (+https://github.com/PastaPastaPasta/dash-faucet-cf)"

section

variable (lib : Libraries)

/-- `(value ?? "").toLowerCase()`. -/
def lowerCase (value : Option Json) : Except String String :=
  match value with
  | none | some .null => .ok (lib.toLowerCase "")
  | some (.str s) => .ok (lib.toLowerCase s)
  | some _ => .error "toLowerCase is not a function"

/-! ### Google -/

def googleIssuers : List String := ["https://accounts.google.com", "accounts.google.com"]

def googleJwks : String := "https://www.googleapis.com/oauth2/v3/certs"

def jwksRequest : Fetch := ⟨googleJwks, "GET", [("User-Agent", userAgent)], .none⟩

/-- What `for (const jwk of body.keys ?? [])` goes through. -/
def jwkList (body : Json) : Except String (List Json) :=
  match body with
  -- an array has a method of this name
  | .arr _ => .error "body.keys is not iterable"
  | body => do
    let keys ← property body "keys"
    match keys with
    | none | some .null | some (.str _) => .ok []
    | some (.arr items) => .ok items
    | some _ => .error "body.keys is not iterable"

/-- The RSA keys among them, by `kid`. -/
def keyTable : List Json → List (Json × Json) → Except String (List (Json × Json))
  | [], keys => .ok keys
  | jwk :: jwks, keys => do
    let kty ← property jwk "kty"
    let kid ← property jwk "kid"
    match kid with
    | some kid =>
      -- keys of other kinds are passed over, one that cannot be imported ends the fetch
      if isText kty "RSA" = false ∨ truthy (some kid) = false then keyTable jwks keys
      else if lib.importable jwk = false then .error "DataError"
      else keyTable jwks ((kid, jwk) :: keys)
    | none => keyTable jwks keys

/-- The keys that a reply of the JWKS endpoint publishes. -/
def publishedKeys (reply : FetchReply) : Except String (List (Json × Json)) := do
  let body ← reply.json
  let jwks ← jwkList body
  keyTable lib jwks []

/-- The cached key of an id, unless the cache is stale or does not have it. -/
def cachedKey (world : World) (kid : Json) : Option Json :=
  (world.jwks.filter fun cache => world.now < cache.expires).bind fun cache => cache.find kid

def googleKey (kid : Json) : Prog (Option Json) := do
  let world ← Async.read
  match cachedKey world kid with
  | some key => pure (some key)
  | none => do
    let reply ← fetch jwksRequest
    if reply.ok = false then .throw s!"JWKS HTTP {reply.status}"
    else do
      let keys ← Async.ofExcept (publishedKeys lib reply)
      -- kept for an hour, also when the key is not among them
      Async.modify fun world =>
        { world with jwks := some { keys, expires := world.now + 3600000 } }
      pure (JwksCache.find { keys, expires := 0 } kid)

/-- A part of a JWT: `JSON.parse(dec.decode(fromB64url(part)))`. -/
def jwtPart (part : String) : Except String Json := do
  let bytes ← fromB64url part
  lib.parseJson (String.ofList (Utf8.decode bytes))

def clockSkew : ℤ := 60

/-- The claims are by Google, for this client, of this login, and not out of date. -/
def claimsHold (claims : Json) (clientId nonce : String) (seconds : ℤ) : Except String Bool := do
  let iss ← property claims "iss"
  let aud ← property claims "aud"
  let exp ← property claims "exp"
  let iat ← property claims "iat"
  let given ← property claims "nonce"
  .ok (googleIssuers.any (isText iss) && isText aud clientId &&
    (match exp with
      | some (.num exp) => !decide (exp + Number.ofInt clockSkew < Number.ofInt seconds)
      | _ => false) &&
    (match iat with
      -- `iat - skew > seconds`
      | some (.num iat) => !decide (Number.ofInt (seconds + clockSkew) < iat)
      | _ => false) &&
    (match given with
      | some (.str given) => digestEquals given nonce
      | _ => false))

/-- Verify a Google ID token's signature and claims; `none` when any check fails. -/
def verifyGoogleIdToken (idToken clientId nonce : String) : Prog (Option Json) := do
  let time ← now
  match (idToken.toList.splitOn '.').map String.ofList with
  | [headerB64, payloadB64, signatureB64] =>
    if headerB64 = "" ∨ payloadB64 = "" ∨ signatureB64 = "" then pure none
    else do
      let header ← Async.ofExcept (jwtPart lib headerB64)
      let alg ← Async.ofExcept (property header "alg")
      let kid ← Async.ofExcept (property header "kid")
      -- RS256 only, so no token chooses how it is verified
      match kid.filter fun kid => isText alg "RS256" && truthy (some kid) with
      | none => pure none
      | some kid => do
        let key ← googleKey lib kid
        match key with
        | none => pure none
        | some key => do
          let signature ← Async.ofExcept (fromB64url signatureB64)
          if lib.verify key signature (encodeUtf8 (headerB64 ++ "." ++ payloadB64)) = false then
            pure none
          else do
            -- read only once the signature holds
            let claims ← Async.ofExcept (jwtPart lib payloadB64)
            let hold ← Async.ofExcept (claimsHold claims clientId nonce (time / 1000))
            pure (if hold then some claims else none)
  | _ => pure none

def callbackUrl (cfg : AuthConfig) (provider : Auth.Provider) : String :=
  cfg.origin ++ "/auth/" ++ providerName provider ++ "/callback"

def postFormRequest (url : String) (form : List (String × String)) : Fetch :=
  ⟨url, "POST", [("content-type", "application/x-www-form-urlencoded"),
    ("accept", "application/json"), ("User-Agent", userAgent)], .form form⟩

/-- `String(body.error ?? "")`. -/
def errorText (error : Option Json) : String :=
  match error with
  | none | some .null => ""
  | some error => lib.templateText (some error)

/-- What a token endpoint answered, if that is no error. -/
def tokens (reply : FetchReply) : Except String Json := do
  let body := match reply.json with
    | .ok body => body
    | .error _ => .obj []
  let error ← property body "error"
  let refused := .error s!"token exchange: HTTP {reply.status} {errorText lib error}"
  match reply.ok, error with
  | true, some (.str _) => refused
  | true, _ => .ok body
  | false, _ => refused

def postForm (url : String) (form : List (String × String)) : Prog Json := do
  let reply ← fetch (postFormRequest url form)
  Async.ofExcept (tokens lib reply)

def googleTokenUrl : String := "https://oauth2.googleapis.com/token"

def googleForm (client : OAuthClient) (cfg : AuthConfig) (code : String) (flow : OAuthState) :
    List (String × String) :=
  [("code", code), ("client_id", client.clientId), ("client_secret", client.clientSecret),
    ("redirect_uri", callbackUrl cfg .google), ("grant_type", "authorization_code"),
    ("code_verifier", flow.verifier)]

/-- What Google is asked for tokens. -/
def googleExchange (client : OAuthClient) (cfg : AuthConfig) (code : String) (flow : OAuthState) :
    Fetch :=
  postFormRequest googleTokenUrl (googleForm client cfg code flow)

/-- A name that is given, or what stands for it. -/
def nameOr (name : Option Json) (fallback : String) : String :=
  match name with
  | some (.str name) => if name = "" then fallback else name
  | _ => fallback

/-- Whom verified claims stand for, if that is one of the Workspace. -/
def claimedIdentity (cfg : AuthConfig) (claims : Json) : Except String (Option Identity) := do
  let email ← property claims "email" >>= lowerCase lib
  let verified ← property claims "email_verified"
  if isTrue verified = false then .ok none
  else do
    let hd ← property claims "hd" >>= lowerCase lib
    -- the hosted domain and the address must both be of the domain
    if hd ≠ cfg.emailDomain ∨ endsWith email ("@" ++ cfg.emailDomain) = false then .ok none
    else do
      let sub ← property claims "sub"
      let name ← property claims "name"
      .ok (some
        { id := "google:" ++ lib.templateText sub, provider := .google, email := email
          name := nameOr name email })

def googleIdentity (client : OAuthClient) (cfg : AuthConfig) (code : String) (flow : OAuthState) :
    Prog (Option Identity) := do
  let tokens ← postForm lib googleTokenUrl (googleForm client cfg code flow)
  let idToken ← Async.ofExcept (property tokens "id_token")
  match idToken with
  | some (.str idToken) => do
    let claims ← verifyGoogleIdToken lib idToken client.clientId flow.nonce
    match claims with
    | none => .throw "ID token failed verification"
    | some claims => Async.ofExcept (claimedIdentity lib cfg claims)
  | _ => .throw "token response had no id_token"

/-! ### GitHub -/

def githubTokenUrl : String := "https://github.com/login/oauth/access_token"

def githubForm (client : OAuthClient) (cfg : AuthConfig) (code : String) (flow : OAuthState) :
    List (String × String) :=
  [("code", code), ("client_id", client.clientId), ("client_secret", client.clientSecret),
    ("redirect_uri", callbackUrl cfg .github), ("code_verifier", flow.verifier)]

/-- What GitHub is asked for tokens. -/
def githubExchange (client : OAuthClient) (cfg : AuthConfig) (code : String) (flow : OAuthState) :
    Fetch :=
  postFormRequest githubTokenUrl (githubForm client cfg code flow)

def githubGet (token path : String) : Fetch :=
  ⟨"https://api.github.com" ++ path, "GET",
    [("Authorization", "Bearer " ++ token), ("Accept", "application/vnd.github+json"),
      ("X-GitHub-Api-Version", "2022-11-28"), ("User-Agent", userAgent)], .none⟩

def membershipPath (cfg : AuthConfig) : String :=
  "/user/memberships/orgs/" ++ encodeURIComponent cfg.githubOrg

/-- `btoa`, which takes no character past U+00FF. -/
def btoa (text : String) : Except String String :=
  if text.toList.all fun c => c.toNat < 256 then
    .ok (String.ofList (Base64.btoa (text.toList.map Char.toNat)))
  else .error "InvalidCharacterError"

def revokeRequest (client : OAuthClient) (token basic : String) : Fetch :=
  ⟨"https://api.github.com/applications/" ++ encodeURIComponent client.clientId ++ "/token",
    "DELETE",
    [("Authorization", "Basic " ++ basic), ("Accept", "application/vnd.github+json"),
      ("User-Agent", userAgent)], .json (.obj [("access_token", .str token)])⟩

/-- The token was only ever needed for the reads. Whether it is gone is not looked at. -/
def revoke (client : OAuthClient) (token : String) : Prog Unit := do
  let basic ← Async.ofExcept (btoa (client.clientId ++ ":" ++ client.clientSecret))
  let _ ← ask (.fetch (revokeRequest client token basic))
  pure ()

/-- The first verified address in the domain. -/
def domainEmail (cfg : AuthConfig) : List Json → Except String (Option Json)
  | [] => .ok none
  | entry :: entries => do
    let verified ← property entry "verified"
    if isTrue verified = false then domainEmail cfg entries
    else do
      let email ← property entry "email"
      let lower ← lowerCase lib email
      if endsWith lower ("@" ++ cfg.emailDomain) then .ok email else domainEmail cfg entries

/-- `emails.find((e) => e.primary && e.verified)?.email`. -/
def primaryEmail : List Json → Except String (Option Json)
  | [] => .ok none
  | entry :: entries => do
    let primary ← property entry "primary"
    let verified ← property entry "verified"
    if truthy primary && truthy verified then property entry "email" else primaryEmail entries

/-- The account's addresses, none when GitHub does not show them. -/
def emailList (reply : FetchReply) : Except String (List Json) :=
  if reply.ok then do
    match ← reply.json with
    | .arr items => .ok items
    | _ => .error "emails.find is not a function"
  else .ok []

/-- The account is an active member of the organization. -/
def isMember (cfg : AuthConfig) (reply : FetchReply) : Except String Bool :=
  if reply.ok then do
    let membership ← reply.json
    if isText (optional (some membership) "state") "active" then do
      let login ← lowerCase lib (optional (optional (some membership) "organization") "login")
      .ok (login = lib.toLowerCase cfg.githubOrg)
    else .ok false
  else .ok false

/-- Whom GitHub's answers stand for, if either check lets them in. -/
def githubAccount (cfg : AuthConfig) (id : Number) (login : String) (name : Option Json)
    (emailsRes memberRes : FetchReply) : Except String (Option Identity) := do
  let emails ← emailList emailsRes
  let inDomain ← domainEmail lib cfg emails
  let member ← isMember lib cfg memberRes
  -- an address of the domain or membership, either will do
  if inDomain.isNone ∧ member = false then .ok none
  else do
    let primary ← primaryEmail emails
    let email ← lowerCase lib
      (firstSet [inDomain, primary, some (.str (login ++ "@users.noreply.github.com"))])
    .ok (some
      { id := "github:" ++ lib.numberText id, provider := .github, email := email
        name := nameOr name login, login := some login })

/-- The reads. Both checks are under way before either is looked at. -/
def githubReads (cfg : AuthConfig) (token : String) : Prog (Option Identity) := do
  let userRes ← fetch (githubGet token "/user")
  if userRes.ok = false then .throw s!"/user HTTP {userRes.status}"
  else do
    let user ← Async.ofExcept userRes.json
    let id ← Async.ofExcept (property user "id")
    let login ← Async.ofExcept (property user "login")
    let name ← Async.ofExcept (property user "name")
    match id, login with
    | some (.num id), some (.str login) => do
      -- both are asked before either is looked at
      let emailsRes ← ask (.fetch (githubGet token "/user/emails"))
      let memberRes ← ask (.fetch (githubGet token (membershipPath cfg)))
      let emailsRes ← Async.ofExcept emailsRes
      let memberRes ← Async.ofExcept memberRes
      Async.ofExcept (githubAccount lib cfg id login name emailsRes memberRes)
    | _, _ => .throw "/user had no id"

def githubIdentity (client : OAuthClient) (cfg : AuthConfig) (code : String) (flow : OAuthState) :
    Prog (Option Identity) := do
  let tokens ← postForm lib githubTokenUrl (githubForm client cfg code flow)
  let token ← Async.ofExcept (property tokens "access_token")
  match token with
  | some (.str token) =>
    if token = "" then .throw "token response had no access_token"
    else finallyDo (githubReads lib cfg token) (revoke client token)
  | _ => .throw "token response had no access_token"

/-! ### The two steps -/

def oauthTtlMs : ℤ := 10 * 60000

/-- Pages a login may return to. Anything else returns to `/keys`. -/
def returnPaths : List String := ["/keys", "/admin"]

def returnPath (returnParam : Option String) : String :=
  (returnParam.filter (returnPaths.contains ·)).getD "/keys"

def pkceChallenge (verifier : String) : String := b64url (lib.sha256 (encodeUtf8 verifier))

/-- What the provider's consent page is asked with. -/
def consentParams (client : OAuthClient) (cfg : AuthConfig) (flow : OAuthState) :
    List (String × String) :=
  match flow.provider with
  | .google =>
    [("client_id", client.clientId), ("redirect_uri", callbackUrl cfg .google),
      ("response_type", "code"), ("scope", "openid email profile"), ("state", flow.state),
      ("nonce", flow.nonce), ("code_challenge", pkceChallenge lib flow.verifier),
      ("code_challenge_method", "S256"), ("hd", cfg.emailDomain), ("prompt", "select_account")]
  -- no nonce: GitHub returns no ID token
  | .github =>
    [("client_id", client.clientId), ("redirect_uri", callbackUrl cfg .github),
      ("scope", "read:user user:email read:org"), ("state", flow.state),
      ("code_challenge", pkceChallenge lib flow.verifier), ("code_challenge_method", "S256"),
      ("allow_signup", "false")]

def consentPage : Auth.Provider → String
  | .google => "https://accounts.google.com/o/oauth2/v2/auth"
  | .github => "https://github.com/login/oauth/authorize"

/-- The redirect of a login that has begun. -/
def consent (client : OAuthClient) (cfg : AuthConfig) (flow : OAuthState) : Response :=
  redirect (consentPage flow.provider ++ "?" ++ queryText (consentParams lib client cfg flow))
    [cookie oauthCookie («seal» lib.hmac lib.flows cfg.sessionSecret "oauth" flow) oauthTtlMs]

/-- `GET /auth/<provider>/login?return=/admin`: the provider's consent page. -/
def startLogin (provider : Auth.Provider) (client : OAuthClient) (cfg : AuthConfig)
    (returnParam : Option String) : Prog Response := do
  let state ← random 32
  let nonce ← random 32
  let verifier ← random 48
  let time ← now
  pure (consent lib client cfg
    { provider, state := b64url state, nonce := b64url nonce, verifier := b64url verifier
      returnTo := returnPath returnParam, exp := Number.ofInt (time + oauthTtlMs) })

/-- The flow of a callback's cookie, if the callback is of that flow. -/
def checkState (provider : Auth.Provider) (cfg : AuthConfig) (request : Request) (time : ℤ) :
    Option OAuthState × Bool :=
  let flow := «unseal» lib.hmac lib.flows cfg.sessionSecret "oauth"
    (readCookie request oauthCookie) (Number.ofInt time)
  let state := (searchParam request.search "state").getD ""
  (flow, flow.any fun flow => flow.provider = provider && digestEquals state flow.state)

/-- `GET /auth/<provider>/callback`. -/
def finishLogin (provider : Auth.Provider) (client : OAuthClient) (cfg : AuthConfig)
    (request : Request) : Prog LoginOutcome := do
  let time ← now
  match checkState lib provider cfg request time with
  | (some flow, true) =>
    -- the user said no
    if (searchParam request.search "error").any (· ≠ "") then
      pure (.error "denied" flow.returnTo)
    else
      match (searchParam request.search "code").filter (· ≠ "") with
      | none => pure (.error "state" flow.returnTo)
      | some code => do
        let result ← (match provider with
          | .google => googleIdentity lib client cfg code flow
          | .github => githubIdentity lib client cfg code flow).attempt
        pure (match result with
          | .ok (some identity) => .ok identity flow.returnTo
          | .ok none => .error "domain" flow.returnTo
          | .error _ => .error "provider" flow.returnTo)
  -- no flow or another one: back to where it began, if that is known
  | (flow, _) => pure (.error "state" ((flow.map OAuthState.returnTo).getD "/keys"))

/-- What the portal asks, answered by the steps of a login. -/
def answer (cfg : LoginConfig) (request : Request) : (q : Portal.Query) → Prog q.Answer
  | .startLogin provider returnParam =>
    match cfg.client provider with
    | some client => startLogin lib provider client cfg.auth returnParam
    | none => .throw "not configured"
  | .finishLogin provider =>
    match cfg.client provider with
    | some client => finishLogin lib provider client cfg.auth request
    | none => .throw "not configured"
  -- the rest is the world's to answer
  | .clock => now
  | .store call => ask (.portal (.store call))
  | .asset => ask (.portal .asset)
  | .random count => ask (.portal (.random count))

/-- `/auth/*`. -/
def auth (cfg : LoginConfig) (request : Request) : Prog Response :=
  Async.handle (answer lib cfg request) (handleAuth lib.runtime cfg.toPortalConfig request)

end

end DashFaucet.Login

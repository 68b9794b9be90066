import DashFaucet.Amounts
import DashFaucet.Async.Program
import DashFaucet.Auth
import DashFaucet.Treasury.Accounts

/-!
# The signed-in surface

`/auth/*`, `/api/me/*` and `/api/admin/*` (`portal.ts`, with the responses of `http.ts` and the
bearer tokens of `apikeys.ts`). A handler is a program that only asks: the methods of the Treasury,
the steps of a login, which speak to the providers and not to the Treasury, the clock after an
await, and randomness. The methods of the Treasury are named here with the data that reaches them;
what they do there is `Admin`'s.
-/

namespace DashFaucet

/-! ### Responses -/

structure Response where
  status : ℕ
  headers : List (String × String) := []
  body : Option Json := none

def cors : List (String × String) :=
  [("Access-Control-Allow-Origin", "*"),
    ("Access-Control-Allow-Methods", "GET, POST, PATCH, DELETE, OPTIONS"),
    ("Access-Control-Allow-Headers", "Content-Type, Authorization")]

def json (body : Json) (status : ℕ) (headers : List (String × String)) : Response :=
  { status, headers := ("content-type", "application/json") :: cors ++ headers, body := some body }

/-- Error body carrying both the flat shape and a nested `detail`. -/
def errorJson (status : ℕ) (error : String) (headers : List (String × String)) : Response :=
  json (.obj [("error", .str error), ("detail", .obj [("error", .str error)])]) status headers

def noStoreHeader : List (String × String) := [("Cache-Control", "no-store")]

def noStore (body : Json) (status : ℕ) : Response := json body status noStoreHeader

def redirect (location : String) (cookies : List String) : Response :=
  { status := 302
    headers := ("Location", location) :: noStoreHeader ++ cookies.map fun c => ("Set-Cookie", c) }

/-- The request's JSON object body, or the 400 to send instead. -/
def readJsonObject (request : Request) : Except Response (List (String × Json)) :=
  match request.body with
  | .error _ => .error (errorJson 400 "Request body must be JSON" [])
  | .ok (.obj fields) => .ok fields
  | .ok _ => .error (errorJson 400 "Request body must be a JSON object" [])

/-! ### Bearer tokens -/

/-- What `/^Bearer\s+(\S+)\s*$/i` captures. -/
def bearerMatch (header : String) : Option String :=
  let chars := header.toList
  let rest := chars.drop 6
  let token := (rest.dropWhile Text.isWhite).takeWhile (!Text.isWhite ·)
  if (chars.take 6).map Char.toLower = "bearer".toList ∧ rest.head?.any Text.isWhite ∧ token ≠ [] ∧
      ((rest.dropWhile Text.isWhite).dropWhile (!Text.isWhite ·)).all Text.isWhite then
    some (String.ofList token)
  else none

/-- `/^Bearer\s/i.test(header)`. -/
def isBearer (header : String) : Bool :=
  (header.toList.take 6).map Char.toLower = "bearer".toList &&
    (header.toList.drop 6).head?.any Text.isWhite

/-- The bearer token from an `Authorization` header, or undefined when there is none. A header of
another shape is returned as it is. -/
def bearerToken (request : Request) : Option String :=
  ((request.header "Authorization").filter (· ≠ "")).map fun header =>
    (bearerMatch header).getD header

namespace Portal

/-! ### What a handler asks -/

inductive IssueReply where
  | ok (token key : Json)
  | limit
  | notFound

/-- A method of the Treasury that the portal calls. -/
inductive StoreCall where
  | recordLogin (who : Auth.Identity)
  | listApiKeys (owner : Option String)
  | createApiKey (input : MintKeyInput)
  | revokeApiKey (id : String) (owner admin : Option String)
  | issueOwnKey (who : Auth.Identity) (label : Option String) (maxActive : ℕ) (ttlMs : ℤ)
      (replacing : Option String)
  | createCodes (input : NewCodes)
  | listCodes
  | getCode (id : String)
  | updateCode (id : String) (patch : CodePatch) (editor : String)

/-- What it returns. Rows are passed on as the JSON they are sent as; `createCodes` may name a code
that exists. -/
def StoreCall.Answer : StoreCall → Type
  | .recordLogin _ => Unit
  | .listApiKeys _ => Json
  | .createApiKey _ => Json
  | .revokeApiKey .. => Bool
  | .issueOwnKey .. => IssueReply
  | .createCodes _ => Except String Json
  | .listCodes => Json
  | .getCode _ => Option Json
  | .updateCode .. => Option Json

/-- It changes keys or codes. -/
def StoreCall.Mutating : StoreCall → Prop
  | .createApiKey _ | .revokeApiKey .. | .issueOwnKey .. | .createCodes _ | .updateCode .. => True
  | .recordLogin _ | .listApiKeys _ | .listCodes | .getCode _ => False

inductive LoginOutcome where
  | ok (identity : Auth.Identity) (returnTo : String)
  | error (error returnTo : String)

inductive Query where
  | store (call : StoreCall)
  | asset
  | startLogin (provider : Auth.Provider) (returnParam : Option String)
  | finishLogin (provider : Auth.Provider)
  | clock
  | random (count : ℕ)

def Query.Answer : Query → Type
  | .store call => Except String call.Answer
  | .asset => Except String Response
  | .startLogin .. => Response
  | .finishLogin _ => LoginOutcome
  | .clock => ℤ
  | .random _ => List ℕ

/-- A handler: it asks, and nothing else. -/
abbrev Prog := Async Query Query.Answer Unit String

def ask (q : Query) : Prog q.Answer := Async.ask q

def callStore (call : StoreCall) : Prog call.Answer := do
  let answer ← ask (.store call)
  Async.ofExcept answer

/-- What the handlers take from the runtime and from libraries, and `parseAmountSats`, which
computes in doubles. -/
structure Runtime where
  hmac : List ℕ → List ℕ → List ℕ
  /-- A digest is 32 bytes. -/
  digest : ∀ key message, (hmac key message).length = 32 ∧ ∀ b ∈ hmac key message, b < 256
  sha256 : List ℕ → List ℕ
  stringifySession : Auth.Session → String
  /-- `JSON.parse` of what is sealed as a session. -/
  parseSession : String → Except String Auth.Session
  toLowerCase : String → String
  toUpperCase : String → String
  /-- `new URL(origin).host`. -/
  hostOf : String → String
  searchParam : String → String → Option String
  encodeURIComponent : String → String
  /-- A number in a template. -/
  numberText : Number → String
  parseAmountSats : Json → Option ℕ

/-- JSON on sessions. -/
def Runtime.sessions (rt : Runtime) : JsonCodec Auth.Session where
  stringify := rt.stringifySession
  parse := rt.parseSession
  exp session := some session.exp

/-- The part of the configuration that the portal reads. -/
structure PortalConfig where
  auth : Auth.AuthConfig
  enabled : Bool
  adminTokenSha256 : String
  maxPerRequestSats : ℕ

/-! ### Fields -/

def maxVouchersPerBatch : ℤ := 200

def maxRedemptionsLimit : ℤ := 100000

def maxSafeInteger : ℤ := 2 ^ 53 - 1

def labelRule : String := "label must be a non-empty string of at most 100 characters"

def expiryRule : String := "expiresAt must be a future time in epoch milliseconds, or null"

def maxRedemptionsRule : String :=
  s!"maxRedemptions must be an integer from 1 to {maxRedemptionsLimit}"

/-- The length of a string in the language: in UTF-16. -/
def utf16Length (s : String) : ℕ :=
  (s.toList.map fun c => if c.toNat < 0x10000 then 1 else 2).sum

def intInRange (value : Json) (min max : ℤ) : Option ℤ :=
  match value with
  | .num n => n.toInt?.filter fun i => min ≤ i ∧ i ≤ max
  | _ => none

def parseLabel (value : Json) : Option String :=
  match value with
  | .str s => if trim s ≠ "" ∧ utf16Length s ≤ 100 then some (trim s) else none
  | _ => none

/-- `expiresAt` as epoch milliseconds in the future, or null to clear. -/
def parseExpiry (now : ℤ) (value : Json) : Option (Option ℤ) :=
  match value with
  | .null => some none
  | .num n => (n.toInt?.filter fun i => |i| ≤ maxSafeInteger ∧ i > now).map some
  | _ => none

def parseMaxRedemptions (value : Json) : Option ℕ :=
  (intInRange value 1 maxRedemptionsLimit).map Int.toNat

def parseDisabled (value : Json) : Option Bool :=
  match value with
  | .bool b => some b
  | _ => none

def parseTier (value : Option Json) : Option KeyTier :=
  match value with
  | some (.str "trusted") => some .trusted
  | some (.str "mn") => some .mn
  | _ => none

def parseKind (value : Option Json) : Option CodeKind :=
  match value with
  | some (.str "event") => some .event
  | some (.str "voucher") => some .voucher
  | _ => none

/-- A field that may be left out: what it reads as, or the 400 that states its rule. -/
def field {α : Type} (value : Option Json) (parse : Json → Option α) (rule : String) :
    Except Response (Option α) :=
  match value with
  | none => .ok none
  | some value =>
    match parse value with
    | some a => .ok (some a)
    | none => .error (errorJson 400 rule [])

/-- The id in `^pre([0-9a-f]{12})post$`. -/
def hexId (pre post path : String) : Option String :=
  let rest := path.toList.drop pre.toList.length
  let id := rest.take 12
  if pre.toList.isPrefixOf path.toList ∧ id.length = 12 ∧ id.all (oneOf "0123456789abcdef") ∧
      rest.drop 12 = post.toList then
    some (String.ofList id)
  else none

def startsWith (path pre : String) : Bool := pre.toList.isPrefixOf path.toList

/-- A typeable event code: letters, digits and dashes, 4–32 characters. -/
def isEventCode (display : String) : Bool :=
  let plain := fun c : Char => c.isUpper || c.isDigit
  let chars := display.toList
  decide (4 ≤ chars.length) && decide (chars.length ≤ 32) && chars.head?.any plain &&
    chars.getLast?.any plain && chars.all (fun c => plain c || c = '-') &&
    decide (4 ≤ (codeKey display).length)

def voucherAlphabet : String := "0123456789ABCDEFGHJKMNPQRSTVWXYZ"

/-- `XXXX-XXXX-XXXX`: 60 random bits. -/
def generateVoucherCode : Prog String := do
  let bytes ← ask (.random 12)
  let chars := bytes.map fun b => voucherAlphabet.toList.getD (b % 32) '0'
  pure (String.ofList
    (['-'].intercalate ([0, 4, 8].map fun i => (chars.drop i).take 4)))

/-! ### The login -/

section

variable (rt : Runtime) (cfg : PortalConfig) (request : Request)

/-- Response for a finished login: session cookie on success, state cookie cleared either way. -/
def loginResponse (outcome : LoginOutcome) : Prog Response :=
  -- however it ended, the flow is over
  let clearState := Auth.cookie Auth.oauthCookie "" 0
  match outcome with
  | .error error returnTo =>
    pure (redirect (returnTo ++ "?error=" ++ rt.encodeURIComponent error) [clearState])
  | .ok identity returnTo => do
    let sid ← ask (.random 16)
    let now : ℤ ← ask .clock
    let session : Auth.Session :=
      { identity with sid := Auth.b64url sid, exp := Number.ofInt (now + Auth.sessionTtlMs) }
    let sealed := Auth.seal rt.hmac rt.sessions cfg.auth.sessionSecret "session" session
    pure (redirect returnTo
      [clearState, Auth.cookie Auth.sessionCookie sealed Auth.sessionTtlMs])

/-- The provider and the step of a login path. -/
def loginPath (path : String) : Option (Auth.Provider × Bool) :=
  match path with
  | "/auth/google/login" => some (.google, true)
  | "/auth/google/callback" => some (.google, false)
  | "/auth/github/login" => some (.github, true)
  | "/auth/github/callback" => some (.github, false)
  | _ => none

def providerName : Auth.Provider → String
  | .google => "google"
  | .github => "github"

def handleAuth : Prog Response :=
  if request.path = "/auth/logout" ∧ request.method = "POST" then
    -- another site must not sign the user out
    if cfg.auth.origin ≠ "" ∧ Auth.sameOrigin request cfg.auth = false then
      pure (errorJson 403 "Cross-origin request refused" [])
    else
      pure { status := 204, headers := ("Set-Cookie", Auth.clearSessionCookie) :: noStoreHeader }
  else
    match (loginPath request.path).filter fun _ => request.method = "GET" with
    | none => pure (errorJson 404 "Not found" [])
    | some (provider, login) =>
      if cfg.auth.configured provider = false then
        pure (errorJson 404 (providerName provider ++ " sign-in is not configured") [])
      else if login then
        ask (.startLogin provider (rt.searchParam request.search "return"))
      else do
        let outcome ← ask (.finishLogin provider)
        match outcome with
        -- recorded before the session is handed out
        | .ok identity _ => do
          let _ ← callStore (.recordLogin identity)
          loginResponse rt cfg outcome
        | .error .. => loginResponse rt cfg outcome

end

/-! ### /api/me -/

section

variable (rt : Runtime) (cfg : PortalConfig) (request : Request) (now : ℤ)

def readSession : Option Auth.Session :=
  Auth.readSession rt.hmac rt.sessions request cfg.auth now

/-- What `GET /api/me` shows. -/
def meReply (session : Option Auth.Session) : Response :=
  let auth := cfg.auth
  let base :=
    [("providers", Json.arr ((Auth.enabledProviders auth).map fun p => .str (providerName p))),
      ("loginOrigin", if auth.origin = "" then .null else .str auth.origin),
      ("emailDomain", .str auth.emailDomain),
      ("githubOrg", .str auth.githubOrg),
      -- `Math.round`
      ("keyTtlDays", .num (Number.ofInt ((auth.keyTtlMs / 86400000 : ℚ) + 1 / 2).floor)),
      ("maxKeys", .num (Number.ofInt auth.maxKeysPerUser)),
      ("keyMaxPerRequest", .num (dash cfg.maxPerRequestSats))]
  match session with
  | none => noStore (.obj (("authenticated", .bool false) :: base)) 200
  | some session =>
    let user := Json.obj
      [("id", .str session.id), ("provider", .str (providerName session.provider)),
        ("email", .str session.email), ("name", .str session.name),
        ("login", (session.login.map Json.str).getD .null)]
    noStore (.obj (("authenticated", .bool true) :: base ++
      [("user", user), ("admin", .bool (Auth.isAdminSession rt.toLowerCase session auth)),
        ("csrf", .str (Auth.csrfToken rt.hmac session auth)),
        ("sessionExpiresAt", .num session.exp)])) 200

def issued (result : IssueReply) (max : ℕ) : Response :=
  match result with
  | .ok token key => noStore (.obj [("token", token), ("key", key)]) 201
  | .limit => errorJson 409 s!"You already have {max} active keys; revoke one first" []
  | .notFound => errorJson 404 "No active key of yours with that id" []

/-- A key for the session's identity: only that crosses into the Durable Object. -/
def issueOwn (session : Auth.Session) (label replacing : Option String) : Prog Response := do
  let result ← callStore (.issueOwnKey session.toIdentity label cfg.auth.maxKeysPerUser
    cfg.auth.keyTtlMs replacing)
  pure (issued result cfg.auth.maxKeysPerUser)

/-- The routes of `/api/me` once session and CSRF token are checked. -/
def handleOwnKeys (session : Auth.Session) : Prog Response :=
  if request.path = "/api/me/keys" ∧ request.method = "GET" then do
    let keys ← callStore (.listApiKeys (some session.id))
    pure (noStore (.obj [("keys", keys)]) 200)
  else if request.path = "/api/me/keys" ∧ request.method = "POST" then
    match readJsonObject request with
    | .error response => pure response
    | .ok body =>
      match ((body.lookup "label").map parseLabel).getD (some "API key") with
      | none => pure (errorJson 400 labelRule [])
      | some name => issueOwn cfg session (some name) none
  else
    match (hexId "/api/me/keys/" "/rotate" request.path).filter
        fun _ => request.method = "POST" with
    | some id => issueOwn cfg session none (some id)
    | none =>
      match (hexId "/api/me/keys/" "" request.path).filter fun _ => request.method = "DELETE" with
      -- only keys of one's own
      | some id => do
        let revoked : Bool ← callStore (.revokeApiKey id (some session.id) none)
        pure (if revoked then noStore (.obj [("revoked", .str id)]) 200
          else errorJson 404 "No active key of yours with that id" [])
      | none => pure (errorJson 404 "Not found" [])

def handleMe : Prog Response :=
  let session := readSession rt cfg request now
  if request.path = "/api/me" ∧ request.method = "GET" then pure (meReply rt cfg session)
  else
    match session with
    | none => pure (errorJson 401 "Sign in first" noStoreHeader)
    | some session =>
      if Auth.checkCsrf rt.hmac request session cfg.auth = false then
        pure (errorJson 403 "Missing or invalid CSRF token" [])
      else handleOwnKeys cfg request session

/-! ### /api/admin -/

def hashApiKey (token : String) : String := toHex (rt.sha256 (encodeUtf8 token))

/-- The operator's bearer token, or an admin's session (with CSRF on writes): who acts, or the
refusal. A presented bearer that is not the admin token does not fall through to the cookie. -/
def authorizeAdmin : Except Response String :=
  match bearerToken request with
  | some token =>
    let header := (request.header "Authorization").getD ""
    if cfg.adminTokenSha256 ≠ "" ∧ isBearer header = true ∧
        digestEquals (hashApiKey rt token) cfg.adminTokenSha256 = true then
      .ok "admin-token"
    else .error (errorJson 401 "Admin token required" [("WWW-Authenticate", "Bearer")])
  -- without a token it takes a session, the list of admins and the CSRF token
  | none =>
    match readSession rt cfg request now with
    | none => .error (errorJson 401 "Admin sign-in required" noStoreHeader)
    | some session =>
      if Auth.isAdminSession rt.toLowerCase session cfg.auth = false then
        .error (errorJson 401 "Admin sign-in required" noStoreHeader)
      else if Auth.checkCsrf rt.hmac request session cfg.auth = false then
        .error (errorJson 403 "Missing or invalid CSRF token" [])
      else .ok (Auth.adminHandle rt.toLowerCase session)

/-- What `POST /api/admin/keys` mints. -/
def mintInput (body : List (String × Json)) (actor : String) : Except Response MintKeyInput := do
  let some label := (body.lookup "label").bind parseLabel | .error (errorJson 400 labelRule [])
  let some tier := parseTier (body.lookup "tier") |
    .error (errorJson 400 "tier must be one of: trusted, mn" [])
  let perDay ← field (body.lookup "perDay")
    (fun value => match value with
      | .null => some none
      | value => (intInRange value 1 maxSafeInteger).map fun n => some n.toNat)
    "perDay must be a positive integer or null (unlimited)"
  .ok { label, tier, perDay, createdBy := some actor }

/-- Mint (POST), list (GET) and revoke (DELETE …/<id>) any API key. -/
def handleAdminKeys (actor : String) : Prog Response :=
  if request.path = "/api/admin/keys" ∧ request.method = "GET" then do
    let keys ← callStore (.listApiKeys none)
    pure (noStore (.obj [("keys", keys)]) 200)
  else if request.path = "/api/admin/keys" ∧ request.method = "POST" then
    match readJsonObject request >>= fun body => mintInput body actor with
    | .error response => pure response
    | .ok input => do
      let created ← callStore (.createApiKey input)
      pure (noStore created 201)
  else
    match (hexId "/api/admin/keys/" "" request.path).filter fun _ => request.method = "DELETE" with
    -- of anybody, with the admin's name on it
    | some id => do
      let revoked : Bool ← callStore (.revokeApiKey id none (some actor))
      pure (if revoked then noStore (.obj [("revoked", .str id)]) 200
        else errorJson 404 "No active key with that id" [])
    | none => pure (errorJson 404 "Not found" [])

def amountRule : String :=
  "amount must be a number of DASH from 0.001 to " ++ rt.numberText (dash cfg.maxPerRequestSats)

def codeAmount (value : Json) : Option ℕ :=
  (rt.parseAmountSats value).filter (· ≤ cfg.maxPerRequestSats)

/-- A `POST /api/admin/codes` that is well formed, but for the codes of vouchers: what every code
has, and the event's code or how many vouchers. -/
def newCodes (body : List (String × Json)) (actor : String) :
    Except Response (NewCodes × ℕ) := do
  let some kind := parseKind (body.lookup "kind") |
    .error (errorJson 400 "kind must be event or voucher" [])
  let some label := (body.lookup "label").bind parseLabel | .error (errorJson 400 labelRule [])
  let some amountSats := (body.lookup "amount").bind (codeAmount rt cfg) |
    .error (errorJson 400 (amountRule rt cfg) [])
  let expiresAt ← field (body.lookup "expiresAt") (parseExpiry now) expiryRule
  match kind with
  -- an event code is chosen, and can be redeemed often
  | .event =>
    let display := match body.lookup "code" with
      | some (.str s) => rt.toUpperCase (trim s)
      | _ => ""
    if isEventCode display = false then
      .error (errorJson 400 ("code must be 4–32 letters, digits or dashes, " ++
        "starting and ending with a letter or digit") [])
    else
      let some maxRedemptions := (body.lookup "maxRedemptions").bind parseMaxRedemptions |
        .error (errorJson 400 maxRedemptionsRule [])
      .ok ({ kind, codes := [display], label, amountSats, maxRedemptions
             expiresAt := expiresAt.getD none, createdBy := actor }, 0)
  -- vouchers are drawn, and redeemed once each
  | .voucher =>
    let count := ((body.lookup "count").map fun value =>
      intInRange value 1 maxVouchersPerBatch).getD (some 1)
    let some count := count |
      .error (errorJson 400 s!"count must be an integer from 1 to {maxVouchersPerBatch}" [])
    .ok ({ kind, codes := [], label, amountSats, maxRedemptions := 1
           expiresAt := expiresAt.getD none, createdBy := actor }, count.toNat)

/-- What `PATCH /api/admin/codes/<id>` changes. -/
def codePatch (body : List (String × Json)) : Except Response CodePatch := do
  let label ← field (body.lookup "label") parseLabel labelRule
  let amountSats ← field (body.lookup "amount") (codeAmount rt cfg) (amountRule rt cfg)
  let maxRedemptions ←
    field (body.lookup "maxRedemptions") parseMaxRedemptions maxRedemptionsRule
  let expiresAt ← field (body.lookup "expiresAt") (parseExpiry now) expiryRule
  let disabled ← field (body.lookup "disabled") parseDisabled "disabled must be true or false"
  .ok { label, amountSats, maxRedemptions, expiresAt, disabled }

/-- Create, list, show and edit redemption codes. -/
def handleAdminCodes (actor : String) : Prog Response :=
  if request.path = "/api/admin/codes" ∧ request.method = "GET" then do
    let codes ← callStore .listCodes
    pure (noStore (.obj [("codes", codes)]) 200)
  else if request.path = "/api/admin/codes" ∧ request.method = "POST" then
    match readJsonObject request >>= fun body => newCodes rt cfg now body actor with
    | .error response => pure response
    | .ok (input, count) => do
      -- drawn here; if one is taken, none is stored
      let vouchers ← Async.forEach (fun _ => generateVoucherCode) (List.range count)
      let created ← callStore (.createCodes { input with codes := input.codes ++ vouchers })
      pure (match created with
        | .ok codes => noStore (.obj [("codes", codes)]) 201
        | .error conflict => errorJson 409
          s!"A code {conflict} already exists (codes ignore case, spaces and dashes)" [])
  else
    match hexId "/api/admin/codes/" "" request.path with
    | none => pure (errorJson 404 "Not found" [])
    | some id =>
      if request.method = "GET" then do
        let found ← callStore (.getCode id)
        pure (match found with
          | some found => noStore found 200
          | none => errorJson 404 "No such code" [])
      else if request.method = "PATCH" then
        match readJsonObject request >>= codePatch rt cfg now with
        | .error response => pure response
        | .ok patch => do
          let updated ← callStore (.updateCode id patch actor)
          pure (match updated with
            | some code => noStore (.obj [("code", code)]) 200
            | none => errorJson 404 "No such code" [])
      else pure (errorJson 404 "Not found" [])

def handleAdmin : Prog Response :=
  -- the admin surface does not exist where keys and codes cannot be used
  if cfg.enabled = false ∨ (cfg.adminTokenSha256 = "" ∧ cfg.auth.origin = "") then
    pure (errorJson 404 "Not found" [])
  else
    match authorizeAdmin rt cfg request now with
    | .error response => pure response
    | .ok actor =>
      if request.path = "/api/admin/keys" ∨ startsWith request.path "/api/admin/keys/" = true then
        handleAdminKeys request actor
      else if request.path = "/api/admin/codes" ∨
          startsWith request.path "/api/admin/codes/" = true then
        handleAdminCodes rt cfg request now actor
      else pure (errorJson 404 "Not found" [])

/-! ### The portal -/

/-- Pages served from the login origin; on any other host they redirect there. -/
def portalPages : List String := ["/keys", "/admin", "/keys.html", "/admin.html"]

def pageHeaders : List (String × String) :=
  [("Content-Security-Policy",
      "default-src 'none'; script-src 'self'; style-src 'self'; img-src 'self' data:; " ++
      "connect-src 'self'; frame-ancestors 'none'; base-uri 'none'; form-action 'self'"),
    ("X-Frame-Options", "DENY"), ("Referrer-Policy", "no-referrer"),
    ("X-Content-Type-Options", "nosniff"), ("Cache-Control", "no-store")]

/-- `headers.set`: names are compared without case. -/
def setHeader (headers : List (String × String)) (header : String × String) :
    List (String × String) :=
  headers.filter (fun h => h.1.toLower ≠ header.1.toLower) ++ [header]

def portalPage : Prog Response := do
  let answer ← ask .asset
  let asset : Response ← Async.ofExcept answer
  pure { asset with headers := pageHeaders.foldl setHeader asset.headers }

/-- Handles the request if it belongs to the portal, else returns `none`. `resolved` is the outcome
of `resolveConfig`. -/
def handlePortal (resolved : Except String PortalConfig) : Prog (Option Response) :=
  let path := request.path
  let isAuth := startsWith path "/auth/"
  let isMe := path = "/api/me" || startsWith path "/api/me/"
  let isAdminApi := startsWith path "/api/admin/"
  let isPage := portalPages.contains path
  if !isAuth && !isMe && !isAdminApi && !isPage then pure none
  else do
    let cfg ← Async.ofExcept resolved
    -- sign-in works on one host alone
    if (isAuth || isPage) && cfg.auth.origin ≠ "" && request.host ≠ rt.hostOf cfg.auth.origin then
      pure (some
        { status := 302, headers := [("Location", cfg.auth.origin ++ path ++ request.search)] })
    else if isPage then some <$> portalPage
    else if isAuth then some <$> handleAuth rt cfg request
    else if isMe then some <$> handleMe rt cfg request now
    else some <$> handleAdmin rt cfg request now

end

end Portal

end DashFaucet

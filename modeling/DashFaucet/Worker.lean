import DashFaucet.Amounts
import DashFaucet.ClientIp
import DashFaucet.Devices
import DashFaucet.Settings
import DashFaucet.Solutions

/-!
# The Worker

The entry of every request (`index.ts`, with the rest of `http.ts`, and the addresses of
`keys.ts`). A handler is a program that only asks: the edge's rate limit, Turnstile, the clock,
randomness, the two Treasuries and the portal. Whatever it asks may also fail, and what a handler
throws becomes a 500.

`DashKeys.decode` is a parameter, as is the text that `join` makes of an item.

* `Query`: what a handler asks.
* `verifyTurnstile`, `verifyCaptcha`, `edgeLimited`, `parseRecipient`: the gates.
* `handleFaucet`, `handleKeyFaucet`, `handleInvitation`: the requests that pay or give out.
* `handleStatus`, `handleCapChallenge`, `handleCapRedeem`: the others.
* `route`, `fetch`, `scheduled`: the entries.
-/

namespace DashFaucet

namespace Worker

/-! ### What a handler asks -/

/-- What a call of another object gives: what it returns, or what it threw. -/
abbrev Rpc (α : Type) := Except String α

inductive Query where
  | edgeLimit (key : String)
  | siteverify (form : List (String × String))
  | now
  | random (count : ℕ)
  | randomUUID
  | consumeCapToken (token : String) (expiresAt : ℤ)
  | isActiveApiKey (hash : String)
  | payout (input : PayoutRequest)
  | snapshot
  | maintain
  | invitationSnapshot
  | issueInvitation (input : InvitationIssueRequest)
  | maintainInvitations
  | portal (q : Portal.Query)
  | assets

def Query.Answer : Query → Type
  | .edgeLimit _ => Rpc Bool
  | .siteverify _ => Rpc Json
  | .now => ℤ
  | .random _ => List ℕ
  | .randomUUID => String
  | .consumeCapToken .. => Rpc Bool
  | .isActiveApiKey _ => Rpc Bool
  | .payout _ => Rpc PayoutResult
  | .snapshot => Rpc Snapshot
  | .maintain => Rpc MaintenanceResult
  | .invitationSnapshot => Rpc Snapshot
  | .issueInvitation _ => Rpc InvitationIssueResult
  | .maintainInvitations => Rpc InvitationMaintenanceResult
  | .portal q => q.Answer
  | .assets => Rpc Response

/-- A handler: it asks, and nothing else. -/
abbrev Prog := Async Query Query.Answer Unit String

abbrev ask (q : Query) : Prog q.Answer := Async.ask q

/-- Ask for the result of a call, and throw what it threw. -/
def rpc {α : Type} (q : Query) (result : q.Answer → Rpc α) : Prog α := do
  let answer ← ask q
  Async.ofExcept (result answer)

def consumeCapToken (token : String) (expiresAt : ℤ) : Prog Bool :=
  rpc (.consumeCapToken token expiresAt) id

def isActiveApiKey (hash : String) : Prog Bool := rpc (.isActiveApiKey hash) id

def payout (input : PayoutRequest) : Prog PayoutResult := rpc (.payout input) id

/-- What `DashKeys.decode` makes of an address. -/
structure DecodedAddress where
  valid : Bool
  type : String
  pubKeyHash : String

end Worker

/-- A deployment of the Worker: its environment and bindings, the runtime and the libraries. -/
structure Worker where
  runtime : Portal.Runtime
  /-- `Number` of a string, where that is a non-negative integer. -/
  number : String → Option ℕ
  /-- What `join` makes of an item. -/
  itemText : Json → String
  decode : String → NetworkName → Option Worker.DecodedAddress
  env : Env
  /-- `EDGE_LIMIT` is bound. -/
  edgeLimit : Bool
  /-- `INVITATION_TREASURY` is bound. -/
  invitationTreasury : Bool

namespace Worker

@[irreducible] def resolved (w : Worker) : Except String Settings :=
  resolveConfig w.number w.runtime.toLowerCase w.env

/-- A method of the invitations' Treasury, if there is one. -/
def invitationRpc (w : Worker) {α : Type} (q : Query) (result : q.Answer → Rpc α) : Prog α :=
  if w.invitationTreasury then rpc q result
  else .throw "INVITATION_TREASURY binding is not configured"

/-! ### Responses -/

/-- Error body carrying both the flat shape and a nested `detail`. -/
def errorJson (status : ℕ) (error : String) (extra : List (String × Json))
    (headers : List (String × String)) : Response :=
  let payload := ("error", .str error) :: extra
  json (.obj (payload ++ [("detail", .obj payload)])) status headers

def preflight : Response := { status := 204, headers := cors }

def natural (n : ℕ) : Json := .num (Number.ofInt n)

def integer (n : ℤ) : Json := .num (Number.ofInt n)

/-- A height, which `JSON.stringify` writes as `null` where it is not finite. -/
def heightJson : JsNumber → Json
  | .num (some (some x)) => .num ((x : WithTop ℚ) : Number)
  | _ => .null

/-! ### The client -/

section Client

variable (request : Request)

/-- A header that is there, and not empty. -/
def headerOf (name : String) : Option String := (request.header name).filter (· ≠ "")

/-- Unmodified client address for Turnstile's remoteip binding. -/
def rawClientIp : String :=
  match headerOf request "CF-Connecting-IP" with
  | some cf => trim cf
  | none =>
    match headerOf request "X-Forwarded-For" with
    | some forwarded => trim (String.ofList (forwarded.toList.takeWhile (· ≠ ',')))
    | none =>
      match headerOf request "X-Real-IP" with
      | some real => trim real
      | none => "unknown"

def clientIp : String := String.ofList (normalizeIp (rawClientIp request).toList)

/-- The host of the request without its port. -/
def hostname : String :=
  let host := request.host.toList
  if host.head? = some '[' then String.ofList (host.takeWhile (· ≠ ']') ++ [']'])
  else String.ofList (host.takeWhile (· ≠ ':'))

end Client

/-! ### Turnstile -/

structure TurnstileOutcome where
  ok : Bool
  reason : Option String := none
  deriving DecidableEq, Repr

/-- What a token has to be issued for. -/
structure Expected where
  hostname : String
  action : String

/-- Whether a value counts as true. -/
def truthy : Json → Bool
  | .null => false
  | .bool b => b
  | .num n => decide (n ≠ Number.ofInt 0)
  | .str s => decide (s ≠ "")
  | .arr _ => true
  | .obj _ => true

/-- A property of a value; `null` has none to read. -/
def property (value : Json) (name : String) : Except String (Option Json) :=
  match value with
  | .null => .error s!"Cannot read properties of null (reading '{name}')"
  | .obj fields => .ok (fields.lookup name)
  | _ => .ok none

/-- `value === text` -/
def isText (value : Option Json) (text : String) : Bool :=
  match value with
  | some (.str s) => decide (s = text)
  | _ => false

section

variable (w : Worker)

/-- `(codes ?? []).join(", ")` -/
def joinCodes (codes : Option Json) : Except String String :=
  match codes with
  | none | some .null => .ok ""
  | some (.arr items) => .ok (", ".intercalate (items.map w.itemText))
  | some _ => .error "join is not a function"

/-- What the service's reply says. -/
def judge (expected : Option Expected) (body : Json) : Except String TurnstileOutcome := do
  let success ← property body "success"
  if success.any truthy then do
    let hostname ← property body "hostname"
    let action ← property body "action"
    -- a token of another page or action
    if expected.any fun e => !isText hostname e.hostname || !isText action e.action then
      .ok { ok := false, reason := some "Captcha token was issued for another request" }
    else .ok { ok := true }
  else do
    let codes ← joinCodes w (← property body "error-codes")
    let codes := if codes = "" then "rejected" else codes
    .ok { ok := false, reason := some s!"Invalid captcha token ({codes})" }

/-- Verify a Turnstile token. -/
def verifyTurnstile (secret : String) (token : Option String) (ip : String)
    (expected : Option Expected) : Prog TurnstileOutcome :=
  if secret = "" then pure { ok := true }
  else
    match token.filter (· ≠ "") with
    | none => pure { ok := false, reason := some "Captcha token required" }
    | some token => do
      -- a truncated address is no address
      let remote := if ip ≠ "" ∧ ip ≠ "unknown" ∧ '/' ∉ ip.toList then [("remoteip", ip)] else []
      let answer ← ask (.siteverify ([("secret", secret), ("response", token)] ++ remote))
      match (answer : Rpc Json) >>= judge w expected with
      | .ok outcome => pure outcome
      | .error _ => pure { ok := false, reason := some "Captcha verification unavailable" }

/-! ### The captcha -/

/-- What a payout's body says. A field that is left out is `none`. -/
structure FaucetBody where
  address : Option String
  turnstileToken : Option String
  capToken : Option String
  hardCapToken : Option String
  amount : Option Json
  /-- `code ?? promoCode` -/
  code : Option Json

/-- The capToken of either name. -/
def FaucetBody.presented (body : FaucetBody) : Option String :=
  (body.capToken.filter (· ≠ "")).or (body.hardCapToken.filter (· ≠ ""))

/-- Why a captcha was refused. -/
structure Refusal where
  status : ℕ
  reason : String

/-- Verify whichever captcha credential the client presented, and report how strong it was. -/
def verifyCaptcha (cfg : Settings) (ip : String) (body : FaucetBody) :
    Prog (Except Refusal ProofTier) :=
  match body.presented with
  | some capToken =>
    if cfg.capSecret = "" then pure (.error ⟨400, "Proof-of-work captcha is not configured"⟩)
    else do
      let time : ℤ ← ask .now
      match verifyCapToken w.runtime.hmac cfg.capSecret capToken time with
      | .error reason => pure (.error ⟨400, reason⟩)
      | .ok check => do
        -- burnt here, not after a successful payout
        if ← consumeCapToken capToken check.expiresAt then
          pure (.ok (capTier cfg.cap check.params))
        else pure (.error ⟨400, "Captcha token already used"⟩)
  | none =>
    match body.turnstileToken.filter fun token => token ≠ "" ∧ cfg.turnstileSecret ≠ "" with
    | some token => do
      let outcome ← verifyTurnstile w cfg.turnstileSecret (some token) ip none
      if outcome.ok then pure (.ok .turnstile)
      else pure (.error ⟨400, outcome.reason.getD "Captcha verification failed"⟩)
    | none =>
      if cfg.turnstileSecret ≠ "" ∨ cfg.capSecret ≠ "" then
        pure (.error ⟨400, "Captcha token required"⟩)
      else pure (.ok .soft)

/-- Cheap first line of defence. -/
def edgeLimited (key : String) : Prog (Option Response) :=
  if w.edgeLimit then do
    if ← rpc (.edgeLimit key) id then pure none
    else pure (some (errorJson 429 "Rate limit exceeded" [("retryAfter", natural 60)]
      [("Retry-After", "60")]))
  else pure none

/-! ### Recipients -/

def examplePrefix : NetworkName → String
  | .mainnet => "X"
  | .testnet => "y"

/-- Validate a recipient address and return its pubKeyHash, or the message of the `AddressError`. -/
def addressToPubKeyHash (address : String) (network : NetworkName) : Except String String :=
  let trimmed := trim address
  if trimmed = "" then .error "Address is required"
  else
    match w.decode trimmed network with
    | none =>
      .error (s!"Not a valid {network.name} Dash address (expected one starting with " ++
        s!"\"{examplePrefix network}\")")
    | some parts =>
      if parts.valid = false then .error "Address checksum is invalid"
      -- decoding also accepts WIFs and extended keys for the same network
      else if parts.type ≠ "pkh" ∨ parts.pubKeyHash = "" then
        .error "Not a pay-to-public-key-hash address"
      else .ok parts.pubKeyHash

structure Recipient where
  address : String
  pubKeyHash : String

/-- The recipient's address and pubKeyHash, or the 400 for a bad address. -/
def parseRecipient (address : Option String) (cfg : Settings) : Except Response Recipient :=
  let address := trim (address.getD "")
  match addressToPubKeyHash w address cfg.network with
  | .ok pubKeyHash => .ok ⟨address, pubKeyHash⟩
  | .error message => .error (errorJson 400 message [] [])

/-! ### Payouts -/

end

inductive FailureCode where
  | rateLimited
  | budgetExhausted
  | insufficientFunds
  | selfPay
  | chainUnavailable
  | unauthorized
  | codeInvalid
  | codeUsed
  | badRequest
  | fragmented
  | error
  deriving DecidableEq, Repr

/-- The `ok: false` case of `PayoutResult`. -/
structure PayoutFailure where
  code : FailureCode
  detail : Option String := none
  retryAfter : Option ℤ := none
  deriving DecidableEq, Repr

/-- The two cases of `PayoutResult`. -/
def outcome : PayoutResult → Except PayoutFailure Paid
  | .ok paid => .ok paid
  | .rateLimited retryAfter => .error { code := .rateLimited, retryAfter }
  | .budgetExhausted retryAfter => .error { code := .budgetExhausted, retryAfter }
  | .unauthorized => .error { code := .unauthorized }
  | .codeInvalid => .error { code := .codeInvalid }
  | .codeUsed => .error { code := .codeUsed }
  | .badRequest detail => .error { code := .badRequest, detail }
  | .fragmented detail retryAfter => .error { code := .fragmented, detail, retryAfter }
  | .insufficientFunds detail => .error { code := .insufficientFunds, detail }
  | .selfPay detail => .error { code := .selfPay, detail }
  | .chainUnavailable detail => .error { code := .chainUnavailable, detail }
  | .error detail => .error { code := .error, detail }

def invalidCode : String := "Invalid, expired or fully redeemed code"

/-- Status and message of a failure. -/
def payoutFailures : FailureCode → ℕ × String
  | .rateLimited => (429, "Rate limit exceeded")
  | .budgetExhausted => (429, "Faucet daily budget exhausted")
  | .insufficientFunds => (503, "Faucet has insufficient funds")
  | .selfPay =>
    (400, "That is the faucet's own deposit address — send to a wallet you control")
  | .chainUnavailable => (503, "Chain providers unavailable")
  | .unauthorized => (401, "Invalid, expired or revoked API key")
  | .codeInvalid => (400, invalidCode)
  | .codeUsed => (400, "This code was already redeemed by this address")
  | .badRequest => (400, "Invalid request")
  | .fragmented =>
    (503, "No coin large enough for this amount yet; coins must be merged or confirmed first, " ++
      "so try again later")
  | .error => (500, "Internal server error")

/-- The refusal of a payout. `escalatable` says that a harder proof would raise this client's own
ceiling, which only the limit by IP heeds. -/
def payoutFailure (result : PayoutFailure) (escalatable : Bool) : Response :=
  let (status, message) := payoutFailures result.code
  if result.code = .badRequest then errorJson status (result.detail.getD "") [] []
  else if result.code = .unauthorized then
    errorJson status message [] [("WWW-Authenticate", "Bearer")]
  else
    let detail := (result.detail.map fun detail => ("detailMessage", Json.str detail)).toList
    match result.retryAfter with
    | none => errorJson status message detail []
    | some retryAfter =>
      -- a stronger proof has a higher limit
      let harder := if result.code = .rateLimited ∧ escalatable = true then
        [("requiresHardCaptcha", Json.bool true)] else []
      errorJson status message (("retryAfter", integer retryAfter) :: detail ++ harder)
        [("Retry-After", toString retryAfter)]

section

variable (w : Worker) (cfg : Settings)

def payoutSuccess (result : Paid) (address : String) : Response :=
  let named := fun name (text : Option String) =>
    ((text.filter (· ≠ "")).map fun text => (name, Json.str text)).toList
  json (.obj
    ([("txid", .str result.txid), ("amount", .num (dash result.satoshis)),
        ("address", .str address), ("network", .str cfg.network.name),
        ("replay", .bool result.replay)] ++
      named "keyId" result.keyId ++ named "code" result.codeLabel ++
      (if result.dryRun then [("dryRun", .bool true)] else []) ++
      if result.accepted = [] then [] else [("relays", .arr (result.accepted.map .str))])) 200 []

/-- The reply to a payout. -/
def payoutReply (result : PayoutResult) (address : String) (escalatable : Bool) : Response :=
  match outcome result with
  | .ok paid => payoutSuccess cfg paid address
  | .error failure => payoutFailure failure escalatable

/-- The normalized key for a `code`/`promoCode` field, or the error to send. -/
def parseCodeField (value : Option Json) : Except String (Option String) :=
  match value with
  | none | some .null | some (.str "") => .ok none
  | some (.str text) =>
    if Portal.utf16Length text > 64 then .error "code must be a string"
    else if 4 ≤ (codeKey text).length then .ok (some (codeKey text))
    else .error invalidCode
  | some _ => .error "code must be a string"

/-- A field that is a string, or left out. -/
def textField (body : List (String × Json)) (name : String) : Except Response (Option String) :=
  match body.lookup name with
  | none => .ok none
  | some (.str text) => .ok (some text)
  | some _ => .error (errorJson 400 "Address and captcha tokens must be strings" [] [])

def faucetBody (body : List (String × Json)) : Except Response FaucetBody := do
  let address ← textField body "address"
  let turnstileToken ← textField body "turnstileToken"
  let capToken ← textField body "capToken"
  let hardCapToken ← textField body "hardCapToken"
  .ok
    { address, turnstileToken, capToken, hardCapToken
      amount := body.lookup "amount"
      -- the old name of the field
      code := match body.lookup "code" with
        | none | some .null => body.lookup "promoCode"
        | code => code }

def looksLikeApiKey (token : String) : Bool :=
  Portal.startsWith token "dfk_" && decide (Portal.utf16Length token = 4 + 43)

/-- `looksLikeApiKey(token) && await isActiveApiKey(hash)` -/
def isKnownKey (token : String) : Prog Bool :=
  if looksLikeApiKey token then isActiveApiKey (Portal.hashApiKey w.runtime token) else pure false

/-- Payout for an API-key caller: no captcha, no per-IP limit, and an optional amount. Unknown keys
are charged the edge limit, and turned away before they reach the spending lock. -/
def handleKeyFaucet (ip token : String) (body : FaucetBody) : Prog Response := do
  let known ← isKnownKey w token
  if known = false then do
    -- guessing keys is limited by address
    let limited ← edgeLimited w ip
    pure (limited.getD (payoutFailure { code := .unauthorized } false))
  else
    match body.amount.map parseAmountSats with
    | some none =>
      pure (errorJson 400
        "amount must be a number of DASH, at least 0.001, with at most 8 decimals" [] [])
    | requested =>
      match parseRecipient w body.address cfg with
      | .error refusal => pure refusal
      | .ok recipient => do
        let result ← payout
          { address := recipient.address, pubKeyHash := recipient.pubKeyHash, ip,
            apiKeyHash := some (Portal.hashApiKey w.runtime token),
            requestedSats := requested.join }
        pure (payoutReply cfg result recipient.address false)

/-- Without a key nobody asks for more than the standard payout; up to it, the amount is ignored. -/
def checkAmount (amount : Option Json) : Option Response :=
  match amount with
  | none => none
  | some amount =>
    match parseAmountSats amount with
    | none => some (errorJson 400 "Invalid amount" [] [])
    | some requested =>
      if requested > cfg.faucet.payoutSats then
        some (errorJson 400
          s!"amounts above {w.runtime.numberText (dash cfg.faucet.payoutSats)} require an API key"
          [] [])
      else none

/-- A payout of the public path, once its address is known to be good. -/
def payPublic (ip : String) (body : FaucetBody) (code : Option String) (recipient : Recipient) :
    Prog Response := do
  match ← verifyCaptcha w cfg ip body with
  | .error refusal =>
    let proof := cfg.network = .testnet ∧ cfg.capSecret ≠ "" ∧ body.presented = none
    pure (errorJson refusal.status refusal.reason
      (if proof then [("requiresProofOfWork", .bool true)] else []) [])
  | .ok tier => do
    let result ← payout
      { address := recipient.address, pubKeyHash := recipient.pubKeyHash, ip, tier := some tier,
        codeKey := code }
    -- a code's refusal is about the code; a harder captcha would not change it
    pure (payoutReply cfg result recipient.address (code.isNone && canEscalate cfg tier))

end

def handleFaucet (w : Worker) (request : Request) : Prog Response := do
  let cfg ← Async.ofExcept w.resolved
  let ip := clientIp request
  match readJsonObject request >>= faucetBody with
  | .error refusal => pure refusal
  | .ok body =>
    match parseCodeField body.code with
    | .error message => pure (errorJson 400 message [] [])
    | .ok code =>
      match bearerToken request with
      | some token =>
        if code.isSome then pure (errorJson 400 "A code cannot be combined with an API key" [] [])
        else handleKeyFaucet w cfg ip token body
      | none =>
        match checkAmount w cfg body.amount with
        | some refusal => pure refusal
        | none => do
          match ← edgeLimited w ip with
          | some limited => pure limited
          | none =>
            -- address first: a typo costs a retry rather than a fresh proof of work
            match parseRecipient w body.address cfg with
            | .error refusal => pure refusal
            | .ok recipient => payPublic w cfg ip body code recipient

/-! ### Invitations -/

def invitationFailure (retryAfter : ℤ) : Response :=
  errorJson 429 "This IP or device already received an invitation in the current window"
    [("retryAfter", integer retryAfter)] [("Retry-After", toString retryAfter)]

/-- `count`, where the request may ask for that many. -/
def requestedCount (body : List (String × Json)) (max : ℕ) : Option ℕ :=
  match body.lookup "count" with
  | none => if 1 ≤ max then some 1 else none
  | some value => (Portal.intInRange value 1 max).map Int.toNat

/-- The reply to an issuance. -/
def invitationReply (cfg : Settings) (result : InvitationIssueResult) (count : ℕ)
    (setCookie : Option String) : Except String Response :=
  match result with
  | .rateLimited retryAfter => .ok (invitationFailure retryAfter)
  | .unavailable =>
    .ok (errorJson 503 "Invitation inventory is refilling — please try again soon" [] [])
  | .platformUnavailable =>
    .ok (errorJson 503 "Platform availability check is temporarily unavailable" [] [])
  | .error detail =>
    .ok (errorJson 500 "Invitation could not be created" [("detailMessage", .str detail)] [])
  -- never answered, but the source would throw
  | .ok [] _ => .error "Cannot read properties of undefined (reading 'uri')"
  | .ok (first :: rest) replay =>
    let entry := fun e : IssuedInvitation => Json.obj
      [("invitation", .str e.uri), ("txid", .str e.txid), ("expiresAt", integer e.expiresAt)]
    .ok (json (.obj
      [("invitations", .arr ((first :: rest).map entry)), ("count", natural (rest.length + 1)),
        ("requested", natural count), ("invitation", .str first.uri), ("txid", .str first.txid),
        ("amount", .num (dash cfg.faucet.invitations.amountSats)),
        ("expiresAt", integer first.expiresAt), ("replay", .bool replay),
        ("network", .str cfg.invitationNetwork.name)]) 200
      ([("Cache-Control", "no-store, max-age=0"), ("Pragma", "no-cache"),
          ("Referrer-Policy", "no-referrer")] ++
        (setCookie.map fun cookie => ("Set-Cookie", cookie)).toList))

section

variable (w : Worker) (request : Request)

/-- The device of the request; a new one draws its id. -/
def requestDevice (cfg : Settings) : Prog Devices.Device := do
  match Devices.suppliedDevice w.runtime.hmac w.runtime.sha256 cfg.invitationSecret request with
  | some id => pure { id }
  | none => do
    let uuid : String ← ask .randomUUID
    pure (Devices.invitationDevice w.runtime.hmac w.runtime.sha256 cfg.invitationSecret request
      uuid)

def hashSignal (cfg : Settings) (kind : SignalKind) (value : String) : String :=
  Devices.hashInvitationSignal w.runtime.hmac w.runtime.sha256 cfg.invitationSecret kind value

/-- An issuance, once the request has passed the captcha. -/
def issueTo (cfg : Settings) (ip : String) (count : ℕ) : Prog Response := do
  let device ← requestDevice w request cfg
  let result : InvitationIssueResult ← invitationRpc w (.issueInvitation
    { ipHash := hashSignal w cfg .ip ip, deviceHash := hashSignal w cfg .device device.id,
      count := some count }) id
  Async.ofExcept (invitationReply cfg result count device.setCookie)

def handleInvitation : Prog Response := do
  let cfg ← Async.ofExcept w.resolved
  if cfg.faucet.invitations.enabled = false then pure (errorJson 404 "Not found" [] [])
  else if cfg.turnstileSecret = "" ∨ cfg.turnstileSiteKey = "" then
    pure (errorJson 503 "Invitation captcha is not configured" [] [])
  else
    match readJsonObject request with
    | .error refusal => pure refusal
    | .ok body =>
      let max := cfg.faucet.invitations.maxPerRequest
      match requestedCount body max with
      | none =>
        pure (errorJson 400 s!"count must be an integer from 1 to {max}" [("max", natural max)] [])
      | some count => do
        let ip := clientIp request
        -- before the captcha, which costs a call
        match ← edgeLimited w ("invite:" ++ ip) with
        | some limited => pure limited
        | none => do
          let token := match body.lookup "turnstileToken" with
            | some (.str token) => some token
            | _ => none
          let captcha ← verifyTurnstile w cfg.turnstileSecret token (rawClientIp request)
            (some ⟨hostname request, "invitation_faucet"⟩)
          if captcha.ok = false then
            pure (errorJson 400 (captcha.reason.getD "Captcha verification failed") [] [])
          else issueTo w request cfg ip count

/-! ### The proof of work -/

def challengeJson (challenge : CapChallenge) : Json :=
  .obj
    [("challenge", .obj
        [("c", natural challenge.challenge.c), ("s", natural challenge.challenge.s),
          ("d", natural challenge.challenge.d)]),
      ("token", .str challenge.token), ("expires", integer challenge.expires)]

def handleCapChallenge (hard : Bool) : Prog Response := do
  let cfg ← Async.ofExcept w.resolved
  if cfg.capSecret = "" then
    pure (errorJson 503 "Proof-of-work captcha is not configured" [] [])
  else do
    let params := if hard then cfg.cap.hardCapParams else cfg.cap.capParams
    let time : ℤ ← ask .now
    let bytes : List ℕ ← ask (.random 7)
    let random := fun i : Fin 7 => Fin.ofNat 256 (bytes.getD i 0)
    pure (json (challengeJson (mintChallenge w.runtime.hmac cfg.capSecret params time random)) 200
      [])

def handleCapRedeem : Prog Response := do
  let cfg ← Async.ofExcept w.resolved
  if cfg.capSecret = "" then
    pure (errorJson 503 "Proof-of-work captcha is not configured" [] [])
  else
    match readJsonObject request with
    | .error refusal => pure refusal
    | .ok body => do
      let time : ℤ ← ask .now
      let field := fun name => (body.lookup name).getD .null
      match verifySolutions w.runtime.hmac w.runtime.sha256 cfg.capSecret (field "token")
        (field "solutions") time with
      -- what the JSON holds may make the check throw
      | .error e => .throw (describeError e)
      | .ok (.error reason) => pure (errorJson 400 reason [("success", .bool false)] [])
      | .ok (.ok redeemed) =>
        pure (json (.obj
          [("success", .bool true), ("token", .str redeemed.capToken),
            ("expires", integer redeemed.expiresAt)]) 200 [])

/-! ### The status -/

def statusJson (status : ProviderStatus) : Json :=
  .obj
    [("name", .str status.name), ("ok", .bool status.ok),
      ("height", (status.height.map heightJson).getD .null),
      ("error", (status.error.map Json.str).getD .null)]

def inventoryJson (counts : InvitationCounts) : Json :=
  .obj
    [("available", natural counts.available), ("preparing", natural counts.preparing),
      ("issued", natural counts.issued)]

def capEndpoint (path : String) : String := "https://" ++ request.host ++ path

/-- What the status shows. -/
def statusFields (cfg : Settings) (snap : Snapshot)
    (invitations : Except String (Option Snapshot)) :
    List (String × Json) :=
  let inventory := invitations.toOption.join
  [("status", .str (if snap.balanceSats < cfg.minBalanceSats then "low_balance" else "ok")),
    ("balance", .num (dash snap.balanceSats)),
    ("coreFaucetAmount", .num (dash cfg.faucet.payoutSats)),
    ("rateLimitPerHour", natural (cfg.faucet.rateLimits .soft)),
    ("depositAddress", .str snap.address), ("blockHeight", heightJson snap.blockHeight),
    ("availableUtxos", natural snap.availableUtxos), ("network", .str cfg.network.name),
    ("turnstileSiteKey", .str cfg.turnstileSiteKey),
    ("capEndpoint", .str (capEndpoint request "/cap/v1/")),
    ("hardCapEndpoint", .str (capEndpoint request "/cap/hard/")),
    ("rateLimits", .obj
      [("soft", natural (cfg.faucet.rateLimits .soft)),
        ("turnstile", natural (cfg.faucet.rateLimits .turnstile)),
        ("hard", natural (cfg.faucet.rateLimits .hard))]),
    ("balanceSats", natural snap.balanceSats), ("poolUtxos", natural snap.poolUtxos),
    ("collateralUtxos", natural snap.collateralUtxos), ("spentTodaySats", natural snap.spentToday),
    ("dailyBudgetSats", natural cfg.faucet.dailyBudgetSats), ("source", .str snap.source),
    ("providers", .arr (snap.providers.map statusJson)), ("dryRun", .bool cfg.faucet.dryRun),
    ("apiKeysEnabled", .bool cfg.faucet.keysEnabled),
    ("accountUrl",
      if cfg.auth.origin = "" then .null else .str (cfg.auth.origin ++ "/keys")),
    ("keyMaxPerRequest", .num (dash cfg.faucet.keyMaxPerRequestSats)),
    ("mnCollateralAmount", .num (dash mnCollateralSats)),
    ("invitationsEnabled", .bool cfg.faucet.invitations.enabled),
    ("invitationNetwork", .str cfg.invitationNetwork.name),
    ("invitationAmount", .num (dash cfg.faucet.invitations.amountSats)),
    ("invitationExpiresIn", integer (cfg.faucet.invitations.ttlMs / 1000)),
    ("invitationMaxPerRequest", natural cfg.faucet.invitations.maxPerRequest),
    ("invitationRateWindow", integer (cfg.faucet.invitations.rateWindowMs / 1000)),
    ("invitationInventory", inventoryJson ((inventory.map Snapshot.invitations).getD ⟨0, 0, 0⟩))] ++
  -- the Treasury of the invitations may be down
  (match inventory with
    | some snap =>
      [("invitationDepositAddress", .str snap.address),
        ("invitationBalance", .num (dash snap.balanceSats)),
        ("invitationBalanceSats", natural snap.balanceSats)]
    | none => []) ++
  match invitations with
    | .error e => [("invitationError", .str e)]
    | .ok _ => []

/-- The device of the request, where invitations are given out. -/
def statusDevice (cfg : Settings) : Prog (Option Devices.Device) :=
  if cfg.faucet.invitations.enabled then some <$> requestDevice w request cfg else pure none

/-- What the invitations' Treasury holds, where invitations are given out. -/
def inventory (cfg : Settings) : Prog (Option Snapshot) :=
  if cfg.faucet.invitations.enabled then some <$> invitationRpc w .invitationSnapshot id
  else pure none

def handleStatus : Prog Response := do
  let cfg ← Async.ofExcept w.resolved
  let device ← statusDevice w request cfg
  match ← (rpc .snapshot id : Prog Snapshot).attempt with
  | .error e => pure (json (.obj [("status", .str "error"), ("error", .str e)]) 503 [])
  | .ok snap => do
    let invitations ← (inventory w cfg).attempt
    pure (json (.obj (statusFields request cfg snap invitations))
      (if snap.balanceSats < cfg.minBalanceSats then 503 else 200)
      ((device.bind Devices.Device.setCookie).map fun cookie => ("Set-Cookie", cookie)).toList)

/-! ### Entries -/

/-- The portal, asked through the Worker. -/
def portal : Prog (Option Response) := do
  let time : ℤ ← ask .now
  Async.handle (fun q => ask (.portal q)) (Portal.handlePortal w.runtime request time
    (w.resolved.map fun cfg => cfg.login.toPortalConfig))

def route : Prog Response :=
  let path := request.path
  let isApi := Portal.startsWith path "/api/" || Portal.startsWith path "/cap/"
  if request.method = "OPTIONS" ∧ isApi = true then pure preflight
  else if path = "/health" then pure (json (.obj [("status", .str "healthy")]) 200 [])
  else if path = "/api/status" ∧ request.method = "GET" then handleStatus w request
  else if path = "/cap/v1/challenge" ∧ request.method = "POST" then handleCapChallenge w false
  else if path = "/cap/hard/challenge" ∧ request.method = "POST" then handleCapChallenge w true
  -- redeeming grades the shape the token itself commits to, so both tiers share it
  else if (path = "/cap/v1/redeem" ∨ path = "/cap/hard/redeem") ∧ request.method = "POST" then
    handleCapRedeem w request
  else if path = "/api/core-faucet" ∧ request.method = "POST" then handleFaucet w request
  else if path = "/api/invitation-faucet" ∧ request.method = "POST" then handleInvitation w request
  else do
    match ← portal w request with
    | some response => pure response
    | none => if isApi then pure (errorJson 404 "Not found" [] []) else rpc .assets id

/-- What is thrown becomes a 500. -/
def caught : Except String Response → Response
  | .ok response => response
  | .error e => errorJson 500 "Internal server error" [("detailMessage", .str e)] []

/-- The entry of a request. -/
def fetch : Prog Response := do
  let result ← (route w request).attempt
  pure (caught result)

/-- Cron: refresh the invitation inventory, then the pool. -/
def scheduled : Prog Unit := do
  let cfg ← Async.ofExcept w.resolved
  -- a failure of the invitations must not keep the faucet from its maintenance
  if cfg.faucet.invitations.enabled then do
    let _ ← (invitationRpc w .maintainInvitations id :
      Prog InvitationMaintenanceResult).attempt
    let _ ← (rpc .maintain id : Prog MaintenanceResult)
    pure ()
  else do
    let _ ← (rpc .maintain id : Prog MaintenanceResult)
    pure ()

end

end Worker

end DashFaucet

import DashFaucet.Chain.Directory
import DashFaucet.Config
import DashFaucet.Login
import DashFaucet.Treasury.Ledger

/-!
# The configuration

`config.ts` as a whole: the environment of the Worker, and what is made of it or refused. Nothing is
deployed with a configuration that was refused: every request and every operation resolves it first.

`Number` of a string is a parameter, as is the conversion to lower case.

* `Env`, `Settings`: the variables, and what they resolve to.
* `resolveConfig`, `resolveInvitationTreasuryConfig`: for the Worker and its Treasury, and for the
  Treasury of the invitations.
* `Settings.Sound`, `resolveConfig_sound`: what an accepted configuration promises.
* `invitationTreasury_sound`: what it promises for the other network.
-/

namespace DashFaucet

open Auth (AuthConfig)

/-! ### The environment -/

/-- The variables and secrets of a deployment. One that is not set is `none`. -/
structure Env where
  network : Option String
  payoutSats : Option String
  rateLimitPerHour : Option String
  dailyBudgetSats : Option String
  minBalanceSats : Option String
  poolMin : Option String
  poolTarget : Option String
  poolUtxoSats : Option String
  turnstileSiteKey : Option String
  cap : CapEnv
  rateLimitTurnstilePerHour : Option String
  rateLimitHardPerHour : Option String
  dryRun : Option String
  invitationsEnabled : Option String
  invitationNetwork : Option String
  invitationAmountSats : Option String
  invitationInventoryTarget : Option String
  invitationMaxPerRequest : Option String
  invitationTtlSecs : Option String
  invitationRateWindowSecs : Option String
  platformExplorerUrl : Option String
  invitationPlatformExplorerUrl : Option String
  adminTokenSha256 : Option String
  keyMaxPerRequestSats : Option String
  keyReserveSats : Option String
  maxPayoutInputs : Option String
  collateralCoins : Option String
  evonodeTransport : Option String
  authOrigin : Option String
  authEmailDomain : Option String
  authGithubOrg : Option String
  authAdmins : Option String
  selfServeKeyTtlDays : Option String
  maxKeysPerUser : Option String
  faucetWif : Option String
  turnstileSecret : Option String
  capSecret : Option String
  invitationSecret : Option String
  invitationFaucetWif : Option String
  sessionSecret : Option String
  googleClientId : Option String
  googleClientSecret : Option String
  githubClientId : Option String
  githubClientSecret : Option String

/-- A variable that is set, and not to the empty text. -/
def given (raw : Option String) : Option String := raw.filter (· ≠ "")

/-- A variable in a template. -/
def rawText (raw : Option String) : String := raw.getD "undefined"

/-! ### Providers -/

inductive Transport where
  | socket
  | fetch
  deriving DecidableEq, Repr

inductive ProviderSpec where
  /-- A provider at an origin; a fallback is asked when no primary provider could answer. -/
  | at (kind : ProviderKind) (url : String) (fallback : Bool)
  /-- DAPI on evonodes found at runtime. -/
  | evonodes (network : NetworkName) (transport : Transport)
  deriving DecidableEq, Repr

/-- Cheapest and most reliable first. -/
def providers : NetworkName → List ProviderSpec
  | .mainnet =>
    [.at .hyphen "https://hyphen.dash.org" false, .at .insight "https://insight.dash.org" false,
      .at .dashrpc "https://rpc.digitalcash.dev" false, .evonodes .mainnet .socket]
  -- no Core JSON-RPC on testnet: the one there is sits on a dead fork
  | .testnet =>
    [.at .insight "https://insight.testnet.networks.dash.org" false, .evonodes .testnet .socket,
      .at .dapi "https://seed-1.testnet.networks.dash.org:1443" true,
      .at .dapi "https://seed-2.testnet.networks.dash.org:1443" true,
      .at .dapi "https://seed-3.testnet.networks.dash.org:1443" true]

def providersFor (network : NetworkName) (env : Env) : List ProviderSpec :=
  let transport := if env.evonodeTransport = some "fetch" then Transport.fetch else .socket
  (providers network).map fun spec =>
    match spec with
    | .evonodes network _ => .evonodes network transport
    | spec => spec

/-! ### What is resolved -/

/-- `FaucetConfig.auth`: a provider without its client is not offered. -/
structure LoginSettings extends AuthConfig where
  client : Auth.Provider → Option Login.OAuthClient
  configured_eq : ∀ provider, configured provider = (client provider).isSome

/-- The resolved configuration. `faucet` is what the Treasury reads of it. -/
structure Settings where
  network : NetworkName
  providers : List ProviderSpec
  faucet : FaucetConfig
  minBalanceSats : ℕ
  turnstileSiteKey : String
  turnstileSecret : String
  cap : CapConfig
  /-- Blank disables the proof-of-work captcha entirely. -/
  capSecret : String
  wif : String
  auth : LoginSettings
  adminTokenSha256 : String
  invitationNetwork : NetworkName
  platformExplorerUrl : String
  invitationSecret : String

/-- What the login and the portal read. -/
def Settings.login (cfg : Settings) : Login.LoginConfig where
  auth := cfg.auth.toAuthConfig
  enabled := cfg.faucet.keysEnabled
  adminTokenSha256 := cfg.adminTokenSha256
  maxPerRequestSats := cfg.faucet.keyMaxPerRequestSats
  client := cfg.auth.client
  configured := cfg.auth.configured_eq

/-- True when re-solving at the hard tier would actually raise this client's ceiling. -/
def canEscalate (cfg : Settings) (tier : ProofTier) : Bool :=
  decide (tier ≠ .hard) && decide (cfg.capSecret ≠ "") &&
    decide (cfg.faucet.rateLimits .hard > cfg.faucet.rateLimits tier)

/-! ### Reading it -/

section

variable (number : String → Option ℕ) (toLowerCase : String → String)

/-- Like `int`, but zero is not a meaningful value for this setting. -/
def positiveInt (name : String) (raw : Option String) (fallback : ℕ) : Except String ℕ := do
  let value ← int number name raw (some fallback)
  if value < 1 then .error s!"config {name} must be at least 1" else .ok value

def oauthClient (id secret : Option String) : Option Login.OAuthClient :=
  let clientId := trim (id.getD "")
  let clientSecret := trim (secret.getD "")
  if clientId ≠ "" ∧ clientSecret ≠ "" then some ⟨clientId, clientSecret⟩ else none

/-- `/^https:\/\/[a-z0-9.-]+(:\d+)?$/i` -/
def isHttpsOrigin (text : String) : Bool :=
  let rest := text.toList.drop 8
  let host := rest.takeWhile (· ≠ ':')
  let port := rest.dropWhile (· ≠ ':')
  decide ((text.toList.take 8).map Char.toLower = "https://".toList) && !host.isEmpty &&
    host.all (fun c => c.isAlphanum || c = '.' || c = '-') &&
    (port.isEmpty || Text.isDecimal port.tail)

/-- A text without the slashes at its end. -/
def stripSlashes (text : String) : String := String.ofList (text.toList.rdropWhile (· = '/'))

/-- `/^(google:[^@\s]*@[^@\s]+|github:\d+)$/` -/
def isAdminEntry (entry : String) : Bool :=
  let rest := entry.toList.drop 7
  let user := rest.takeWhile (· ≠ '@')
  let domain := (rest.dropWhile (· ≠ '@')).tail
  (decide (entry.toList.take 7 = "google:".toList) && user.all (fun c => !Text.isWhite c) &&
      !domain.isEmpty && domain.all fun c => decide (c ≠ '@') && !Text.isWhite c) ||
    (decide (entry.toList.take 7 = "github:".toList) && Text.isDecimal rest)

/-- The admins named in `AUTH_ADMINS`. -/
def adminEntries (raw : Option String) : List String :=
  (((raw.getD "").toList.splitOn ',').map fun entry =>
    toLowerCase (trim (String.ofList entry))).filter (· ≠ "")

/-- Login is testnet-only, like the keys it hands out, and needs an origin and a session secret;
each provider additionally needs its client credentials. -/
def authConfig (env : Env) (network : NetworkName) :
    Except String LoginSettings := do
  let origin := stripSlashes (trim (env.authOrigin.getD ""))
  if origin ≠ "" ∧ isHttpsOrigin origin = false then
    .error s!"AUTH_ORIGIN must be an https origin, got {origin}"
  else
    let sessionSecret := env.sessionSecret.getD ""
    -- on mainnet nobody signs in, and not without a long secret
    let usable := decide (network = .testnet) && decide (origin ≠ "") &&
      decide (32 ≤ Portal.utf16Length sessionSecret)
    let admins := adminEntries toLowerCase env.authAdmins
    -- an entry that could match nobody is a mistake
    match admins.find? fun entry => !isAdminEntry entry with
    | some entry =>
      .error ("AUTH_ADMINS entries must be google:<email>, google:@<domain> or " ++
        s!"github:<numeric id>, got {entry}")
    | none =>
      let client : Auth.Provider → Option Login.OAuthClient := fun provider =>
        if usable then
          match provider with
          | .google => oauthClient env.googleClientId env.googleClientSecret
          | .github => oauthClient env.githubClientId env.githubClientSecret
        else none
      let keyTtlDays ← int number "SELF_SERVE_KEY_TTL_DAYS" env.selfServeKeyTtlDays (some 0)
      let maxKeysPerUser ← positiveInt number "MAX_KEYS_PER_USER" env.maxKeysPerUser 5
      .ok
        { origin := if usable then origin else ""
          sessionSecret := if usable then sessionSecret else ""
          emailDomain := toLowerCase (trim (env.authEmailDomain.getD "dash.org"))
          githubOrg := trim (env.authGithubOrg.getD "dashpay")
          admins := admins
          configured := fun provider => (client provider).isSome
          keyTtlMs := keyTtlDays * 86400000
          maxKeysPerUser := maxKeysPerUser
          client := client
          configured_eq := fun _ => rfl }

/-- ~148 bytes per signed input: 600 is ~89 kB, under the 101 kB ancestor limit. -/
def maxStandardInputs : ℕ := 600

def maxInputs (raw : Option String) : Except String ℕ := do
  let value ← positiveInt number "MAX_PAYOUT_INPUTS" raw 500
  if value > maxStandardInputs then
    .error s!"config MAX_PAYOUT_INPUTS must be at most {maxStandardInputs}"
  else .ok value

def adminTokenSha256 (raw : Option String) : Except String String :=
  let value := toLowerCase (trim (raw.getD ""))
  if value ≠ "" ∧ ¬(value.length = 64 ∧ hexOnly value = true) then
    .error "ADMIN_TOKEN_SHA256 must be a hex SHA-256 digest"
  else .ok value

def networkName (name : String) (raw : Option String) : Except String NetworkName :=
  if raw = some "mainnet" then .ok .mainnet
  else if raw = some "testnet" then .ok .testnet
  else .error (name ++ " must be \"mainnet\" or \"testnet\", got " ++ rawText raw)

/-- A network as it is named. -/
def NetworkName.name : NetworkName → String
  | .mainnet => "mainnet"
  | .testnet => "testnet"

def platformExplorer : NetworkName → String
  | .mainnet => "https://platform-explorer.pshenmic.dev"
  | .testnet => "https://testnet.platform-explorer.pshenmic.dev"

def resolveConfig (env : Env) : Except String Settings := do
  let network ← networkName "NETWORK" env.network
  match given env.faucetWif with
  | none => .error "FAUCET_WIF secret is not set"
  | some wif => do
    let invitationsEnabled := decide (env.invitationsEnabled = some "1")
    let invitationNetwork ← networkName "INVITATION_NETWORK"
      (some ((given env.invitationNetwork).getD network.name))
    let invitationSecret := env.invitationSecret.getD ""
    -- the invitation Treasury needs a secret, and a key of its own network
    if invitationsEnabled ∧ invitationSecret = "" then
      .error "INVITATION_SECRET must be set when invitations are enabled"
    else if invitationsEnabled ∧ invitationNetwork ≠ network ∧ given env.invitationFaucetWif = none
    then
      .error ("INVITATION_FAUCET_WIF must be set when the invitation network differs from " ++
        "NETWORK")
    else
      let cap ← resolveCapConfig number env.cap
      -- in the order of the source: the first that is wrong is reported
      let payoutSats ← int number "PAYOUT_SATS" env.payoutSats none
      let soft ← int number "RATE_LIMIT_PER_HOUR" env.rateLimitPerHour (some 3)
      let turnstile ← int number "RATE_LIMIT_TURNSTILE_PER_HOUR" env.rateLimitTurnstilePerHour
        (some 10)
      let hard ← int number "RATE_LIMIT_HARD_PER_HOUR" env.rateLimitHardPerHour (some 25)
      let dailyBudgetSats ← int number "DAILY_BUDGET_SATS" env.dailyBudgetSats none
      let minBalanceSats ← int number "MIN_BALANCE_SATS" env.minBalanceSats (some 0)
      let poolMin ← int number "POOL_MIN" env.poolMin (some 8)
      let poolTarget ← int number "POOL_TARGET" env.poolTarget (some 20)
      let poolUtxoSats ← int number "POOL_UTXO_SATS" env.poolUtxoSats none
      let maxPayoutInputs ← maxInputs number env.maxPayoutInputs
      let auth ← authConfig number toLowerCase env network
      let collateralCoins ← int number "COLLATERAL_COINS" env.collateralCoins (some 0)
      let adminTokenSha256 ← adminTokenSha256 toLowerCase env.adminTokenSha256
      let keyMaxPerRequestSats ← positiveInt number "KEY_MAX_PER_REQUEST_SATS"
        env.keyMaxPerRequestSats 500000000000
      let keyReserveSats ← int number "KEY_RESERVE_SATS" env.keyReserveSats (some 0)
      let amountSats ← positiveInt number "INVITATION_AMOUNT_SATS" env.invitationAmountSats 3000000
      let inventoryTarget ← int number "INVITATION_INVENTORY_TARGET" env.invitationInventoryTarget
        (some 10)
      let maxPerRequest ← positiveInt number "INVITATION_MAX_PER_REQUEST"
        env.invitationMaxPerRequest 1
      let ttlSecs ← int number "INVITATION_TTL_SECS" env.invitationTtlSecs (some (60 * 60))
      let rateWindowSecs ← int number "INVITATION_RATE_WINDOW_SECS" env.invitationRateWindowSecs
        (some (7 * 24 * 60 * 60))
      .ok
        { network := network
          providers := providersFor network env
          faucet :=
            { payoutSats := payoutSats
              rateLimits := fun tier =>
                match tier with
                | .soft => soft
                | .turnstile => turnstile
                | .hard => hard
              dailyBudgetSats := dailyBudgetSats
              poolMin := poolMin
              poolTarget := poolTarget
              poolUtxoSats := poolUtxoSats
              dryRun := decide (env.dryRun = some "1")
              maxPayoutInputs := maxPayoutInputs
              collateralCoins := collateralCoins
              keyTtlMs := auth.keyTtlMs
              keysEnabled := decide (network = .testnet)
              keyMaxPerRequestSats := keyMaxPerRequestSats
              keyReserveSats := keyReserveSats
              invitations :=
                { enabled := invitationsEnabled
                  amountSats := amountSats
                  inventoryTarget := inventoryTarget
                  maxPerRequest := maxPerRequest
                  ttlMs := ttlSecs * 1000
                  rateWindowMs := rateWindowSecs * 1000 } }
          minBalanceSats := minBalanceSats
          turnstileSiteKey := env.turnstileSiteKey.getD ""
          turnstileSecret := env.turnstileSecret.getD ""
          cap := cap
          capSecret := env.capSecret.getD ""
          wif := wif
          auth := auth
          adminTokenSha256 := adminTokenSha256
          invitationNetwork := invitationNetwork
          platformExplorerUrl := stripSlashes
            ((env.invitationPlatformExplorerUrl.or env.platformExplorerUrl).getD
              (platformExplorer invitationNetwork))
          invitationSecret := invitationSecret }

/-- The configuration of the Treasury that holds the invitations: it signs with a key of its own,
and reads the chain of its own network. -/
def resolveInvitationTreasuryConfig (env : Env) : Except String Settings := do
  let config ← resolveConfig number toLowerCase env
  let network := config.invitationNetwork
  match given ((given env.invitationFaucetWif).or
      (if network = config.network then some config.wif else none)) with
  | none => .error "INVITATION_FAUCET_WIF secret is not set"
  | some wif =>
    .ok
      { config with
        network := network
        providers := providersFor network env
        wif := wif
        faucet :=
          { config.faucet with
            -- keys follow the actor's own network: this one may hold real DASH
            keysEnabled := decide (network = .testnet)
            -- its coins are invitation inventory, never collateral
            collateralCoins := 0 } }

end

/-! ### What a configuration promises -/

/-- A login is on whole or not at all: on testnet, at an https origin, with a secret long enough. -/
structure LoginSettings.Sound (auth : LoginSettings) (network : NetworkName) : Prop where
  origin : auth.origin ≠ "" → network = .testnet ∧ isHttpsOrigin auth.origin = true ∧
    32 ≤ Portal.utf16Length auth.sessionSecret
  secret : auth.sessionSecret ≠ "" → auth.origin ≠ ""
  client : ∀ provider client, auth.client provider = some client →
    auth.origin ≠ "" ∧ client.clientId ≠ "" ∧ client.clientSecret ≠ ""
  admins : ∀ entry ∈ auth.admins, isAdminEntry entry = true
  keyTtlMs : 0 ≤ auth.keyTtlMs
  maxKeysPerUser : 1 ≤ auth.maxKeysPerUser

/-- Evonodes are those of the network. -/
def OfNetwork (network : NetworkName) (specs : List ProviderSpec) : Prop :=
  ∀ network' transport, .evonodes network' transport ∈ specs → network' = network

/-- What an accepted configuration promises. -/
structure Settings.Sound (cfg : Settings) : Prop where
  keys : cfg.faucet.keysEnabled = decide (cfg.network = .testnet)
  wif : cfg.wif ≠ ""
  providers : OfNetwork cfg.network cfg.providers
  cap : cfg.cap.capParams.InBounds ∧ cfg.cap.hardCapParams.InBounds ∧
    capWork cfg.cap.capParams < capWork cfg.cap.hardCapParams
  maxPayoutInputs : 1 ≤ cfg.faucet.maxPayoutInputs ∧
    cfg.faucet.maxPayoutInputs ≤ maxStandardInputs
  keyTtlMs : cfg.faucet.keyTtlMs = cfg.auth.keyTtlMs
  keyMaxPerRequestSats : 1 ≤ cfg.faucet.keyMaxPerRequestSats
  adminTokenSha256 : cfg.adminTokenSha256 ≠ "" →
    cfg.adminTokenSha256.length = 64 ∧ hexOnly cfg.adminTokenSha256 = true
  /-- No voucher is kept under an empty secret. -/
  invitations : cfg.faucet.invitations.enabled = true → cfg.invitationSecret ≠ ""
  amountSats : 1 ≤ cfg.faucet.invitations.amountSats
  maxPerRequest : 1 ≤ cfg.faucet.invitations.maxPerRequest
  ttlMs : 0 ≤ cfg.faucet.invitations.ttlMs
  rateWindowMs : 0 ≤ cfg.faucet.invitations.rateWindowMs

variable {number : String → Option ℕ} {toLowerCase : String → String}

theorem ne_empty_of_given {raw : Option String} {text : String} (h : given raw = some text) :
    text ≠ "" :=
  of_decide_eq_true (Option.filter_eq_some_iff.mp h).2

theorem positiveInt_ok {name : String} {raw : Option String} {fallback n : ℕ}
    (h : positiveInt number name raw fallback = .ok n) : 1 ≤ n := by
  obtain ⟨value, -, h⟩ := Except.of_bind_ok h
  split at h
  · cases h
  · next hpos =>
    cases h
    exact Nat.not_lt.mp hpos

theorem maxInputs_ok {raw : Option String} {n : ℕ} (h : maxInputs number raw = .ok n) :
    1 ≤ n ∧ n ≤ maxStandardInputs := by
  obtain ⟨value, hvalue, h⟩ := Except.of_bind_ok h
  split at h
  · cases h
  · next hle =>
    cases h
    exact ⟨positiveInt_ok hvalue, Nat.not_lt.mp hle⟩

theorem adminTokenSha256_ok {raw : Option String} {value : String}
    (h : adminTokenSha256 toLowerCase raw = .ok value) (hne : value ≠ "") :
    value.length = 64 ∧ hexOnly value = true := by
  unfold adminTokenSha256 at h
  dsimp only at h
  split at h
  · cases h
  · next hform =>
    cases h
    exact not_not.mp (not_and.mp hform hne)

theorem oauthClient_some {id secret : Option String} {client : Login.OAuthClient}
    (h : oauthClient id secret = some client) :
    client.clientId ≠ "" ∧ client.clientSecret ≠ "" := by
  unfold oauthClient at h
  dsimp only at h
  split at h
  · next hgiven =>
    cases h
    exact hgiven
  · cases h

theorem of_ite_ne_empty {b : Bool} {text : String} (h : (if b then text else "") ≠ "") :
    b = true ∧ text ≠ "" := by
  cases b with
  | true => exact ⟨rfl, h⟩
  | false => exact absurd rfl h

theorem authConfig_sound {env : Env} {network : NetworkName} {auth : LoginSettings}
    (h : authConfig number toLowerCase env network = .ok auth) : auth.Sound network := by
  unfold authConfig at h
  dsimp only at h
  split at h
  · cases h
  next horigin =>
    split at h
    · cases h
    next hadmins =>
      -- past the checks everything hangs on whether the origin is usable
      obtain ⟨keyTtlDays, -, h⟩ := Except.of_bind_ok h
      obtain ⟨maxKeysPerUser, hmax, h⟩ := Except.of_bind_ok h
      cases h
      constructor
      case origin =>
        intro hne
        obtain ⟨husable, hne⟩ := of_ite_ne_empty hne
        dsimp only
        rw [if_pos husable, if_pos husable]
        simp only [Bool.and_eq_true, decide_eq_true_eq] at husable
        exact ⟨husable.1.1, Bool.of_not_eq_false fun hno => horigin ⟨hne, hno⟩, husable.2⟩
      case secret =>
        intro hne
        obtain ⟨husable, -⟩ := of_ite_ne_empty hne
        dsimp only
        rw [if_pos husable]
        simp only [Bool.and_eq_true, decide_eq_true_eq] at husable
        exact husable.1.2
      case client =>
        intro provider client hclient
        dsimp only at hclient ⊢
        split at hclient
        · next husable =>
          rw [if_pos husable]
          simp only [Bool.and_eq_true, decide_eq_true_eq] at husable
          cases provider with
          | google => exact ⟨husable.1.2, oauthClient_some hclient⟩
          | github => exact ⟨husable.1.2, oauthClient_some hclient⟩
        · cases hclient
      case admins =>
        intro entry hentry
        have hform := List.find?_eq_none.mp hadmins entry hentry
        simpa using hform
      case keyTtlMs => exact mul_nonneg (Int.natCast_nonneg _) (by decide)
      case maxKeysPerUser => exact positiveInt_ok hmax

theorem providersFor_ofNetwork (network : NetworkName) (env : Env) :
    OfNetwork network (providersFor network env) := by
  intro network' transport hmem
  obtain ⟨spec, hspec, heq⟩ := List.mem_map.mp hmem
  cases spec with
  | «at» kind url fallback => cases heq
  | evonodes network₀ transport₀ =>
    cases heq
    cases network with
    | mainnet =>
      simp only [providers, List.mem_cons, reduceCtorEq, ProviderSpec.evonodes.injEq, false_or,
        List.not_mem_nil, or_false] at hspec
      exact hspec.1
    | testnet =>
      simp only [providers, List.mem_cons, reduceCtorEq, ProviderSpec.evonodes.injEq, false_or,
        List.not_mem_nil, or_false] at hspec
      exact hspec.1

/-- **What is accepted is sound**, whatever the environment. -/
theorem resolveConfig_sound {env : Env} {cfg : Settings}
    (h : resolveConfig number toLowerCase env = .ok cfg) :
    cfg.Sound ∧ cfg.auth.Sound cfg.network := by
  obtain ⟨network, -, h⟩ := Except.of_bind_ok h
  split at h
  · cases h
  next wif hwif =>
    obtain ⟨invitationNetwork, -, h⟩ := Except.of_bind_ok h
    dsimp only at h
    split at h
    · cases h
    next hsecret =>
      split at h
      · cases h
      next =>
        -- one variable after the other; those without a bound are of no interest here
        obtain ⟨cap, hcap, h⟩ := Except.of_bind_ok h
        obtain ⟨payoutSats, -, h⟩ := Except.of_bind_ok h
        obtain ⟨soft, -, h⟩ := Except.of_bind_ok h
        obtain ⟨turnstile, -, h⟩ := Except.of_bind_ok h
        obtain ⟨hard, -, h⟩ := Except.of_bind_ok h
        obtain ⟨dailyBudgetSats, -, h⟩ := Except.of_bind_ok h
        obtain ⟨minBalanceSats, -, h⟩ := Except.of_bind_ok h
        obtain ⟨poolMin, -, h⟩ := Except.of_bind_ok h
        obtain ⟨poolTarget, -, h⟩ := Except.of_bind_ok h
        obtain ⟨poolUtxoSats, -, h⟩ := Except.of_bind_ok h
        obtain ⟨maxPayoutInputs, hinputs, h⟩ := Except.of_bind_ok h
        obtain ⟨auth, hauth, h⟩ := Except.of_bind_ok h
        obtain ⟨collateralCoins, -, h⟩ := Except.of_bind_ok h
        obtain ⟨adminToken, hadmin, h⟩ := Except.of_bind_ok h
        obtain ⟨keyMax, hkeyMax, h⟩ := Except.of_bind_ok h
        obtain ⟨keyReserve, -, h⟩ := Except.of_bind_ok h
        obtain ⟨amountSats, hamount, h⟩ := Except.of_bind_ok h
        obtain ⟨inventoryTarget, -, h⟩ := Except.of_bind_ok h
        obtain ⟨maxPerRequest, hmax, h⟩ := Except.of_bind_ok h
        obtain ⟨ttlSecs, -, h⟩ := Except.of_bind_ok h
        obtain ⟨rateWindowSecs, -, h⟩ := Except.of_bind_ok h
        cases h
        exact ⟨{ keys := rfl
                 wif := ne_empty_of_given hwif
                 providers := providersFor_ofNetwork network env
                 cap := resolveCapConfig_ok hcap
                 maxPayoutInputs := maxInputs_ok hinputs
                 keyTtlMs := rfl
                 keyMaxPerRequestSats := positiveInt_ok hkeyMax
                 adminTokenSha256 := adminTokenSha256_ok hadmin
                 invitations := fun hon hempty => hsecret ⟨hon, hempty⟩
                 amountSats := positiveInt_ok hamount
                 maxPerRequest := positiveInt_ok hmax
                 ttlMs := mul_nonneg (Int.natCast_nonneg _) (by decide)
                 rateWindowMs := mul_nonneg (Int.natCast_nonneg _) (by decide) },
          authConfig_sound hauth⟩

/-- **The Treasury of the invitations** stands on its own: it reads the chain of its own network,
hands out keys only there, keeps no collateral, and never signs with the key of the other network's
faucet. -/
theorem invitationTreasury_sound {env : Env} {cfg inv : Settings}
    (h : resolveConfig number toLowerCase env = .ok cfg)
    (hinv : resolveInvitationTreasuryConfig number toLowerCase env = .ok inv) :
    inv.Sound ∧ inv.network = cfg.invitationNetwork ∧ inv.faucet.collateralCoins = 0 ∧
      (inv.network ≠ cfg.network → given env.invitationFaucetWif = some inv.wif) := by
  obtain ⟨cfg', hcfg', hinv⟩ := Except.of_bind_ok hinv
  cases h.symm.trans hcfg'
  have hsound := (resolveConfig_sound h).1
  dsimp only at hinv
  split at hinv
  · cases hinv
  next wif hwif =>
    cases hinv
    refine ⟨{ hsound with
              keys := rfl
              wif := ne_empty_of_given hwif
              providers := providersFor_ofNetwork _ env }, rfl, rfl, fun hother => ?_⟩
    -- on another network the key of the faucet is no substitute
    rw [if_neg hother, Option.or_none] at hwif
    have hgiven := (Option.filter_eq_some_iff.mp hwif).1
    exact hgiven

/-! ### A sample -/

/-- An environment that sets nothing. -/
def Env.unset : Env where
  network := none
  payoutSats := none
  rateLimitPerHour := none
  dailyBudgetSats := none
  minBalanceSats := none
  poolMin := none
  poolTarget := none
  poolUtxoSats := none
  turnstileSiteKey := none
  cap := ⟨⟨none, none, none⟩, ⟨none, none, none⟩⟩
  rateLimitTurnstilePerHour := none
  rateLimitHardPerHour := none
  dryRun := none
  invitationsEnabled := none
  invitationNetwork := none
  invitationAmountSats := none
  invitationInventoryTarget := none
  invitationMaxPerRequest := none
  invitationTtlSecs := none
  invitationRateWindowSecs := none
  platformExplorerUrl := none
  invitationPlatformExplorerUrl := none
  adminTokenSha256 := none
  keyMaxPerRequestSats := none
  keyReserveSats := none
  maxPayoutInputs := none
  collateralCoins := none
  evonodeTransport := none
  authOrigin := none
  authEmailDomain := none
  authGithubOrg := none
  authAdmins := none
  selfServeKeyTtlDays := none
  maxKeysPerUser := none
  faucetWif := none
  turnstileSecret := none
  capSecret := none
  invitationSecret := none
  invitationFaucetWif := none
  sessionSecret := none
  googleClientId := none
  googleClientSecret := none
  githubClientId := none
  githubClientSecret := none

/-- What has to be set, and a captcha. -/
def sampleEnv (network : String) : Env :=
  { Env.unset with
    network := some network
    payoutSats := some "100000000"
    dailyBudgetSats := some "300000000"
    poolUtxoSats := some "200000000"
    capSecret := some "cap secret"
    faucetWif := some "wif" }

/-- `Number` on what is written in digits. -/
def numberOfDigits (text : String) : Option ℕ :=
  if Text.isDecimal text.toList then some (Text.decimal text.toList) else none

def sampleSettings (network : NetworkName) : Settings where
  network := network
  providers := providers network
  faucet :=
    { payoutSats := coin
      rateLimits := fun tier =>
        match tier with
        | .soft => 3
        | .turnstile => 10
        | .hard => 25
      dailyBudgetSats := 3 * coin
      poolMin := 8
      poolTarget := 20
      poolUtxoSats := 2 * coin
      dryRun := false
      maxPayoutInputs := 500
      collateralCoins := 0
      keyTtlMs := 0
      keysEnabled := decide (network = .testnet)
      keyMaxPerRequestSats := 5000 * coin
      keyReserveSats := 0
      invitations :=
        { enabled := false, amountSats := 3000000, inventoryTarget := 10, maxPerRequest := 1
          ttlMs := hourMs, rateWindowMs := 7 * dayMs } }
  minBalanceSats := 0
  turnstileSiteKey := ""
  turnstileSecret := ""
  cap := ⟨⟨100, 32, 4⟩, ⟨50, 32, 6⟩⟩
  capSecret := "cap secret"
  wif := "wif"
  auth :=
    { origin := "", sessionSecret := "", emailDomain := "dash.org", githubOrg := "dashpay"
      admins := [], configured := fun _ => false, keyTtlMs := 0, maxKeysPerUser := 5
      client := fun _ => none, configured_eq := fun _ => rfl }
  adminTokenSha256 := ""
  invitationNetwork := network
  platformExplorerUrl := platformExplorer network
  invitationSecret := ""

theorem resolveConfig_sample (network : NetworkName) :
    resolveConfig numberOfDigits id (sampleEnv network.name) = .ok (sampleSettings network) := by
  cases network with
  | mainnet => rfl
  | testnet => rfl

end DashFaucet

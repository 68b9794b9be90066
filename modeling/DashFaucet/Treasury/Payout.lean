import DashFaucet.Amounts
import DashFaucet.Treasury.Accounts
import DashFaucet.Treasury.Merge

/-!
# Payouts

`payoutLocked`: one payout from an address's request to its bookkeeping. `admitPayout` is the part
before the first await: it authenticates an API key or a code, or applies the public limits, and
fixes who pays (`Payer`) and how much.
-/

namespace DashFaucet

open Async

namespace Payer

def isKey : Payer → Bool
  | apiKey _ => true
  | _ => false

def isMn : Payer → Bool
  | apiKey row => row.tier = .mn
  | _ => false

def keyId : Payer → Option String
  | apiKey row => some row.id
  | _ => none

def codeLabel : Payer → Option String
  | code row => some row.label
  | _ => none

end Payer

namespace State

/-- The instants of the hits of an IP in the last hour. -/
def hits (ip : String) (now : ℤ) (s : State) : List ℤ :=
  (s.ledger.ipHits.filter fun h => h.ip = ip ∧ h.createdAt > now - hourMs).map IpHit.createdAt

/-- The instants of the payouts of a key in the last day. -/
def keyHits (keyId : String) (now : ℤ) (s : State) : List ℤ :=
  (s.ledger.keyPayouts.filter fun p => p.keyId = keyId ∧ p.createdAt > now - dayMs).map
    KeyPayout.createdAt

end State

/-! ### API keys and codes -/

/-- The amount a key pays, or why it refuses. -/
def keyAmount (cfg : FaucetConfig) (row : ApiKeyRow) (requestedSats : Option ℕ) :
    Except PayoutResult ℕ :=
  match row.tier with
  | .mn =>
    -- an amount may be left out, or be the collateral
    if requestedSats.any fun sats => decide (sats ≠ mnCollateralSats) then
      .error (.badRequest "An mn key always pays exactly one 1000 DASH collateral; omit amount")
    else .ok mnCollateralSats
  | .trusted =>
    let satoshis := requestedSats.getD cfg.payoutSats
    let limit := JsNumber.num (dash cfg.keyMaxPerRequestSats)
    if satoshis > cfg.keyMaxPerRequestSats then
      .error (.badRequest s!"amount may be at most {limit.text} DASH per request")
    else .ok satoshis

/-- Authenticate an API key and settle what this payout may be. -/
def authorizeKeyPayout (cfg : FaucetConfig) (s : State) (apiKeyHash : String)
    (requestedSats : Option ℕ) (now : ℤ) : Except PayoutResult (ApiKeyRow × ℕ) :=
  match s.admin.apiKeys.find? apiKeyHash with
  | none => .error .unauthorized
  | some row =>
    if !cfg.keysEnabled || !row.live now then .error .unauthorized
    else
      match keyAmount cfg row requestedSats with
      | .error refusal => .error refusal
      | .ok satoshis =>
        match row.perDay with
        | none => .ok (row, satoshis)
        -- a rolling day, of what was charged to the key
        | some perDay =>
          let hits := s.keyHits row.id now
          if hits.length ≥ perDay then .error (.rateLimited (windowRetryAfter dayMs now hits))
          else .ok (row, satoshis)

inductive CodeCheck where
  | ok (code : CodeRow)
  | invalid
  | used
  deriving DecidableEq, Repr

/-- Whether `key` may pay `address` right now: once per address per code. -/
def checkCode (s : State) (key address : String) (now : ℤ) : CodeCheck :=
  match s.admin.codes.rows.find? fun row => row.codeKey = key with
  | none => .invalid
  | some row =>
    if row.disabled || (row.expiresAt.any fun t => decide (t ≤ now)) ||
        decide (row.redemptions ≥ row.maxRedemptions) then .invalid
    else if s.ledger.codeRedemptions.any fun r => r.codeId = row.id ∧ r.address = address then
      .used
    else .ok row

/-! ### Admission -/

/-- The public limits: one claim per address and day, the hourly limit of the IP, the daily
budget. The first repeats the day's payout instead of making one. -/
def admitPublic (cfg : FaucetConfig) (s : State) (input : PayoutRequest) (now : ℤ) :
    Except PayoutResult (Payer × ℕ) :=
  match s.ledger.claims.find? (input.address, utcDay now) with
  -- idempotency: the same address on the same day gets the original transaction
  | some prior =>
    .error (.ok { txid := prior.txid, satoshis := prior.satoshis, replay := true, dryRun := false,
                  accepted := [] })
  | none =>
    let hits := s.hits input.ip now
    -- the limit of the IP, by how strong a proof was presented
    if hits.length ≥ cfg.rateLimits (input.tier.getD .soft) then
      .error (.rateLimited (windowRetryAfter hourMs now hits))
    else if s.ledger.spentToday (utcDay now) + cfg.payoutSats > cfg.dailyBudgetSats then
      .error (.budgetExhausted (retryAfterSeconds ((utcDay now + 1) * dayMs - now)))
    else .ok (.anyone, cfg.payoutSats)

/-- Who pays and how much, or the answer given at once. -/
def admitPayout (cfg : FaucetConfig) (s : State) (input : PayoutRequest) (now : ℤ) :
    Except PayoutResult (Payer × ℕ) :=
  match input.apiKeyHash, input.codeKey with
  | some hash, _ =>
    match authorizeKeyPayout cfg s hash input.requestedSats now with
    | .error refusal => .error refusal
    | .ok (row, satoshis) => .ok (.apiKey row, satoshis)
  | none, some key =>
    -- decided inside the lock, so two cannot race for the last redemption
    if !cfg.keysEnabled then .error .codeInvalid
    else
      match checkCode s key input.address now with
      | .ok row => .ok (.code row, row.amountSats)
      | .used => .error .codeUsed
      | .invalid => .error .codeInvalid
  | none, none => admitPublic cfg s input now

/-! ### Bookkeeping -/

namespace State

def recordKeyPayout (key : ApiKeyRow) (built : BuiltTx) (address : String) (satoshis : ℕ)
    (now : ℤ) (s : State) : State :=
  let s := s.withLedger fun l =>
    { l with keyPayouts := l.keyPayouts ++ [⟨key.id, built.txid, address, satoshis, now⟩] }
  s.withAdmin fun a =>
    { a with
      apiKeys := a.apiKeys.update (fun r => r.hash = key.hash) fun r =>
        { r with lastUsedAt := some now, payouts := r.payouts + 1,
                 paidSats := r.paidSats + satoshis } }

def recordRedemption (code : CodeRow) (address txid : String) (satoshis : ℕ) (now : ℤ)
    (s : State) : State :=
  let s := s.withLedger fun l =>
    { l with codeRedemptions := l.codeRedemptions ++ [⟨code.id, address, txid, satoshis, now⟩] }
  s.withAdmin fun a =>
    { a with
      codes := a.codes.update (fun r => r.id = code.id) fun r =>
        { r with redemptions := r.redemptions + 1 } }

/-- The claim, the hit and the budget of a public payout. -/
def recordClaim (built : BuiltTx) (address ip : String) (satoshis : ℕ) (now : ℤ) :
    State → State :=
  withLedger fun l =>
    { l with
      claims := l.claims.insertOrReplace ⟨address, utcDay now, built.txid, satoshis, now⟩
      ipHits := l.ipHits ++ [⟨ip, now⟩]
      budget := Ledger.addToBudget (utcDay now) satoshis l.budget }

/-- The limits that may have been used up without an answer: a key and a code are charged for a
payout that may be live, the public ledgers are not. -/
def chargeUncertain (payer : Payer) (built : BuiltTx) (input : PayoutRequest) (satoshis : ℕ)
    (now : ℤ) (s : State) : State :=
  match payer with
  | .apiKey row => s.recordKeyPayout row built input.address satoshis now
  | .code row => s.recordRedemption row input.address built.txid satoshis now
  | .anyone => s

/-- The local bookkeeping for an accepted payout. -/
def commit (payer : Payer) (built : BuiltTx) (input : PayoutRequest) (satoshis : ℕ) (now : ℤ)
    (s : State) : State :=
  match payer with
  | .apiKey row => s.recordKeyPayout row built input.address satoshis now
  | .code row => s.recordRedemption row input.address built.txid satoshis now
  | .anyone => s.recordClaim built input.address input.ip satoshis now

end State

/-! ### The payout -/

namespace Faucet

variable (f : Faucet)

/-- Whether a thrown error is one of the three about the coins at hand. -/
def isShortage : Thrown → Bool
  | .insufficientFunds .. | .tooFragmented .. | .unconfirmedFunds .. => true
  | _ => false

/-- Build a payout without touching kept collateral coins when anything else covers it. -/
def buildPayoutSparingCollateral (key : FaucetKey) (utxos : List Utxo)
    (recipientPubKeyHash : String) (satoshis : ℕ) (forCollateral : Bool) : Prog BuiltTx := do
  let build := fun coins =>
    f.dash.buildPayout key coins recipientPubKeyHash satoshis f.cfg.maxPayoutInputs
  if forCollateral || f.cfg.collateralCoins = 0 then build utxos
  else
    let spare := utxos.filter fun u => u.satoshis < collateralCoinSats
    if spare.length = utxos.length then build utxos
    else
      match ← attempt (build spare) with
      | .ok built => pure built
      -- only what more coins could mend is tried with the collateral coins
      | .error e => if isShortage e then build utxos else .throw e

/-- The answer to a payout that could not be built. A payout that needs more coins than one
transaction carries asks maintenance for one coin that pays it, when a merge could build it. -/
def refuse (view : UtxoSnapshot) (satoshis : ℕ) (now : ℤ) : Thrown → Prog PayoutResult
  | e@(.insufficientFunds ..) => pure (.insufficientFunds (describeError e))
  -- the next block fixes it with no merge at all
  | e@(.unconfirmedFunds ..) => do
    f.scheduleMaintenance followUpMs
    pure (.fragmented (describeError e) (some (confirmationPollMs / 1000)))
  | e@(.tooFragmented ..) => do
    let demand := satoshis + coin
    -- unless no merge could build it: then a retry would never succeed either
    if !f.merging || f.planMerge view demand matches .none _ then
      pure (.fragmented (describeError e) none)
    else do
      modify (State.withLedger fun l => { l with mergeDemand := l.mergeDemand ++ [⟨demand, now⟩] })
      f.scheduleMaintenance followUpMs
      pure (.fragmented (describeError e) (some (confirmationPollMs / 1000)))
  | .selfPay => pure (.selfPay (describeError .selfPay))
  | _ => pure (.error "could not build transaction")

/-- Whether the payout spent a coin of collateral size. -/
def spentCollateral (view : UtxoSnapshot) (built : BuiltTx) : Bool :=
  view.utxos.any fun u => decide (u.satoshis ≥ collateralCoinSats) &&
    built.inputs.contains u.outpoint

/-- A payout that was broadcast: settle it and keep the books. -/
def payOut (input : PayoutRequest) (payer : Payer) (satoshis : ℕ) (view : UtxoSnapshot)
    (built : BuiltTx) (now : ℤ) : Prog PayoutResult := do
  match ← f.settleBroadcast built now with
  | .failed result uncertain =>
    if uncertain then modify (State.chargeUncertain payer built input satoshis now)
    else pure ()
    pure result
  | .ok accepted =>
    modify (State.recordSpend built now)
    modify (State.commit payer built input satoshis now)
    -- last, so nothing can come between the broadcast and its bookkeeping
    if payer.isKey || spentCollateral view built then f.scheduleMaintenance followUpMs
    else pure ()
    pure (.ok { txid := built.txid, satoshis, replay := false, dryRun := false, accepted,
                keyId := payer.keyId, codeLabel := payer.codeLabel })

/-- A payout that was admitted: find coins, build, broadcast. -/
def payoutFrom (input : PayoutRequest) (payer : Payer) (satoshis : ℕ) (now : ℤ) :
    Prog PayoutResult := do
  let key ← f.key
  match ← attempt (f.spendableUtxos key now) with
  | .error e => pure (.chainUnavailable (describeError e))
  | .ok view =>
    let balance := sumSats view.utxos
    if payer ≠ .anyone ∧ (balance : ℤ) - satoshis < f.cfg.keyReserveSats then
      pure (.insufficientFunds <| s!"{satoshis} duffs would take the {balance}-duff balance " ++
        s!"below the {f.cfg.keyReserveSats}-duff public reserve")
    else
      match ← attempt (f.buildPayoutSparingCollateral key view.utxos input.pubKeyHash satoshis
        payer.isMn) with
      | .error e => f.refuse view satoshis now e
      | .ok built => do
        note (.built built)
        if f.cfg.dryRun then
          -- build and sign, but change no state and touch no network
          pure (.ok { txid := built.txid, satoshis, replay := false, dryRun := true, accepted := [],
                      keyId := payer.keyId, codeLabel := payer.codeLabel })
        else f.payOut input payer satoshis view built now

def payoutLocked (input : PayoutRequest) (now : ℤ) : Prog PayoutResult := do
  modify (State.prune f.cfg now)
  let s ← read
  match admitPayout f.cfg s input now with
  | .error answer => pure answer
  | .ok (payer, satoshis) => do
    note (.admitted payer satoshis)
    f.payoutFrom input payer satoshis now

end Faucet

end DashFaucet

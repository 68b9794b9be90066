import DashFaucet.Invitation
import DashFaucet.Treasury.Ledger

/-!
# Spending

The programs every spender of the Treasury shares: the spendable view and the settlement of a
broadcast.

`Faucet` bundles what a deployment fixes: its configuration, its providers, its key and the
third-party functions. `note` writes the record of the run and nothing else.
-/

namespace DashFaucet

open Async

/-- A deployment. -/
structure Faucet where
  cfg : FaucetConfig
  chain : ChainClient
  dash : DashTx
  /-- What `loadFaucetKey` resolves to. -/
  faucetKey : Except Thrown FaucetKey
  /-- `DashTx.createPkhScript`. -/
  createPkhScript : String → String
  sha256 : List ℕ → List ℕ

/-! ### Steps on the state -/

namespace State

/-- `prune`: the ledger's tables, and the capTokens past their own expiry. -/
def prune (cfg : FaucetConfig) (now : ℤ) (s : State) : State :=
  { s with
    ledger := s.ledger.prune cfg now
    admin := { s.admin with usedCap := s.admin.usedCap.deleteWhere fun r => r.expiresAt < now } }

def recordVerdict (txid : String) (isCoinbase : Bool) (now : ℤ) : State → State :=
  withLedger (Ledger.recordVerdict txid isCoinbase now)

/-- Mark a transaction's inputs as consumed, without claiming its outputs. -/
def lockInputs (built : BuiltTx) (now : ℤ) (s : State) : State :=
  (s.withLedger (Ledger.lockInputs built now)).note (.locked built)

/-- Lock the inputs and claim the outputs. -/
def recordSpend (built : BuiltTx) (now : ℤ) (s : State) : State :=
  -- ours are never coinbases: spare the lookup when the change confirms
  (((s.lockInputs built now).recordVerdict built.txid false now).withLedger
    (Ledger.recordOutputs built now)).note (.recorded built)

end State

/-- Write the record of the run. -/
def note (e : Event) : Prog Unit := modify (State.note e)

namespace Faucet

variable (f : Faucet)

/-- Whether this deployment merges coins on its own. -/
def merging : Bool := decide (f.cfg.collateralCoins > 0) && !f.cfg.dryRun

def key : Prog FaucetKey := do
  let _ : Unit ← ask Query.loadKey
  ofExcept f.faucetKey

/-- Bring the next maintenance pass forward. Failures are logged and swallowed. -/
def scheduleMaintenance (delayMs : ℤ) : Prog Unit :=
  if f.merging then ask (Query.bookAlarm delayMs) else pure ()

/-! ### The spendable view -/

/-- A coin deep enough to be spent, were it a coinbase. -/
def Mature (tip : JsNumber) (u : Utxo) : Prop :=
  ∃ h, u.height = some h ∧ coinbaseMaturity ≤ tip + 1 - h

/-- A coin that is not under `coinbaseMaturity` deep. Its depth may be NaN. -/
def NotYoung (tip : JsNumber) (u : Utxo) : Prop :=
  ∃ h, u.height = some h ∧ ¬tip + 1 - h < coinbaseMaturity

/-- The depth of a coin that has a height is a number. -/
def Measured (tip : JsNumber) (u : Utxo) : Prop := ∀ h, u.height = some h → tip + 1 - h ≠ .nan

theorem NotYoung.mature {tip : JsNumber} {u : Utxo} (h : NotYoung tip u) (hnum : Measured tip u) :
    Mature tip u := by
  obtain ⟨height, hheight, hdeep⟩ := h
  exact ⟨height, hheight, JsNumber.le_of_not_lt (hnum height hheight) (by decide) hdeep⟩

/-- The transactions of the coins under `coinbaseMaturity` deep, each once. -/
def young (snapshot : UtxoSnapshot) : List String :=
  ((snapshot.utxos.filter fun u =>
    match u.height with
    | none => true
    | some h => decide (snapshot.tipHeight + 1 - h < coinbaseMaturity)).map Utxo.txid).eraseDups

/-- The settled lookups that were fulfilled. -/
def fulfilled (txids : List String) (settled : List (Except Thrown Bool)) : List (String × Bool) :=
  (txids.zip settled).filterMap fun
    | (txid, .ok isCoinbase) => some (txid, isCoinbase)
    | (_, .error _) => none

/-- Young coinbases, and young transactions nobody could classify. -/
def immatureTxids (snapshot : UtxoSnapshot) (now : ℤ) : Prog (List String) := do
  let young := young snapshot
  let s ← read
  let verdicts := s.ledger.coinbaseChecks
  let unknown := (young.filter fun txid => (verdicts.find? txid).isNone).take maxCoinbaseLookups
  let settled ← forEach (fun txid => attempt (f.chain.isCoinbase txid)) unknown
  let looked := fulfilled unknown settled
  modify fun s => looked.foldl (fun s v => s.recordVerdict v.1 v.2 now) s
  -- unclassified sits out: better than a payout every relay would refuse
  pure <| young.filter fun txid =>
    ((looked.lookup txid).or ((verdicts.find? txid).map CoinbaseCheck.isCoinbase)).getD true

/-- Confirmed coins from the explorers, plus our own in-flight outputs, minus what we spent. -/
def spendableUtxos (key : FaucetKey) (now : ℤ) : Prog UtxoSnapshot := do
  let snapshot ← f.chain.getUtxos key.address
  let immature ← f.immatureTxids snapshot now
  let confirmed := snapshot.utxos.map Utxo.outpoint
  modify (State.withLedger (Ledger.reconcile confirmed now))
  let script := f.createPkhScript key.pubKeyHash
  let s ← read
  let view := { snapshot with utxos := s.ledger.spendable script snapshot.utxos immature }
  note (.viewed snapshot view)
  pure view

/-! ### Settling a broadcast -/

/-- `/missing inputs|inputs-missingorspent|bad-txns-inputs/i`. -/
def isStaleCoin (detail : String) : Bool :=
  let text := detail.toList.map Char.toLower
  includes "missing inputs" text || includes "inputs-missingorspent" text ||
    includes "bad-txns-inputs" text

/-- Return the outcome of a settlement, leaving it in the record. -/
def settled (built : BuiltTx) (outcome : BroadcastSettlement) : Prog BroadcastSettlement := do
  note (.settled built outcome)
  pure outcome

/-- Broadcast and decide whether the transaction is on the network. -/
def settleBroadcast (built : BuiltTx) (now : ℤ) : Prog BroadcastSettlement := do
  let result ← f.chain.broadcast built.hex built.txid
  if result.accepted ≠ [] then settled built (.ok result.accepted)
  else if result.ambiguous ≠ [] then do
    -- rebroadcasting identical bytes is idempotent
    let again ← f.chain.broadcast built.hex built.txid
    if again.accepted ≠ [] then settled built (.ok again.accepted)
    else do
      let known ← f.chain.anyKnowsTx built.txid
      if known = some true then settled built (.ok ["observed on-chain"])
      else do
        modify (State.lockInputs built now)
        settled built
          (.failed (.chainUnavailable "broadcast could not be confirmed, please retry") true)
  else if isStaleCoin (" | ".intercalate result.rejected) then do
    -- our view of the coin was stale; burn it so the retry picks another
    modify (State.lockInputs built now)
    settled built (.failed (.chainUnavailable "stale coin view, please retry") false)
  else settled built (.failed (.chainUnavailable "broadcast rejected") false)

end Faucet

end DashFaucet

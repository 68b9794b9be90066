import DashFaucet.Treasury.Merge

/-!
# Maintenance

`maintain`: split a coin when the pool has run low, merge coins otherwise. And `snapshot`, which
shows the wallet by the same rules.

The source multiplies by the double `0.99`; the model takes the exact rational.
-/

namespace DashFaucet

open Async

namespace State

/-- Keep the merge demands that satisfy `p`. -/
def filterDemand (p : MergeDemand → Bool) : State → State :=
  withLedger fun l => { l with mergeDemand := l.mergeDemand.filter p }

end State

/-- The value of the largest coin, 0 when there is none. -/
def largestSats (utxos : List Utxo) : ℕ := (utxos.map Utxo.satoshis).foldl max 0

namespace Faucet

variable (f : Faucet)

/-- The size from which a coin is a kept collateral coin and no pool coin. -/
def isKept (u : Utxo) : Bool :=
  decide (f.cfg.collateralCoins > 0) && decide (u.satoshis ≥ collateralCoinSats)

/-- The coins that serve the pool. -/
def poolCoins (view : UtxoSnapshot) : List Utxo :=
  view.utxos.filter fun u => decide (u.satoshis ≥ f.cfg.poolUtxoSats) && !f.isKept u

/-- The largest coin a recent payout needed and no coin yet covers; 0 when there is none. A
demand some coin now meets is dropped. -/
def mergeDemand (view : UtxoSnapshot) : Prog ℕ := do
  modify (State.filterDemand fun r => !(r.satoshis ≤ largestSats view.utxos))
  let s ← read
  pure ((s.ledger.mergeDemand.map MergeDemand.satoshis).foldl max 0)

/-- Build, broadcast and record one merge of `inputs` into a single coin. -/
def merge (key : FaucetKey) (inputs : List Utxo) (reaches : Bool) (now : ℤ) :
    Prog MaintenanceResult :=
  if f.cfg.dryRun then pure ⟨.none, s!"dry run: would consolidate {inputs.length} coins", none⟩
  else do
    match ← attempt (f.dash.buildConsolidation key inputs) with
    | .error e => pure ⟨.blocked, describeError e, none⟩
    | .ok built =>
      note (.built built)
      -- in doubt or rejected, there is nothing to record here
      match ← f.settleBroadcast built now with
      | .failed .. => pure ⟨.blocked, "consolidation broadcast could not be confirmed", none⟩
      | .ok _ =>
        modify (State.recordSpend built now)
        let merged := (built.ownOutputs.head?.map OwnOutput.satoshis).getD 0
        let more := if reaches then "" else "; more merging once it confirms"
        pure ⟨.consolidate, s!"merged {inputs.length} coins into {merged} duffs" ++ more,
          some built.txid⟩

/-- Try the goals in order. A demand out of reach is dropped rather than hold up the next. -/
def planGoals (view : UtxoSnapshot) (demand : ℕ) : List ℕ → MergePlan → Prog MergePlan
  | [], plan => pure plan
  | goal :: goals, _ =>
    match f.planMerge view goal with
    | .none detail => do
      if goal = demand then modify (State.filterDemand fun r => !(r.satoshis ≥ demand))
      else pure ()
      planGoals view demand goals (.none detail)
    | plan => pure plan

/-- The goals of a pass, largest first: a demand, and one more collateral coin. -/
def goals (view : UtxoSnapshot) (demand : ℕ) : List ℕ :=
  let ready := (view.utxos.filter fun u => u.satoshis ≥ collateralCoinSats).length
  let collateral := if ready < f.cfg.collateralCoins then collateralCoinSats else 0
  ([demand, collateral].filter (· > 0)).insertionSort (· ≥ ·)

/-- Merge small coins into a collateral coin, or into a larger one a recent payout asked for. -/
def consolidate (key : FaucetKey) (view : UtxoSnapshot) (poolCount : ℕ) (now : ℤ) :
    Prog MaintenanceResult := do
  let poolNote := s!"{poolCount} pool coins available (min {f.cfg.poolMin})"
  let demand ← mergeDemand view
  let plan ← f.planGoals view demand (f.goals view demand) (.none "nothing to merge toward")
  let plan :=
    match plan with
    -- nothing to build: keep the wallet to a handful of coins instead
    | .none _ => if f.merging then (f.cfg.planTidy view).getD plan else plan
    | _ => plan
  match plan with
  | .merge inputs reaches => f.merge key inputs reaches now
  | .waiting detail => pure ⟨.waiting, s!"{poolNote}; {detail}", none⟩
  | .none detail => pure ⟨.none, s!"{poolNote}; {detail}", none⟩

/-- Whether a coin funds two pool coins, with headroom for the fee. -/
def fundsTwo (u : Utxo) : Bool := decide (99 * u.satoshis ≥ 200 * f.cfg.poolUtxoSats)

/-- `Math.min(wanted, Math.floor(satoshis * 0.99 / poolUtxoSats))`; nothing bounds the number of
pool coins of no value. -/
def splitCount (wanted : ℤ) (satoshis : ℕ) : ℤ :=
  if f.cfg.poolUtxoSats = 0 then wanted
  else min wanted ((99 * satoshis / (100 * f.cfg.poolUtxoSats) : ℕ) : ℤ)

/-- Split `biggest` into pool coins. -/
def split (key : FaucetKey) (biggest : Utxo) (poolCount : ℕ) (now : ℤ) :
    Prog MaintenanceResult :=
  let count := f.splitCount ((f.cfg.poolTarget : ℤ) - poolCount) biggest.satoshis
  if count < 2 then
    pure ⟨.blocked, s!"largest coin ({biggest.satoshis} duffs) cannot fund 2 pool coins of " ++
      s!"{f.cfg.poolUtxoSats}", none⟩
  else if f.cfg.dryRun then pure ⟨.none, s!"dry run: would split into {count}", none⟩
  else do
    match ← attempt (f.dash.buildSplit key [biggest] count.toNat f.cfg.poolUtxoSats) with
    | .error e => pure ⟨.blocked, describeError e, none⟩
    | .ok built =>
      note (.built built)
      match ← f.settleBroadcast built now with
      | .failed .. => pure ⟨.blocked, "split broadcast could not be confirmed", none⟩
      -- recorded only once it is accepted
      | .ok _ =>
        modify (State.recordSpend built now)
        pure ⟨.split, s!"split into {count} coins of {f.cfg.poolUtxoSats} duffs",
          some built.txid⟩

/-- What to do when the pool has run low: split the largest coin that is not kept, or merge
toward one, and fall back to a kept collateral coin only when neither helps. -/
def refill (key : FaucetKey) (view : UtxoSnapshot) (poolCount : ℕ) (now : ℤ) :
    Prog MaintenanceResult :=
  let descending := descendingSats view.utxos
  let splittable := descending.find? fun u => !f.isKept u && f.fundsTwo u
  let plan : MergePlan :=
    if splittable.isNone && f.merging then
      -- `Math.ceil(2 * poolUtxoSats / 0.99)`
      f.planMerge view ((200 * f.cfg.poolUtxoSats + 98) / 99)
    else .none ""
  match plan with
  | .merge inputs reaches => f.merge key inputs reaches now
  | _ =>
    match splittable.or descending.head? with
    | none => pure ⟨.blocked, "no spendable coins", none⟩
    | some biggest => f.split key biggest poolCount now

def maintainLocked (now : ℤ) : Prog MaintenanceResult := do
  modify (State.prune f.cfg now)
  let key ← f.key
  match ← attempt (f.spendableUtxos key now) with
  | .error e => pure ⟨.blocked, describeError e, none⟩
  | .ok view =>
    let poolCount := (f.poolCoins view).length
    if poolCount ≥ f.cfg.poolMin then f.consolidate key view poolCount now
    else f.refill key view poolCount now

/-- A maintenance pass, which books the next one while there is more to do. `alarm` runs it too
and swallows what it throws. -/
def maintain (now : ℤ) : Prog MaintenanceResult := do
  let result ← f.maintainLocked now
  match result.action with
  | .split | .consolidate => f.scheduleMaintenance followUpMs
  | .waiting => f.scheduleMaintenance confirmationPollMs
  | .none | .blocked => pure ()
  pure result

/-! ### Snapshot -/

/-- Inventory at the configured voucher amount; other denominations are inert. -/
def invitationCounts (s : State) : InvitationCounts :=
  let count := fun state => (s.ledger.inventory.rows.filter fun r =>
    r.state = state ∧ r.amountSats = some (f.cfg.invitations.amountSats : ℤ)).length
  ⟨count .available, count .broadcastUnknown + count .awaitingChainlock, count .issued⟩

/-- The wallet as the API shows it. The source loads the key before it reads the clock and does
nothing else in between, so the operation begins when the key is there. -/
def snapshot (now : ℤ) : Prog Snapshot := do
  let key ← ofExcept f.faucetKey
  modify (State.prune f.cfg now)
  let view ← f.spendableUtxos key now
  let s ← read
  pure
    { address := key.address
      balanceSats := sumSats view.utxos
      availableUtxos := view.utxos.length
      poolUtxos := (f.poolCoins view).length
      collateralUtxos := (view.utxos.filter fun u => u.satoshis ≥ collateralCoinSats).length
      blockHeight := view.tipHeight
      source := view.source
      providers := view.statuses
      spentToday := s.ledger.spentToday (utcDay now)
      invitations := f.invitationCounts s }

end Faucet

end DashFaucet

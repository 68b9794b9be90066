import DashFaucet.Treasury.Spending

/-!
# Planning a merge

Which coins a merge may spend and when it waits: `spareCoins`, `mergeMaterial`, `planTidy`,
`planMerge` of `treasury.ts`.
-/

namespace DashFaucet

inductive MergePlan where
  | none (detail : String)
  | waiting (detail : String)
  | merge (inputs : List Utxo) (reaches : Bool)
  deriving DecidableEq, Repr

namespace FaucetConfig

variable (cfg : FaucetConfig)

/-- `array.slice(-n)`: the last `n` elements, and all of them for `n = 0`. -/
def sliceFromEnd {α : Type} (n : ℕ) (l : List α) : List α :=
  if n = 0 then l else l.drop (l.length - n)

/-- The coins of `l` whose outpoint is not among those of `kept`. -/
def without (kept l : List Utxo) : List Utxo :=
  l.filter fun u => !(kept.map Utxo.outpoint).contains u.outpoint

def isPoolCoin (u : Utxo) : Bool :=
  decide (u.satoshis ≥ cfg.poolUtxoSats) && decide (u.satoshis < 2 * cfg.poolUtxoSats)

/-- The coins below `goal`, largest first, without the kept pool coins. -/
def material (utxos : List Utxo) (goal : ℕ) : List Utxo :=
  let below := descendingSats (utxos.filter fun u => u.satoshis < goal)
  without (sliceFromEnd cfg.poolTarget (below.filter cfg.isPoolCoin)) below

/-- The coins of `material` without the kept collateral coins, the smallest that qualify. -/
def spare (utxos : List Utxo) (goal : ℕ) : List Utxo :=
  let material := cfg.material utxos goal
  let collateral := material.filter fun u => u.satoshis ≥ collateralCoinSats
  without (collateral.drop (collateral.length - cfg.collateralCoins)) material

/-- Coins a merge toward `goal` may spend: kept collateral coins only when nothing else reaches
the goal. -/
def mergeMaterial (utxos : List Utxo) (goal : ℕ) : List Utxo :=
  if sumSats (cfg.spare utxos goal) ≥ goal then cfg.spare utxos goal else cfg.material utxos goal

/-- Merge the loose coins once more than `looseCoinsMax` have confirmed, smallest first. -/
def planTidy (view : UtxoSnapshot) : Option MergePlan :=
  let loose := ascendingSats ((cfg.spare view.utxos collateralCoinSats).filter (·.height.isSome))
  if loose.length ≤ looseCoinsMax ∨ cfg.maxPayoutInputs < 2 then none
  else some (.merge (loose.take cfg.maxPayoutInputs) true)

end FaucetConfig

namespace Faucet

variable (f : Faucet)

/-- What a merge toward `goal` can do now: merge, perhaps only partway, wait for coins still
confirming, or nothing at all. -/
def planMerge (view : UtxoSnapshot) (goal : ℕ) : MergePlan :=
  let material := f.cfg.mergeMaterial view.utxos goal
  let available := sumSats material
  if available < goal then
    .none s!"{available} duffs outside the pool cannot reach a {goal}-duff coin"
  else
    let confirmed := material.filter fun u => u.height.isSome
    let pending := material.length - confirmed.length
    let (inputs, reaches) := f.dash.selectMergeInputs confirmed goal f.cfg.maxPayoutInputs
    -- short with every confirmed coin already in: merging part of it only adds a block
    let stuck := !reaches &&
      (decide (inputs.length < 2) || decide (inputs.length = confirmed.length))
    if stuck && decide (pending = 0) then
      .none s!"{available} duffs outside the pool cannot cover a {goal}-duff coin and its fee"
    else if stuck then
      .waiting s!"waiting for {pending} coin(s) to confirm before merging a {goal}-duff coin"
    else .merge inputs reaches

end Faucet

end DashFaucet

import Mathlib.Algebra.GroupWithZero.Nat
import Mathlib.Data.List.Sort
import Mathlib.Data.Int.Order.Basic
import Mathlib.Order.Nat
import DashFaucet.Async.Program
import DashFaucet.Chain.Client

/-!
# Building transactions

Coin selection and the four builders of `tx.ts`: payout, split, consolidation, asset lock.

`dashtx`, which drafts, sizes and signs, is a third-party library and enters as the parameter
`DashTx`. Signatures are randomised, so a builder waits for `Query.entropy` where the source waits
for the signature. What the faucet relies on is `DashTx.Faithful`.
-/

namespace DashFaucet

open Async

structure TxInput where
  txid : String
  outputIndex : ℕ
  satoshis : ℕ
  script : String
  deriving DecidableEq, Repr

structure TxOutput where
  satoshis : ℕ
  pubKeyHash : Option String := none
  memo : Option String := none
  deriving DecidableEq, Repr

/-- What is handed to the signer. -/
structure TxInfo where
  version : Option ℕ := none
  type : Option ℕ := none
  inputs : List TxInput
  outputs : List TxOutput
  extraPayload : Option String := none
  deriving DecidableEq, Repr

/-- A drafted payout. In `dashtx` the change is also a member of `draft.outputs`, so addressing
it addresses the output; here `outputs` holds the others. -/
structure TxDraft where
  inputs : List TxInput
  outputs : List TxOutput
  change : Option TxOutput
  deriving DecidableEq, Repr

structure TxSummary where
  transaction : String
  inputs : List TxInput
  outputs : List TxOutput
  extraPayload : Option String
  deriving DecidableEq, Repr

/-- The `dashtx` library. `appraiseMax i o` is `appraise(…).max` for `i` inputs and `o` P2PKH
outputs; the last argument of the signers is their entropy. -/
structure DashTx where
  appraiseMax : ℕ → ℕ → ℕ
  legacyDust : ℕ
  sortInputs : TxInput → TxInput → ℤ
  sortOutputs : TxOutput → TxOutput → ℤ
  draftSingleOutput : (utxos inputs : List TxInput) → (output : TxOutput) → Except String TxDraft
  hashAndSignAll : TxInfo → ℕ → Except String TxSummary
  finalizePresorted : TxInfo → ℕ → Except String TxSummary
  getId : String → String

/-- What the faucet relies on: a draft spends the inputs it is given and pays the output it is
given plus at most a change output, and signing changes neither inputs nor outputs. -/
structure DashTx.Faithful (d : DashTx) : Prop where
  draft_inputs : ∀ {utxos inputs output draft},
    d.draftSingleOutput utxos inputs output = .ok draft → draft.inputs = inputs
  draft_outputs : ∀ {utxos inputs output draft},
    d.draftSingleOutput utxos inputs output = .ok draft → draft.outputs = [output]
  sign_inputs : ∀ {info e s}, d.hashAndSignAll info e = .ok s → s.inputs = info.inputs
  sign_outputs : ∀ {info e s}, d.hashAndSignAll info e = .ok s → s.outputs = info.outputs
  finalize_inputs : ∀ {info e s}, d.finalizePresorted info e = .ok s → s.inputs = info.inputs
  finalize_outputs : ∀ {info e s}, d.finalizePresorted info e = .ok s → s.outputs = info.outputs

structure FaucetKey where
  pubKeyHash : String
  address : String
  deriving DecidableEq, Repr

/-- One of our outputs in a transaction we built. -/
structure OwnOutput where
  txid : String
  outputIndex : ℕ
  satoshis : ℕ
  deriving DecidableEq, Repr

/-- The outpoint of an output of ours. -/
def OwnOutput.outpoint (o : OwnOutput) : Outpoint := ⟨o.txid, o.outputIndex⟩

structure BuiltTx where
  hex : String
  txid : String
  inputs : List Outpoint
  /-- Every output that pays back to the faucet address. -/
  ownOutputs : List OwnOutput
  fee : ℤ
  totalIn : ℕ
  deriving DecidableEq, Repr

/-- The total value of a list of coins. -/
def sumSats (coins : List Utxo) : ℕ := (coins.map Utxo.satoshis).sum

/-- `Array.prototype.sort`: stable, by a comparator. -/
def sortBy {α : Type} (cmp : α → α → ℤ) (l : List α) : List α :=
  l.insertionSort fun a b => cmp a b ≤ 0

/-- Coins by value, smallest first. -/
def ascendingSats (coins : List Utxo) : List Utxo :=
  coins.insertionSort fun a b => a.satoshis ≤ b.satoshis

/-- Coins by value, largest first. -/
def descendingSats (coins : List Utxo) : List Utxo :=
  coins.insertionSort fun a b => b.satoshis ≤ a.satoshis

def toTxInput (u : Utxo) : TxInput := ⟨u.txid, u.outputIndex, u.satoshis, u.script⟩

namespace DashTx

variable {σ : Type} (d : DashTx)

/-- Worst-case fee of a transaction of this shape, at 1 duff per byte. -/
def feeCeiling (numInputs numOutputs : ℕ) (extraPayloadBytes : ℕ := 0) : ℕ :=
  d.appraiseMax numInputs numOutputs +
    (if extraPayloadBytes > 0 then 1 + extraPayloadBytes else 0)

/-! ### Coin selection -/

/-- Take coins in order until their sum covers what that many inputs require. -/
def largestFirst (required : ℕ → ℕ) : List Utxo → List Utxo → ℕ → Option (List Utxo)
  | [], _, _ => none
  | u :: us, picked, sum =>
    let picked := picked ++ [u]
    let sum := sum + u.satoshis
    if required picked.length ≤ sum then some picked else largestFirst required us picked sum

/-- Prefer a single coin that covers the payout; otherwise take the largest confirmed coins. -/
def selectInputs (utxos : List Utxo) (target : ℕ) (numOutputs : ℕ := 2)
    (extraPayloadBytes : ℕ := 0) : Except Thrown (List Utxo) :=
  let required := fun inputs => target + d.feeCeiling (max 1 inputs) numOutputs extraPayloadBytes
  let ascending := ascendingSats utxos
  match ascending.find? fun u => required 1 ≤ u.satoshis with
  -- one input keeps each coin on its own mempool chain
  | some single => .ok [single]
  | none =>
    let descending := ascending.reverse
    let confirmed := descending.filter fun u => u.height.isSome
    match largestFirst required confirmed [] 0 with
    | some picked => .ok picked
    | none =>
      -- with the unconfirmed coins it would do
      if (largestFirst required descending [] 0).isSome then
        .error (.unconfirmedFunds (sumSats confirmed) (required confirmed.length))
      else .error (.insufficientFunds (sumSats utxos) (required utxos.length))

/-- What the first coins are worth, for every number of them. -/
def prefixSums (coins : List Utxo) : List ℕ := (coins.map Utxo.satoshis).scanl (· + ·) 0

/-- The `j` largest coins and the `size - j` smallest, for the least `j` that reaches `target`
after the fee; the `size` largest when none does. -/
def selectMergeInputs (coins : List Utxo) (target maxInputs : ℕ) : List Utxo × Bool :=
  let descending := descendingSats coins
  let n := descending.length
  let size := min maxInputs n
  let goal := target + d.feeCeiling size 1
  let sums := prefixSums descending
  let sumWith := fun j => sums.getD j 0 + sums.getD n 0 - sums.getD (n - size + j) 0
  let j := ((List.range size).find? fun j => goal ≤ sumWith j).getD size
  (descending.take j ++ descending.drop (n - (size - j)), decide (goal ≤ sumWith j))

/-! ### Builders -/

/-- Read a signed transaction back: our outputs are those that pay the faucet's key. -/
def finish (signed : TxSummary) (key : FaucetKey) (totalIn : ℕ) : BuiltTx :=
  let txid := d.getId signed.transaction
  { hex := signed.transaction
    txid := txid
    inputs := signed.inputs.map fun i => ⟨i.txid, i.outputIndex⟩
    ownOutputs := signed.outputs.zipIdx.filterMap fun (o, i) =>
      if o.pubKeyHash = some key.pubKeyHash then some ⟨txid, i, o.satoshis⟩ else none
    fee := totalIn - (signed.outputs.map TxOutput.satoshis).sum
    totalIn := totalIn }

/-- An error `dashtx` throws. -/
def libraryError {α : Type} : Except String α → Except Thrown α :=
  Except.mapError Thrown.error

/-- Sign with fresh entropy. -/
def sign (signer : TxInfo → ℕ → Except String TxSummary) (info : TxInfo) : Net σ TxSummary := do
  let e : ℕ ← ask Query.entropy
  ofExcept (libraryError (signer info e))

/-- One recipient output plus change back to the faucet. -/
def buildPayout (key : FaucetKey) (utxos : List Utxo) (recipientPubKeyHash : String)
    (satoshis maxInputs : ℕ) : Net σ BuiltTx :=
  if recipientPubKeyHash = key.pubKeyHash then .throw .selfPay
  else do
    let selected ← ofExcept (d.selectInputs utxos satoshis)
    if selected.length > maxInputs then .throw (.tooFragmented selected.length maxInputs)
    else do
      let draft ← ofExcept <| libraryError <| d.draftSingleOutput (utxos.map toTxInput)
        (selected.map toTxInput) { satoshis, pubKeyHash := some recipientPubKeyHash }
      -- `draftSingleOutput` leaves the change unaddressed; point it back at the faucet
      let change := draft.change.map fun c => { c with pubKeyHash := some key.pubKeyHash }
      let inputs := sortBy d.sortInputs draft.inputs
      let outputs := sortBy d.sortOutputs (draft.outputs ++ change.toList)
      let totalIn := (inputs.map TxInput.satoshis).sum
      let signed ← sign d.finalizePresorted { inputs, outputs }
      let paid := signed.outputs.find? fun o => o.pubKeyHash = some recipientPubKeyHash
      if paid.map TxOutput.satoshis ≠ some satoshis then
        .throw (.error "refusing to broadcast: recipient output does not pay the amount")
      else pure (d.finish signed key totalIn)

/-- A self-send that splits coins into `count` equal outputs, with change when above dust. -/
def buildSplit (key : FaucetKey) (utxos : List Utxo) (count perOutputSats : ℕ) :
    Net σ BuiltTx :=
  if count < 2 then .throw (.error "split requires at least 2 outputs")
  else do
    let target := count * perOutputSats
    let selected ← ofExcept (d.selectInputs utxos target (count + 1))
    let totalIn := sumSats selected
    let fee := d.feeCeiling selected.length (count + 1)
    let changeSats : ℤ := totalIn - target - fee
    if changeSats < 0 then .throw (.insufficientFunds totalIn (target + fee))
    else do
      let pool := List.replicate count
        { satoshis := perOutputSats, pubKeyHash := some key.pubKeyHash : TxOutput }
      let change : List TxOutput :=
        if changeSats > d.legacyDust then
          [{ satoshis := changeSats.toNat, pubKeyHash := some key.pubKeyHash }]
        else []
      let signed ← sign d.hashAndSignAll
        { inputs := sortBy d.sortInputs (selected.map toTxInput)
          outputs := sortBy d.sortOutputs (pool ++ change) }
      let built := d.finish signed key totalIn
      -- what was signed is looked at again
      if (built.ownOutputs.filter fun o => o.satoshis = perOutputSats).length < count then
        .throw (.error "refusing to broadcast: split produced too few pool coins")
      else pure built

/-- A self-send that merges `coins` into one coin. -/
def buildConsolidation (key : FaucetKey) (coins : List Utxo) : Net σ BuiltTx :=
  if coins.length < 2 then .throw (.error "consolidation requires at least 2 inputs")
  else do
    let totalIn := sumSats coins
    let fee := d.feeCeiling coins.length 1
    let merged : ℤ := totalIn - fee
    if merged ≤ d.legacyDust then .throw (.insufficientFunds totalIn fee)
    else do
      let signed ← sign d.hashAndSignAll
        { inputs := sortBy d.sortInputs (coins.map toTxInput)
          outputs := [{ satoshis := merged.toNat, pubKeyHash := some key.pubKeyHash }] }
      let built := d.finish signed key totalIn
      -- one coin, of what is left behind the fee
      if built.ownOutputs.map OwnOutput.satoshis ≠ [merged.toNat] then
        .throw (.error "refusing to broadcast: consolidation did not produce one merged coin")
      else pure built

/-! ### Asset locks -/

def hexDigit (n : ℕ) : Char := "0123456789abcdef".toList.getD n '0'

/-- A byte as two hex digits. -/
def byteHex (b : ℕ) : List Char := [hexDigit (b / 16 % 16), hexDigit (b % 16)]

/-- Eight bytes, least significant first. -/
def uint64LeHex (value : ℕ) : String :=
  String.ofList ((List.range 8).flatMap fun i => byteHex (value / 256 ^ i % 256))

/-- Version-1 asset-lock payload with one P2PKH credit output. -/
def assetLockPayload (publicKeyHash : String) (satoshis : ℕ) : Except Thrown String :=
  let isHex := fun c : Char => oneOf "0123456789abcdefABCDEF" c
  if publicKeyHash.length = 40 ∧ publicKeyHash.toList.all isHex then
    .ok ("0101" ++ uint64LeHex satoshis ++ "19" ++ "76a914" ++
      String.ofList (toLowerCase publicKeyHash) ++ "88ac")
  else .error (.error "asset lock public key hash must be 20 bytes")

/-- An asset lock with an exact voucher credit output and P2PKH change back to the faucet. -/
def buildInvitationAssetLock (key : FaucetKey) (utxos : List Utxo) (voucherPublicKeyHash : String)
    (satoshis : ℕ) : Net σ BuiltTx := do
  let extraPayload ← ofExcept (assetLockPayload voucherPublicKeyHash satoshis)
  let payloadBytes := extraPayload.length / 2
  let selected ← ofExcept (d.selectInputs utxos satoshis 2 payloadBytes)
  let totalIn := sumSats selected
  let fee := d.feeCeiling selected.length 2 payloadBytes
  let changeSats : ℤ := totalIn - satoshis - fee
  if changeSats < 0 then .throw (.insufficientFunds totalIn (satoshis + fee))
  else do
    let burn : TxOutput := { satoshis, memo := some "" }
    let change : List TxOutput :=
      if changeSats > d.legacyDust then
        [{ satoshis := changeSats.toNat, pubKeyHash := some key.pubKeyHash }]
      else []
    let signed ← sign d.hashAndSignAll
      { version := some 3, type := some 8
        inputs := sortBy d.sortInputs (selected.map toTxInput)
        outputs := sortBy d.sortOutputs (burn :: change)
        extraPayload := some extraPayload }
    -- the burn and the payload must have come through the signing
    let found := signed.outputs.any fun o => o.memo = some "" ∧ o.satoshis = satoshis
    if !found ∨ signed.extraPayload ≠ some extraPayload then
      .throw (.error "refusing to broadcast malformed invitation asset lock")
    else pure (d.finish signed key totalIn)

end DashTx

end DashFaucet

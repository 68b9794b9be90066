import DashFaucet.Selection
import DashFaucet.Treasury.Runs

/-!
# What a transaction pays

The builders compute the fee of a transaction twice: coin selection adds the ceiling fee of every
number of inputs to its target, and the builder subtracts the one of the selection it got. The two
agree (`covers_of_selectInputs`), so the change is never negative, and a change of no more than
dust is all that is paid on top of the ceiling (`DashTx.Balanced`). What an asset lock does not
keep or pay as its fee is the value of its voucher, so that value can be read back from the books
(`voucherAmount`, `builders_conserve`).
-/

namespace DashFaucet

open Async List

namespace DashTx

variable {d : DashTx} {σ : Type} {es : List Answered} {key : FaucetKey} {utxos : List Utxo}
  {built : BuiltTx} {outputs payload : ℕ} {signed : TxSummary}

/-- A signed transaction of the faucet that conserves value: its inputs are some of the coins and
are worth its outputs and the fee, the fee is the ceiling of its shape and at most dust on top, and
the outputs that are booked are those that pay the faucet. -/
structure Balanced (d : DashTx) (key : FaucetKey) (utxos : List Utxo) (outputs payload : ℕ)
    (signed : TxSummary) (built : BuiltTx) : Prop where
  signedBy : ∃ info e, d.hashAndSignAll info e = .ok signed
  read : built = d.finish signed key built.totalIn
  picked : ∃ coins, coins <+~ utxos ∧ signed.inputs ~ coins.map toTxInput
  totalIn : built.totalIn = (signed.inputs.map TxInput.satoshis).sum
  conserved : ((signed.inputs.map TxInput.satoshis).sum : ℤ) =
    (signed.outputs.map TxOutput.satoshis).sum + built.fee
  floor : (d.feeCeiling signed.inputs.length outputs payload : ℤ) ≤ built.fee
  ceiling : built.fee ≤ d.feeCeiling signed.inputs.length outputs payload + d.legacyDust
  own : ∀ o, o ∈ built.ownOutputs ↔ o.txid = built.txid ∧ ∃ out,
    signed.outputs[o.outputIndex]? = some out ∧ out.pubKeyHash = some key.pubKeyHash ∧
      out.satoshis = o.satoshis
  own_distinct : (built.ownOutputs.map OwnOutput.outputIndex).Nodup

/-- The outputs that are booked are those that pay the faucet's key. -/
theorem mem_ownOutputs_finish (signed : TxSummary) (key : FaucetKey) (totalIn : ℕ) (o : OwnOutput) :
    o ∈ (d.finish signed key totalIn).ownOutputs ↔
      o.txid = d.getId signed.transaction ∧ ∃ out, signed.outputs[o.outputIndex]? = some out ∧
        out.pubKeyHash = some key.pubKeyHash ∧ out.satoshis = o.satoshis := by
  simp only [finish, List.mem_filterMap, Prod.exists, List.mk_mem_zipIdx_iff_getElem?]
  constructor
  · rintro ⟨out, i, hout, h⟩
    split at h
    · next hown =>
      cases h
      exact ⟨rfl, out, hout, hown, rfl⟩
    · cases h
  · rintro ⟨htxid, out, hout, hown, hsats⟩
    refine ⟨out, o.outputIndex, hout, ?_⟩
    rw [if_pos hown, ← htxid, hsats]

/-- A transaction that pays its outputs and a fee between the bounds is balanced. -/
theorem balanced_finish {info : TxInfo} {e : ℕ} {coins : List Utxo}
    (hsigned : d.hashAndSignAll info e = .ok signed) (hsub : coins <+~ utxos)
    (hin : signed.inputs ~ coins.map toTxInput)
    (hfloor : (signed.outputs.map TxOutput.satoshis).sum +
      d.feeCeiling coins.length outputs payload ≤ sumSats coins)
    (hceiling : sumSats coins ≤ (signed.outputs.map TxOutput.satoshis).sum +
      d.feeCeiling coins.length outputs payload + d.legacyDust) :
    d.Balanced key utxos outputs payload signed (d.finish signed key (sumSats coins)) := by
  -- the inputs are the coins, in another order
  have htotal : sumSats coins = (signed.inputs.map TxInput.satoshis).sum := by
    rw [(hin.map _).sum_eq, sum_toTxInput]
  have hlen : signed.inputs.length = coins.length := by
    rw [hin.length_eq, List.length_map]
  have hfee : (d.finish signed key (sumSats coins)).fee =
      (sumSats coins : ℤ) - (signed.outputs.map TxOutput.satoshis).sum := rfl
  refine ⟨⟨info, e, hsigned⟩, rfl, ⟨coins, hsub, hin⟩, htotal, ?_, ?_, ?_, fun o =>
    mem_ownOutputs_finish signed key _ o, (finish_ownOutputs signed key _).2⟩
  · rw [hfee, ← htotal]
    omega
  · rw [hfee, hlen]
    omega
  · rw [hfee, hlen]
    omega

/-- The value of the change that is kept, above dust. -/
theorem sum_change (changeSats : ℤ) (h : 0 ≤ changeSats) :
    ∃ kept : ℕ, ((if changeSats > d.legacyDust then
        [{ satoshis := changeSats.toNat, pubKeyHash := some key.pubKeyHash : TxOutput }]
      else []).map TxOutput.satoshis).sum = kept ∧ (kept : ℤ) ≤ changeSats ∧
      changeSats ≤ kept + d.legacyDust := by
  split
  · exact ⟨changeSats.toNat, by simp, by omega, by omega⟩
  · exact ⟨0, rfl, h, by omega⟩

/-- A split is balanced. -/
theorem buildSplit_balanced (hd : d.Faithful) {count perOutputSats : ℕ}
    (h : Transcript (d.buildSplit key utxos count perOutputSats : Net σ _) es (.ok built)) :
    ∃ signed, d.Balanced key utxos (count + 1) 0 signed built := by
  obtain ⟨selected, changeSats, e, signed, hsel, hchange, hpos, hsigned, rfl, -⟩ := buildSplit_ok h
  have hin : signed.inputs ~ selected.map toTxInput := by
    rw [hd.sign_inputs hsigned]
    exact sortBy_perm _ _
  obtain ⟨kept, hkept, hle, hdust⟩ := @sum_change d key changeSats hpos
  have hout : (signed.outputs.map TxOutput.satoshis).sum = count * perOutputSats + kept := by
    rw [hd.sign_outputs hsigned, ((sortBy_perm _ _).map _).sum_eq, splitOutputs, List.map_append,
      List.sum_append, List.map_replicate, List.sum_replicate_nat, hkept]
  exact ⟨signed, balanced_finish hsigned (selectInputs_subperm hsel) hin (by omega) (by omega)⟩

/-- A consolidation is balanced, and pays no more than the ceiling. -/
theorem buildConsolidation_balanced (hd : d.Faithful) {coins : List Utxo}
    (h : Transcript (d.buildConsolidation key coins : Net σ _) es (.ok built)) :
    ∃ signed, d.Balanced key coins 1 0 signed built := by
  obtain ⟨merged, e, signed, hsum, hsigned, rfl, -⟩ := buildConsolidation_ok h
  have hin : signed.inputs ~ coins.map toTxInput := by
    rw [hd.sign_inputs hsigned]
    exact sortBy_perm _ _
  have hout : (signed.outputs.map TxOutput.satoshis).sum = merged := by
    rw [hd.sign_outputs hsigned, List.map_singleton, List.sum_singleton]
  exact ⟨signed, balanced_finish hsigned (Subperm.refl coins) hin (by omega) (by omega)⟩

/-- What is read back as a voucher's amount is what the outputs pay to others. -/
theorem voucherAmount_finish (signed : TxSummary) (key : FaucetKey) (totalIn : ℕ) :
    voucherAmount (d.finish signed key totalIn) =
      (signed.outputs.map TxOutput.satoshis).sum - paidTo key.pubKeyHash signed.outputs := by
  have hown : ((d.finish signed key totalIn).ownOutputs.map OwnOutput.satoshis).sum =
      paidTo key.pubKeyHash signed.outputs := finish_ownSats signed key totalIn
  have hfee : (d.finish signed key totalIn).fee =
      (totalIn : ℤ) - (signed.outputs.map TxOutput.satoshis).sum := rfl
  have htotal : (d.finish signed key totalIn).totalIn = totalIn := rfl
  rw [voucherAmount, hown, hfee, htotal]
  omega

/-- **An asset lock is balanced, and what is read back as its voucher's amount is what was minted**,
whether the change was kept or dropped. -/
theorem buildInvitationAssetLock_balanced (hd : d.Faithful) {voucherPublicKeyHash : String}
    {satoshis : ℕ}
    (h : Transcript (d.buildInvitationAssetLock key utxos voucherPublicKeyHash satoshis :
      Net σ _) es (.ok built)) :
    ∃ extraPayload signed, assetLockPayload voucherPublicKeyHash satoshis = .ok extraPayload ∧
      d.Balanced key utxos 2 (extraPayload.length / 2) signed built ∧
      voucherAmount built = satoshis := by
  obtain ⟨extraPayload, selected, changeSats, e, signed, hpayload, hsel, hchange, hpos, hsigned,
    rfl⟩ := buildInvitationAssetLock_ok h
  have hin : signed.inputs ~ selected.map toTxInput := by
    rw [hd.sign_inputs hsigned]
    exact sortBy_perm _ _
  have hperm : signed.outputs ~ d.lockOutputs key satoshis changeSats := by
    rw [hd.sign_outputs hsigned]
    exact sortBy_perm _ _
  obtain ⟨kept, hkept, hle, hdust⟩ := @sum_change d key changeSats hpos
  have hout : (signed.outputs.map TxOutput.satoshis).sum = satoshis + kept := by
    rw [(hperm.map _).sum_eq, lockOutputs, List.map_cons, List.sum_cons, hkept]
  refine ⟨extraPayload, signed, hpayload,
    balanced_finish hsigned (selectInputs_subperm hsel) hin (by omega) (by omega), ?_⟩
  -- inputs less fee are the outputs, and less the change the burn
  rw [voucherAmount_finish, hout, paidTo_perm hperm]
  -- the burn pays nobody, the change is ours
  have hown : paidTo key.pubKeyHash (d.lockOutputs key satoshis changeSats) = kept := by
    rw [← hkept, lockOutputs]
    split
    · simp [paidTo]
    · simp [paidTo]
  rw [hown]
  omega

/-! ### The branch that is never taken -/

/-- What is signed does not fail for want of coins, nor does what is refused after it. -/
theorem signed_insufficient {signer : TxInfo → ℕ → Except String TxSummary} {info : TxInfo}
    {refuses : TxSummary → Prop} [DecidablePred refuses] {message : String}
    {result : TxSummary → BuiltTx} {available required : ℕ}
    (h : Transcript (do
      let signed ← sign signer info
      if refuses signed then .throw (.error message) else pure (result signed) : Net σ _) es
      (.error (.insufficientFunds available required))) : False := by
  obtain ⟨es₁, r₁, h₁, hrest⟩ := transcript_bind.mp h
  -- signing fails with a message of its own, and what follows with another
  cases r₁ with
  | error e =>
    obtain ⟨-, hr⟩ := hrest
    cases hr
    obtain ⟨message, hmessage⟩ := sign_error h₁
    cases hmessage
  | ok signed =>
    obtain ⟨es₂, -, h₂⟩ := hrest
    split at h₂
    · obtain ⟨-, hr⟩ := transcript_throw.mp h₂
      cases hr
    · obtain ⟨-, hr⟩ := transcript_pure.mp h₂
      cases hr

/-- A split that lacks funds was refused by the selection, never for a negative change. -/
theorem buildSplit_insufficient {count perOutputSats available required : ℕ}
    (h : Transcript (d.buildSplit key utxos count perOutputSats : Net σ _) es
      (.error (.insufficientFunds available required))) :
    d.selectInputs utxos (count * perOutputSats) (count + 1) =
      .error (.insufficientFunds available required) := by
  unfold buildSplit at h
  split at h
  · obtain ⟨-, hr⟩ := transcript_throw.mp h
    cases hr
  obtain ⟨es₁, r₁, h₁, hrest⟩ := transcript_bind.mp h
  obtain ⟨rfl, hsel⟩ := transcript_ofExcept.mp h₁
  cases r₁ with
  | error e =>
    obtain ⟨-, hr⟩ := hrest
    cases hr
    exact hsel.symm
  | ok selected =>
    obtain ⟨es₂, -, h₂⟩ := hrest
    dsimp only at h₂
    -- what is selected covers the fee, so the change is not negative
    have hcovers := covers_of_selectInputs hsel.symm
    rw [Covers] at hcovers
    rw [if_neg (by push_cast at hcovers ⊢; omega)] at h₂
    exact (signed_insufficient h₂).elim

/-- Likewise an asset lock, unless the voucher's key is malformed. -/
theorem buildInvitationAssetLock_insufficient {voucherPublicKeyHash : String}
    {satoshis available required : ℕ}
    (h : Transcript (d.buildInvitationAssetLock key utxos voucherPublicKeyHash satoshis :
      Net σ _) es (.error (.insufficientFunds available required))) :
    ∃ extraPayload, assetLockPayload voucherPublicKeyHash satoshis = .ok extraPayload ∧
      d.selectInputs utxos satoshis 2 (extraPayload.length / 2) =
        .error (.insufficientFunds available required) := by
  unfold buildInvitationAssetLock at h
  obtain ⟨es₀, r₀, h₀, hrest⟩ := transcript_bind.mp h
  obtain ⟨rfl, hpayload⟩ := transcript_ofExcept.mp h₀
  cases r₀ with
  | error e =>
    obtain ⟨-, hr⟩ := hrest
    cases hr
    unfold assetLockPayload at hpayload
    dsimp only at hpayload
    split at hpayload <;> cases hpayload
  | ok extraPayload =>
    obtain ⟨es', -, h'⟩ := hrest
    obtain ⟨es₁, r₁, h₁, hrest⟩ := transcript_bind.mp h'
    obtain ⟨rfl, hsel⟩ := transcript_ofExcept.mp h₁
    cases r₁ with
    | error e =>
      obtain ⟨-, hr⟩ := hrest
      cases hr
      exact ⟨extraPayload, hpayload.symm, hsel.symm⟩
    | ok selected =>
      obtain ⟨es₂, -, h₂⟩ := hrest
      dsimp only at h₂
      -- what was selected covers the fee, so nothing is short behind it
      have hcovers := covers_of_selectInputs hsel.symm
      rw [Covers] at hcovers
      rw [if_neg (by omega)] at h₂
      exact (signed_insufficient h₂).elim

/-! ### All the builders -/

/-- **The builders conserve value and pay at least the ceiling fee.** Every split, consolidation and
asset lock is balanced for its shape. A split makes the pool coins it was asked for, and the amount
of a voucher can be read back from its asset lock. What is selected leaves a change of 0 or more, so
the two that select their coins lack funds only where the selection does. -/
theorem builders_conserve (hd : d.Faithful) :
    (∀ {σ : Type} {key : FaucetKey} {utxos : List Utxo} {count perOutputSats : ℕ}
      {es : List Answered} {built : BuiltTx},
      Transcript (d.buildSplit key utxos count perOutputSats : Net σ _) es (.ok built) →
      (∃ signed, d.Balanced key utxos (count + 1) 0 signed built) ∧
        count ≤ (built.ownOutputs.filter fun o => o.satoshis = perOutputSats).length) ∧
    (∀ {σ : Type} {key : FaucetKey} {coins : List Utxo} {es : List Answered} {built : BuiltTx},
      Transcript (d.buildConsolidation key coins : Net σ _) es (.ok built) →
      ∃ signed, d.Balanced key coins 1 0 signed built) ∧
    (∀ {σ : Type} {key : FaucetKey} {utxos : List Utxo} {voucherPublicKeyHash : String}
      {satoshis : ℕ} {es : List Answered} {built : BuiltTx},
      Transcript (d.buildInvitationAssetLock key utxos voucherPublicKeyHash satoshis : Net σ _)
        es (.ok built) →
      ∃ extraPayload signed, assetLockPayload voucherPublicKeyHash satoshis = .ok extraPayload ∧
        d.Balanced key utxos 2 (extraPayload.length / 2) signed built ∧
        voucherAmount built = satoshis) ∧
    (∀ {utxos selected : List Utxo} {target outputs payload : ℕ},
      d.selectInputs utxos target outputs payload = .ok selected →
      0 ≤ (sumSats selected : ℤ) - target - d.feeCeiling selected.length outputs payload) ∧
    (∀ {σ : Type} {key : FaucetKey} {utxos : List Utxo} {count perOutputSats : ℕ}
      {es : List Answered} {available required : ℕ},
      Transcript (d.buildSplit key utxos count perOutputSats : Net σ _) es
        (.error (.insufficientFunds available required)) →
      d.selectInputs utxos (count * perOutputSats) (count + 1) =
        .error (.insufficientFunds available required)) ∧
    ∀ {σ : Type} {key : FaucetKey} {utxos : List Utxo} {voucherPublicKeyHash : String}
      {satoshis : ℕ} {es : List Answered} {available required : ℕ},
      Transcript (d.buildInvitationAssetLock key utxos voucherPublicKeyHash satoshis : Net σ _)
        es (.error (.insufficientFunds available required)) →
      ∃ extraPayload, assetLockPayload voucherPublicKeyHash satoshis = .ok extraPayload ∧
        d.selectInputs utxos satoshis 2 (extraPayload.length / 2) =
          .error (.insufficientFunds available required) := by
  refine ⟨fun h => ⟨buildSplit_balanced hd h, (buildSplit_made hd h).1⟩,
    fun h => buildConsolidation_balanced hd h, fun h => buildInvitationAssetLock_balanced hd h,
    fun h => ?_, fun h => buildSplit_insufficient h,
    fun h => buildInvitationAssetLock_insufficient h⟩
  -- what is over goes back or to the fee
  have hcovers := covers_of_selectInputs h
  rw [Covers] at hcovers
  omega

/-- One confirmed coin. -/
def oneCoin : List Utxo := [⟨"a", 0, 10 * coin, "faucet", some 1⟩]

/-- A split of ten in two coins of two, and an asset lock of all but the fee and 900 duffs, which
are too little for change. -/
theorem builders_conserve_small :
    (∃ built, Transcript (Faucet.smallTx.buildSplit ⟨"faucet", "Xfaucet"⟩ oneCoin 2 (2 * coin) :
        Net Unit _) [⟨Query.entropy, (0 : ℕ)⟩] (.ok built) ∧
      2 ≤ (built.ownOutputs.filter fun o => o.satoshis = 2 * coin).length) ∧
    ∃ built, Transcript (Faucet.smallTx.buildInvitationAssetLock ⟨"faucet", "Xfaucet"⟩ oneCoin
        "0123456789012345678901234567890123456789" (10 * coin - 1164) : Net Unit _)
        [⟨Query.entropy, (0 : ℕ)⟩] (.ok built) ∧
      built.ownOutputs = [] ∧ built.fee = 1164 ∧ voucherAmount built = (10 * coin - 1164 : ℕ) := by
  obtain ⟨hsplit, -, hlock, -⟩ := builders_conserve Faucet.smallTx_faithful
  -- one coin of 10 DASH becomes two pool coins and change
  have hs : Transcript (Faucet.smallTx.buildSplit ⟨"faucet", "Xfaucet"⟩ oneCoin 2 (2 * coin) :
      Net Unit _) [⟨Query.entropy, (0 : ℕ)⟩] (.ok ⟨"a", "id of a", [⟨"a", 0⟩],
        [⟨"id of a", 0, 2 * coin⟩, ⟨"id of a", 1, 2 * coin⟩, ⟨"id of a", 2, 6 * coin - 261⟩], 261,
        10 * coin⟩) :=
    ⟨(0 : ℕ), [], rfl, rfl, by decide +kernel⟩
  have hl : Transcript (Faucet.smallTx.buildInvitationAssetLock ⟨"faucet", "Xfaucet"⟩ oneCoin
      "0123456789012345678901234567890123456789" (10 * coin - 1164) : Net Unit _)
      [⟨Query.entropy, (0 : ℕ)⟩] (.ok ⟨"a", "id of a", [⟨"a", 0⟩], [], 1164, 10 * coin⟩) := by
    have hpayload : assetLockPayload "0123456789012345678901234567890123456789" (10 * coin - 1164) =
        .ok "010174c59a3b000000001976a914012345678901234567890123456789012345678988ac" := by
      decide +kernel
    unfold buildInvitationAssetLock
    rw [hpayload]
    exact ⟨(0 : ℕ), [], rfl, rfl, by decide +kernel⟩
  obtain ⟨-, -, -, -, hamount⟩ := hlock hl
  exact ⟨⟨_, hs, (hsplit hs).2⟩, _, hl, rfl, rfl, hamount⟩

end DashTx

end DashFaucet

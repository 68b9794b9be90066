import Mathlib.Data.List.Perm.Subperm
import Mathlib.Algebra.BigOperators.Group.List.Basic
import DashFaucet.Chain.Lookups
import DashFaucet.Tx

/-!
# What a built transaction spends

Each of the four builders spends coins it was given, each once, and what it does not pay back to
the faucet is the amount it was asked to send and the fee (`DashTx.Spends`). Coin selection enters
through one fact: it picks some of the coins (`selectInputs_subperm`).
-/

namespace DashFaucet

open Async List

/-! ### Coin selection picks coins -/

/-- Taking coins in order takes a front part of them. -/
theorem DashTx.largestFirst_eq {required : ℕ → ℕ} {coins picked result : List Utxo} {sum : ℕ}
    (h : largestFirst required coins picked sum = some result) :
    ∃ k, result = picked ++ coins.take k := by
  induction coins generalizing picked sum with
  | nil => simp [largestFirst] at h
  | cons u us ih =>
    simp only [largestFirst] at h
    split at h
    · cases h
      exact ⟨1, by simp⟩
    · obtain ⟨k, hk⟩ := ih h
      exact ⟨k + 1, by simp [hk]⟩

theorem DashTx.selectInputs_subperm {d : DashTx} {utxos picked : List Utxo}
    {target outputs payload : ℕ}
    (h : d.selectInputs utxos target outputs payload = .ok picked) : picked <+~ utxos := by
  have hasc : ascendingSats utxos ~ utxos := List.perm_insertionSort _ _
  simp only [selectInputs] at h
  split at h
  · next single hfind =>
    -- one coin that covers the target alone
    cases h
    have hmem : single ∈ utxos := hasc.subset (List.mem_of_find?_eq_some hfind)
    exact (List.singleton_sublist.mpr hmem).subperm
  · split at h
    · next picked' hpicked =>
      -- the largest confirmed coins
      cases h
      obtain ⟨k, rfl⟩ := largestFirst_eq hpicked
      rw [List.nil_append]
      have hsub := (List.take_sublist k _).trans
        (List.filter_sublist (p := fun u : Utxo => u.height.isSome)
          (l := (ascendingSats utxos).reverse))
      exact hsub.subperm.trans ((List.reverse_perm _).trans hasc).subperm
    · split at h <;> cases h

/-! ### Reading a signed transaction back -/

/-- The value a transaction pays back to the faucet. -/
def BuiltTx.ownSats (built : BuiltTx) : ℕ := (built.ownOutputs.map OwnOutput.satoshis).sum

/-- The value of the outputs that pay a key. -/
def paidTo (pubKeyHash : String) (outputs : List TxOutput) : ℕ :=
  ((outputs.filter fun o => o.pubKeyHash = some pubKeyHash).map TxOutput.satoshis).sum

namespace DashTx

variable {d : DashTx}

/-- Our outputs are those that pay our key, each under its position. -/
theorem finish_ownSats (signed : TxSummary) (key : FaucetKey) (totalIn : ℕ) :
    (d.finish signed key totalIn).ownSats = paidTo key.pubKeyHash signed.outputs := by
  suffices h : ∀ (os : List TxOutput) (n : ℕ),
      (((os.zipIdx n).filterMap fun x =>
        if x.1.pubKeyHash = some key.pubKeyHash then
          some (⟨d.getId signed.transaction, x.2, x.1.satoshis⟩ : OwnOutput)
        else none).map OwnOutput.satoshis).sum = paidTo key.pubKeyHash os from
    h signed.outputs 0
  intro os
  -- along the outputs, from any index
  induction os with
  | nil => exact fun _ => rfl
  | cons o os ih =>
    intro n
    have hrest := ih (n + 1)
    rw [List.zipIdx_cons, List.filterMap_cons]
    rw [paidTo] at hrest ⊢
    rw [List.filter_cons]
    by_cases hown : o.pubKeyHash = some key.pubKeyHash
    · simpa [hown] using hrest
    · simpa [hown] using hrest

/-- Our outputs lie in the transaction itself, at different positions. -/
theorem finish_ownOutputs (signed : TxSummary) (key : FaucetKey) (totalIn : ℕ) :
    let built := d.finish signed key totalIn
    (∀ o ∈ built.ownOutputs, o.txid = built.txid) ∧
      (built.ownOutputs.map OwnOutput.outputIndex).Nodup := by
  constructor
  · intro o ho
    -- an own output is built from the transaction's id
    simp only [finish, List.mem_filterMap, Prod.exists] at ho
    obtain ⟨a, i, -, h⟩ := ho
    split at h
    · cases h
      rfl
    · cases h
  · -- the positions are some of `0, 1, 2, …`, in order
    have hsub : ∀ (os : List TxOutput) (n : ℕ),
        ((os.zipIdx n).filterMap fun x =>
          if x.1.pubKeyHash = some key.pubKeyHash then
            some (⟨d.getId signed.transaction, x.2, x.1.satoshis⟩ : OwnOutput)
          else none).map OwnOutput.outputIndex <+ List.range' n os.length := by
      intro os
      induction os with
      | nil => exact fun _ => List.Sublist.refl _
      | cons o os ih =>
        intro n
        rw [List.zipIdx_cons, List.filterMap_cons, List.length_cons, List.range'_succ]
        by_cases hown : o.pubKeyHash = some key.pubKeyHash
        · simpa [hown] using ih (n + 1)
        · simpa [hown] using (ih (n + 1)).cons n
    have hrange : (List.range' 0 signed.outputs.length).Nodup := List.nodup_range'
    exact hrange.sublist (hsub signed.outputs 0)

/-- **What a build spends.** Some of the given coins, each once; their value is the amount that
leaves, what comes back, and the fee. -/
structure Spends (utxos : List Utxo) (amount : ℕ) (built : BuiltTx) : Prop where
  /-- The coins that go in. -/
  selected : ∃ coins : List Utxo, coins <+~ utxos ∧ built.inputs ~ coins.map Utxo.outpoint ∧
    (sumSats coins : ℤ) = amount + built.ownSats + built.fee
  own_txid : ∀ o ∈ built.ownOutputs, o.txid = built.txid
  own_nodup : (built.ownOutputs.map OwnOutput.outputIndex).Nodup

/-- The inputs are distinct when the coins are. -/
theorem Spends.inputs_nodup {utxos : List Utxo} {amount : ℕ} {built : BuiltTx}
    (h : Spends utxos amount built) (hd : (utxos.map Utxo.outpoint).Nodup) :
    built.inputs.Nodup := by
  obtain ⟨coins, hsub, hperm, -⟩ := h.selected
  obtain ⟨coins', hperm', hsub'⟩ := hsub
  rw [hperm.nodup_iff, (hperm'.map Utxo.outpoint).symm.nodup_iff]
  exact hd.sublist (hsub'.map _)

/-- Every input is one of the coins. -/
theorem Spends.exists_of_mem {utxos : List Utxo} {amount : ℕ} {built : BuiltTx}
    (h : Spends utxos amount built) {o : Outpoint} (ho : o ∈ built.inputs) :
    ∃ u ∈ utxos, u.outpoint = o := by
  obtain ⟨coins, hsub, hperm, -⟩ := h.selected
  obtain ⟨u, hu, rfl⟩ := List.mem_map.mp (hperm.subset ho)
  exact ⟨u, hsub.subset hu, rfl⟩

/-- What spends some of the coins spends coins. -/
theorem Spends.mono {coins utxos : List Utxo} {amount : ℕ} {built : BuiltTx}
    (h : Spends coins amount built) (hsub : coins <+~ utxos) : Spends utxos amount built := by
  obtain ⟨selected, hsel, hin, hsum⟩ := h.selected
  exact ⟨⟨selected, hsel.trans hsub, hin, hsum⟩, h.own_txid, h.own_nodup⟩

theorem sumSats_perm {coins coins' : List Utxo} (h : coins ~ coins') :
    sumSats coins = sumSats coins' := (h.map _).sum_eq

theorem sumSats_append (coins coins' : List Utxo) :
    sumSats (coins ++ coins') = sumSats coins + sumSats coins' := by
  rw [sumSats, List.map_append, List.sum_append]
  rfl

/-- What a transaction takes out of a wallet is what it was given. -/
theorem filter_inputs_perm {wallet coins : List Utxo} {inputs : List Outpoint}
    (hw : (wallet.map Utxo.outpoint).Nodup) (hsub : coins <+~ wallet)
    (hin : inputs ~ coins.map Utxo.outpoint) :
    wallet.filter (fun u => inputs.contains u.outpoint) ~ coins := by
  have hwallet : wallet.Nodup := List.Nodup.of_map _ hw
  have hcoins : coins.Nodup := by
    obtain ⟨coins', hperm, hsub'⟩ := hsub
    exact hperm.nodup_iff.mp (hwallet.sublist hsub')
  rw [List.perm_ext_iff_of_nodup (hwallet.filter _) hcoins]
  intro u
  rw [List.mem_filter, List.contains_iff_mem, hin.mem_iff, List.mem_map]
  constructor
  · rintro ⟨hu, u', hu', heq⟩
    rwa [← List.inj_on_of_nodup_map hw (hsub.subset hu') hu heq]
  · exact fun hu => ⟨hsub.subset hu, u, hu, rfl⟩

/-- A wallet is worth what is taken out of it and what is left. -/
theorem sumSats_split {wallet coins : List Utxo} {inputs : List Outpoint}
    (hw : (wallet.map Utxo.outpoint).Nodup) (hsub : coins <+~ wallet)
    (hin : inputs ~ coins.map Utxo.outpoint) :
    sumSats wallet = sumSats coins +
      sumSats (wallet.filter fun u => !inputs.contains u.outpoint) := by
  rw [← sumSats_perm (filter_inputs_perm hw hsub hin), ← sumSats_append]
  exact (sumSats_perm (List.filter_append_perm _ wallet)).symm

/-- A signed transaction with inputs from `coins` and outputs that pay `amount` to others. -/
theorem spends_finish {utxos coins : List Utxo} {amount : ℕ} {signed : TxSummary}
    {key : FaucetKey} (hsub : coins <+~ utxos) (hin : signed.inputs ~ coins.map toTxInput)
    (hout : (signed.outputs.map TxOutput.satoshis).sum =
      amount + paidTo key.pubKeyHash signed.outputs) :
    Spends utxos amount (d.finish signed key (sumSats coins)) := by
  obtain ⟨htxid, hnodup⟩ := finish_ownOutputs (d := d) signed key (sumSats coins)
  refine ⟨⟨coins, hsub, ?_, ?_⟩, htxid, hnodup⟩
  · have h := hin.map fun i : TxInput => (⟨i.txid, i.outputIndex⟩ : Outpoint)
    rw [List.map_map] at h
    exact h
  · rw [finish_ownSats]
    have hfee : (d.finish signed key (sumSats coins)).fee =
        (sumSats coins : ℤ) - (signed.outputs.map TxOutput.satoshis).sum := rfl
    rw [hfee, hout]
    omega

/-! ### The builders -/

section Builders

variable {σ : Type} {es : List Answered} {key : FaucetKey} {built : BuiltTx}

/-- Signing asks for entropy and returns what the signer makes of it. -/
theorem sign_ok {signer : TxInfo → ℕ → Except String TxSummary} {info : TxInfo}
    {signed : TxSummary} (h : Transcript (sign signer info : Net σ _) es (.ok signed)) :
    ∃ e, signer info e = .ok signed := by
  obtain ⟨es₁, r₁, h₁, hrest⟩ := transcript_bind.mp h
  obtain ⟨e, rfl, rfl⟩ := transcript_ask.mp h₁
  obtain ⟨es₂, rfl, h₂⟩ := hrest
  obtain ⟨-, hr⟩ := transcript_ofExcept.mp h₂
  refine ⟨e, ?_⟩
  cases hs : signer info e with
  | error m => simp [libraryError, hs, Except.mapError] at hr
  | ok s =>
    rw [hs] at hr
    cases hr
    rfl

theorem reads_sign (signer : TxInfo → ℕ → Except String TxSummary) (info : TxInfo) :
    (sign signer info : Net σ _).Quiet Reads :=
  Quiet.bind ((quiet_ask _).mpr trivial) fun _ => quiet_ofExcept _

/-- The value of a list of outputs does not depend on their order. -/
theorem paidTo_perm {pubKeyHash : String} {os os' : List TxOutput} (h : os ~ os') :
    paidTo pubKeyHash os = paidTo pubKeyHash os' :=
  ((h.filter _).map _).sum_eq

theorem sortBy_perm {α : Type} (cmp : α → α → ℤ) (l : List α) : sortBy cmp l ~ l :=
  List.perm_insertionSort _ _

theorem sum_toTxInput (coins : List Utxo) :
    ((coins.map toTxInput).map TxInput.satoshis).sum = sumSats coins := by
  rw [List.map_map]
  rfl

theorem libraryError_ok {α : Type} {x : Except String α} {a : α}
    (h : Except.ok a = libraryError x) : x = .ok a := by
  cases x with
  | error m => cases h
  | ok b =>
    cases h
    rfl

theorem paidTo_of_all {os : List TxOutput} (h : ∀ o ∈ os, o.pubKeyHash = some key.pubKeyHash) :
    paidTo key.pubKeyHash os = (os.map TxOutput.satoshis).sum := by
  rw [paidTo, List.filter_eq_self.mpr (by simpa using h)]

theorem paidTo_of_none {os : List TxOutput} (h : ∀ o ∈ os, o.pubKeyHash ≠ some key.pubKeyHash) :
    paidTo key.pubKeyHash os = 0 := by
  rw [paidTo, List.filter_eq_nil_iff.mpr (by simpa using h)]
  rfl

theorem paidTo_append (pubKeyHash : String) (os os' : List TxOutput) :
    paidTo pubKeyHash (os ++ os') = paidTo pubKeyHash os + paidTo pubKeyHash os' := by
  simp [paidTo]

/-- How building a payout ends. -/
inductive PayoutBuilds (d : DashTx) (key : FaucetKey) (utxos : List Utxo) (recipient : String)
    (satoshis maxInputs : ℕ) : Except Thrown BuiltTx → Prop
  /-- The recipient is the faucet. -/
  | selfPay (hself : recipient = key.pubKeyHash) :
      PayoutBuilds d key utxos recipient satoshis maxInputs (.error .selfPay)
  /-- The coins do not cover it. -/
  | unselected {e : Thrown} (hother : recipient ≠ key.pubKeyHash)
      (hsel : d.selectInputs utxos satoshis = .error e) :
      PayoutBuilds d key utxos recipient satoshis maxInputs (.error e)
  /-- It takes more coins than a transaction may spend. -/
  | fragmented {selected : List Utxo} (hother : recipient ≠ key.pubKeyHash)
      (hsel : d.selectInputs utxos satoshis = .ok selected) (hmany : maxInputs < selected.length) :
      PayoutBuilds d key utxos recipient satoshis maxInputs
        (.error (.tooFragmented selected.length maxInputs))
  /-- The library or the final check refuses. -/
  | refused {selected : List Utxo} {message : String} (hother : recipient ≠ key.pubKeyHash)
      (hsel : d.selectInputs utxos satoshis = .ok selected)
      (hfew : selected.length ≤ maxInputs) :
      PayoutBuilds d key utxos recipient satoshis maxInputs (.error (.error message))
  | built {selected : List Utxo} {draft : TxDraft} {e : ℕ} {signed : TxSummary}
      (hother : recipient ≠ key.pubKeyHash) (hsel : d.selectInputs utxos satoshis = .ok selected)
      (hfew : selected.length ≤ maxInputs)
      (hdraft : d.draftSingleOutput (utxos.map toTxInput) (selected.map toTxInput)
        { satoshis, pubKeyHash := some recipient } = .ok draft)
      (hsigned : d.finalizePresorted
        { inputs := sortBy d.sortInputs draft.inputs
          outputs := sortBy d.sortOutputs (draft.outputs ++
            (draft.change.map fun c => { c with pubKeyHash := some key.pubKeyHash }).toList) } e =
          .ok signed) :
      PayoutBuilds d key utxos recipient satoshis maxInputs (.ok (d.finish signed key
        ((sortBy d.sortInputs draft.inputs).map TxInput.satoshis).sum))

theorem libraryError_error {α : Type} {x : Except String α} {e : Thrown}
    (h : Except.error e = libraryError x) : ∃ message, e = .error message := by
  cases x with
  | error m =>
    cases h
    exact ⟨m, rfl⟩
  | ok b => cases h

/-- Signing throws what the signer throws. -/
theorem sign_error {signer : TxInfo → ℕ → Except String TxSummary} {info : TxInfo} {e : Thrown}
    (h : Transcript (sign signer info : Net σ _) es (.error e)) :
    ∃ message, e = .error message := by
  obtain ⟨es₁, r₁, h₁, hrest⟩ := transcript_bind.mp h
  obtain ⟨entropy, rfl, rfl⟩ := transcript_ask.mp h₁
  obtain ⟨es₂, rfl, h₂⟩ := hrest
  exact libraryError_error (transcript_ofExcept.mp h₂).2

theorem buildPayout_builds {utxos : List Utxo} {recipient : String} {satoshis maxInputs : ℕ}
    {r : Except Thrown BuiltTx}
    (h : Transcript (d.buildPayout key utxos recipient satoshis maxInputs : Net σ _) es r) :
    d.PayoutBuilds key utxos recipient satoshis maxInputs r := by
  unfold buildPayout at h
  split at h
  · next hself =>
    obtain ⟨-, rfl⟩ := transcript_throw.mp h
    exact .selfPay hself
  next hother =>
  obtain ⟨es₁, r₁, h₁, hrest⟩ := transcript_bind.mp h
  obtain ⟨rfl, hsel⟩ := transcript_ofExcept.mp h₁
  cases r₁ with
  | error e =>
    obtain ⟨-, rfl⟩ := hrest
    exact .unselected hother hsel.symm
  | ok selected =>
    obtain ⟨es₂, -, h₂⟩ := hrest
    dsimp only at h₂
    split at h₂
    · next hmany =>
      obtain ⟨-, rfl⟩ := transcript_throw.mp h₂
      exact .fragmented hother hsel.symm hmany
    next hfew =>
    -- from here on only the library or the final check refuses
    have hfew := not_lt.mp hfew
    obtain ⟨es₃, r₃, h₃, hrest⟩ := transcript_bind.mp h₂
    obtain ⟨rfl, hdraft⟩ := transcript_ofExcept.mp h₃
    cases r₃ with
    | error e =>
      obtain ⟨-, rfl⟩ := hrest
      obtain ⟨message, rfl⟩ := libraryError_error hdraft
      exact .refused hother hsel.symm hfew
    | ok draft =>
      obtain ⟨es₄, -, h₄⟩ := hrest
      obtain ⟨es₅, r₅, h₅, hrest⟩ := transcript_bind.mp h₄
      cases r₅ with
      | error e =>
        obtain ⟨-, rfl⟩ := hrest
        obtain ⟨message, rfl⟩ := sign_error h₅
        exact .refused hother hsel.symm hfew
      | ok signed =>
        obtain ⟨es₆, -, h₆⟩ := hrest
        obtain ⟨e, hsigned⟩ := sign_ok h₅
        split at h₆
        · -- the recipient's output does not pay the amount
          obtain ⟨-, rfl⟩ := transcript_throw.mp h₆
          exact .refused hother hsel.symm hfew
        · obtain ⟨-, rfl⟩ := transcript_pure.mp h₆
          exact .built hother hsel.symm hfew (libraryError_ok hdraft) hsigned

/-- A payout pays its recipient and sends the change back. -/
theorem buildPayout_spends (hd : d.Faithful) {utxos : List Utxo} {recipient : String}
    {satoshis maxInputs : ℕ}
    (h : Transcript (d.buildPayout key utxos recipient satoshis maxInputs : Net σ _) es
      (.ok built)) : Spends utxos satoshis built := by
  cases buildPayout_builds h with
  | @built selected draft e signed hother hsel hfew hdraft hsigned =>
    have hin : signed.inputs ~ selected.map toTxInput := by
      rw [hd.finalize_inputs hsigned, ← hd.draft_inputs hdraft]
      exact sortBy_perm _ _
    have hout := hd.finalize_outputs hsigned
    rw [hd.draft_outputs hdraft] at hout
    have htotal : ((sortBy d.sortInputs draft.inputs).map TxInput.satoshis).sum =
        sumSats selected := by
      rw [((sortBy_perm _ _).map _).sum_eq, hd.draft_inputs hdraft, sum_toTxInput]
    rw [htotal]
    refine spends_finish (selectInputs_subperm hsel) hin ?_
    -- the recipient is not the faucet, the change is
    have hperm := sortBy_perm d.sortOutputs ([{ satoshis, pubKeyHash := some recipient }] ++
      (draft.change.map fun c => { c with pubKeyHash := some key.pubKeyHash }).toList)
    rw [hout, (hperm.map _).sum_eq, paidTo_perm hperm, paidTo_append,
      paidTo_of_none (by simpa using hother), paidTo_of_all (by
        cases draft.change <;> simp)]
    simp

/-- The outputs of a split: the pool coins, and change when it is above dust. -/
def splitOutputs (d : DashTx) (key : FaucetKey) (count perOutputSats : ℕ) (changeSats : ℤ) :
    List TxOutput :=
  List.replicate count { satoshis := perOutputSats, pubKeyHash := some key.pubKeyHash } ++
    if changeSats > d.legacyDust then
      [{ satoshis := changeSats.toNat, pubKeyHash := some key.pubKeyHash }]
    else []

theorem pubKeyHash_of_mem_splitOutputs {count perOutputSats : ℕ} {changeSats : ℤ} {o : TxOutput}
    (ho : o ∈ d.splitOutputs key count perOutputSats changeSats) :
    o.pubKeyHash = some key.pubKeyHash := by
  rcases List.mem_append.mp ho with ho | ho
  · rw [List.eq_of_mem_replicate ho]
  · split at ho
    · rw [List.mem_singleton.mp ho]
    · cases ho

/-- How a split came about. -/
theorem buildSplit_ok {utxos : List Utxo} {count perOutputSats : ℕ}
    (h : Transcript (d.buildSplit key utxos count perOutputSats : Net σ _) es (.ok built)) :
    ∃ (selected : List Utxo) (changeSats : ℤ) (e : ℕ) (signed : TxSummary),
      d.selectInputs utxos (count * perOutputSats) (count + 1) = .ok selected ∧
      changeSats = (sumSats selected : ℤ) - (count * perOutputSats : ℕ) -
        d.feeCeiling selected.length (count + 1) ∧ 0 ≤ changeSats ∧
      d.hashAndSignAll
        { inputs := sortBy d.sortInputs (selected.map toTxInput)
          outputs := sortBy d.sortOutputs (d.splitOutputs key count perOutputSats changeSats) } e =
        .ok signed ∧
      built = d.finish signed key (sumSats selected) ∧
      count ≤ (built.ownOutputs.filter fun o => o.satoshis = perOutputSats).length := by
  unfold buildSplit at h
  split at h
  -- no outputs asked for
  · obtain ⟨-, hr⟩ := transcript_throw.mp h
    cases hr
  obtain ⟨es₁, r₁, h₁, hrest⟩ := transcript_bind.mp h
  obtain ⟨rfl, hsel⟩ := transcript_ofExcept.mp h₁
  cases r₁ with
  | error e => exact absurd hrest.2 (by simp)
  | ok selected =>
    obtain ⟨es₂, -, h₂⟩ := hrest
    dsimp only at h₂
    split at h₂
    -- not enough for the outputs and the fee
    · obtain ⟨-, hr⟩ := transcript_throw.mp h₂
      cases hr
    next hchange =>
      obtain ⟨es₃, r₃, h₃, hrest⟩ := transcript_bind.mp h₂
      cases r₃ with
      | error e => exact absurd hrest.2 (by simp)
      | ok signed =>
        obtain ⟨es₄, -, h₄⟩ := hrest
        obtain ⟨e, hsigned⟩ := sign_ok h₃
        split at h₄
        -- the signed transaction lost an output of the pool
        · obtain ⟨-, hr⟩ := transcript_throw.mp h₄
          cases hr
        next hpool =>
          obtain ⟨-, hr⟩ := transcript_pure.mp h₄
          cases hr
          exact ⟨selected, _, e, signed, hsel.symm, rfl, not_lt.mp hchange, hsigned, rfl,
            not_lt.mp hpool⟩

/-- A split pays only the faucet. -/
theorem buildSplit_spends (hd : d.Faithful) {utxos : List Utxo} {count perOutputSats : ℕ}
    (h : Transcript (d.buildSplit key utxos count perOutputSats : Net σ _) es (.ok built)) :
    Spends utxos 0 built := by
  obtain ⟨selected, changeSats, e, signed, hsel, -, -, hsigned, rfl, -⟩ := buildSplit_ok h
  have hin : signed.inputs ~ selected.map toTxInput := by
    rw [hd.sign_inputs hsigned]
    exact sortBy_perm _ _
  refine spends_finish (selectInputs_subperm hsel) hin ?_
  rw [paidTo_of_all, Nat.zero_add]
  intro o ho
  rw [hd.sign_outputs hsigned] at ho
  exact pubKeyHash_of_mem_splitOutputs ((sortBy_perm _ _).subset ho)

/-- Our outputs are some of the outputs. -/
theorem length_ownOutputs_le (signed : TxSummary) (key : FaucetKey) (totalIn : ℕ) :
    (d.finish signed key totalIn).ownOutputs.length ≤ signed.outputs.length := by
  refine (List.length_filterMap_le _ _).trans ?_
  rw [List.length_zipIdx]

/-- A split makes its pool coins and at most one more, and pays the fee of its shape. -/
theorem buildSplit_made (hd : d.Faithful) {utxos : List Utxo} {count perOutputSats : ℕ}
    (h : Transcript (d.buildSplit key utxos count perOutputSats : Net σ _) es (.ok built)) :
    count ≤ (built.ownOutputs.filter fun o => o.satoshis = perOutputSats).length ∧
      built.ownOutputs.length ≤ count + 1 ∧
      ∃ inputs, (d.feeCeiling inputs (count + 1) : ℤ) ≤ built.fee := by
  obtain ⟨selected, changeSats, e, signed, -, hchange, hpos, hsigned, rfl, hpool⟩ := buildSplit_ok h
  -- signing sorts the outputs and leaves them as they are
  have houtputs : signed.outputs ~ d.splitOutputs key count perOutputSats changeSats := by
    rw [hd.sign_outputs hsigned]
    exact sortBy_perm _ _
  refine ⟨hpool, (length_ownOutputs_le signed key _).trans ?_, selected.length, ?_⟩
  · rw [houtputs.length_eq, splitOutputs, List.length_append, List.length_replicate]
    split <;> simp
  · change _ ≤ (sumSats selected : ℤ) - ((signed.outputs.map TxOutput.satoshis).sum : ℕ)
    rw [(houtputs.map TxOutput.satoshis).sum_eq, splitOutputs, List.map_append, List.sum_append,
      List.map_replicate, List.sum_replicate_nat]
    split
    · rw [List.map_singleton, List.sum_singleton]
      push_cast at hchange ⊢
      omega
    · rw [List.map_nil, List.sum_nil]
      push_cast at hchange ⊢
      omega

/-- How a consolidation came about. -/
theorem buildConsolidation_ok {coins : List Utxo}
    (h : Transcript (d.buildConsolidation key coins : Net σ _) es (.ok built)) :
    ∃ (merged e : ℕ) (signed : TxSummary),
      sumSats coins = merged + d.feeCeiling coins.length 1 ∧
      d.hashAndSignAll
        { inputs := sortBy d.sortInputs (coins.map toTxInput)
          outputs := [{ satoshis := merged, pubKeyHash := some key.pubKeyHash }] } e = .ok signed ∧
      built = d.finish signed key (sumSats coins) ∧
      built.ownOutputs.map OwnOutput.satoshis = [merged] := by
  unfold buildConsolidation at h
  split at h
  -- nothing to merge
  · obtain ⟨-, hr⟩ := transcript_throw.mp h
    cases hr
  dsimp only at h
  split at h
  -- the coins do not pay their own fee
  · obtain ⟨-, hr⟩ := transcript_throw.mp h
    cases hr
  next hdust =>
    obtain ⟨es₁, r₁, h₁, hrest⟩ := transcript_bind.mp h
    cases r₁ with
    | error e => exact absurd hrest.2 (by simp)
    | ok signed =>
      obtain ⟨es₂, -, h₂⟩ := hrest
      obtain ⟨e, hsigned⟩ := sign_ok h₁
      split at h₂
      -- the signed transaction pays something else
      · obtain ⟨-, hr⟩ := transcript_throw.mp h₂
        cases hr
      next hmerged =>
        obtain ⟨-, hr⟩ := transcript_pure.mp h₂
        cases hr
        exact ⟨_, e, signed, by omega, hsigned, rfl, not_not.mp hmerged⟩

/-- A consolidation spends all its coins and pays only the faucet. -/
theorem buildConsolidation_spends (hd : d.Faithful) {coins : List Utxo}
    (h : Transcript (d.buildConsolidation key coins : Net σ _) es (.ok built)) :
    Spends coins 0 built := by
  obtain ⟨merged, e, signed, -, hsigned, rfl, -⟩ := buildConsolidation_ok h
  have hin : signed.inputs ~ coins.map toTxInput := by
    rw [hd.sign_inputs hsigned]
    exact sortBy_perm _ _
  refine spends_finish (Subperm.refl coins) hin ?_
  rw [paidTo_of_all, Nat.zero_add]
  intro o ho
  rw [hd.sign_outputs hsigned] at ho
  rw [List.mem_singleton.mp ho]

/-- A merge comes out as one coin of ours, worth the inputs less the fee of that many. -/
theorem buildConsolidation_merged {coins : List Utxo}
    (h : Transcript (d.buildConsolidation key coins : Net σ _) es (.ok built)) :
    ∃ o, built.ownOutputs = [o] ∧ sumSats coins = o.satoshis + d.feeCeiling coins.length 1 := by
  obtain ⟨merged, e, signed, hsum, -, -, hmerged⟩ := buildConsolidation_ok h
  obtain ⟨o, ho, rfl⟩ := List.map_eq_singleton_iff.mp hmerged
  exact ⟨o, ho, hsum⟩

/-- It spends just its coins, and pays the fee of its shape. -/
theorem buildConsolidation_made (hd : d.Faithful) {coins : List Utxo}
    (h : Transcript (d.buildConsolidation key coins : Net σ _) es (.ok built)) :
    built.inputs ~ coins.map Utxo.outpoint ∧ built.fee = d.feeCeiling coins.length 1 := by
  obtain ⟨merged, e, signed, hsum, hsigned, rfl, -⟩ := buildConsolidation_ok h
  constructor
  · have hin : signed.inputs ~ coins.map toTxInput := by
      rw [hd.sign_inputs hsigned]
      exact sortBy_perm _ _
    have hmap := hin.map fun i : TxInput => (⟨i.txid, i.outputIndex⟩ : Outpoint)
    rw [List.map_map] at hmap
    exact hmap
  · change (sumSats coins : ℤ) - ((signed.outputs.map TxOutput.satoshis).sum : ℕ) = _
    rw [hd.sign_outputs hsigned, List.map_singleton, List.sum_singleton]
    change (sumSats coins : ℤ) - (merged : ℕ) = _
    omega

/-- The outputs of an asset lock: the burn, and change when it is above dust. -/
def lockOutputs (d : DashTx) (key : FaucetKey) (satoshis : ℕ) (changeSats : ℤ) : List TxOutput :=
  { satoshis, memo := some "" } ::
    if changeSats > d.legacyDust then
      [{ satoshis := changeSats.toNat, pubKeyHash := some key.pubKeyHash }]
    else []

/-- How an asset lock came about. -/
theorem buildInvitationAssetLock_ok {utxos : List Utxo} {voucherPublicKeyHash : String}
    {satoshis : ℕ}
    (h : Transcript (d.buildInvitationAssetLock key utxos voucherPublicKeyHash satoshis :
      Net σ _) es (.ok built)) :
    ∃ (extraPayload : String) (selected : List Utxo) (changeSats : ℤ) (e : ℕ)
      (signed : TxSummary),
      assetLockPayload voucherPublicKeyHash satoshis = .ok extraPayload ∧
      d.selectInputs utxos satoshis 2 (extraPayload.length / 2) = .ok selected ∧
      changeSats = (sumSats selected : ℤ) - satoshis -
        d.feeCeiling selected.length 2 (extraPayload.length / 2) ∧ 0 ≤ changeSats ∧
      d.hashAndSignAll
        { version := some 3, type := some 8
          inputs := sortBy d.sortInputs (selected.map toTxInput)
          outputs := sortBy d.sortOutputs (d.lockOutputs key satoshis changeSats)
          extraPayload := some extraPayload } e = .ok signed ∧
      built = d.finish signed key (sumSats selected) := by
  unfold buildInvitationAssetLock at h
  obtain ⟨es₀, r₀, h₀, hrest⟩ := transcript_bind.mp h
  obtain ⟨rfl, hpayload⟩ := transcript_ofExcept.mp h₀
  cases r₀ with
  | error e => exact absurd hrest.2 (by simp)
  | ok extraPayload =>
    obtain ⟨es', -, h'⟩ := hrest
    obtain ⟨es₁, r₁, h₁, hrest⟩ := transcript_bind.mp h'
    obtain ⟨rfl, hsel⟩ := transcript_ofExcept.mp h₁
    cases r₁ with
    | error e => exact absurd hrest.2 (by simp)
    | ok selected =>
      obtain ⟨es₂, -, h₂⟩ := hrest
      dsimp only at h₂
      split at h₂
      -- not enough for the voucher and the fee
      · obtain ⟨-, hr⟩ := transcript_throw.mp h₂
        cases hr
      next hchange =>
        obtain ⟨es₃, r₃, h₃, hrest⟩ := transcript_bind.mp h₂
        cases r₃ with
        | error e => exact absurd hrest.2 (by simp)
        | ok signed =>
          obtain ⟨es₄, -, h₄⟩ := hrest
          obtain ⟨e, hsigned⟩ := sign_ok h₃
          split at h₄
          -- the signed transaction lost the burn or the payload
          · obtain ⟨-, hr⟩ := transcript_throw.mp h₄
            cases hr
          · obtain ⟨-, hr⟩ := transcript_pure.mp h₄
            cases hr
            exact ⟨extraPayload, selected, _, e, signed, hpayload.symm, hsel.symm, rfl,
              not_lt.mp hchange, hsigned, rfl⟩

/-- An asset lock burns the voucher's value and sends the change back. -/
theorem buildInvitationAssetLock_spends (hd : d.Faithful) {utxos : List Utxo}
    {voucherPublicKeyHash : String} {satoshis : ℕ}
    (h : Transcript (d.buildInvitationAssetLock key utxos voucherPublicKeyHash satoshis :
      Net σ _) es (.ok built)) : Spends utxos satoshis built := by
  obtain ⟨extraPayload, selected, changeSats, e, signed, -, hsel, -, -, hsigned, rfl⟩ :=
    buildInvitationAssetLock_ok h
  have hin : signed.inputs ~ selected.map toTxInput := by
    rw [hd.sign_inputs hsigned]
    exact sortBy_perm _ _
  refine spends_finish (selectInputs_subperm hsel) hin ?_
  -- the burn pays nobody, the change pays the faucet
  rw [hd.sign_outputs hsigned, ((sortBy_perm _ _).map _).sum_eq, paidTo_perm (sortBy_perm _ _),
    lockOutputs]
  split
  · simp [paidTo]
  · simp [paidTo]

/-! ### What the builders ask -/

theorem reads_buildPayout {utxos : List Utxo} {recipient : String} {satoshis maxInputs : ℕ} :
    (d.buildPayout key utxos recipient satoshis maxInputs : Net σ _).Quiet Reads := by
  unfold buildPayout
  split
  · exact quiet_throw _
  · refine (quiet_ofExcept _).bind fun selected => ?_
    split
    · exact quiet_throw _
    · refine (quiet_ofExcept _).bind fun draft => (reads_sign _ _).bind fun signed => ?_
      dsimp only
      split
      · exact quiet_throw _
      · exact quiet_pure _

theorem reads_buildSplit {utxos : List Utxo} {count perOutputSats : ℕ} :
    (d.buildSplit key utxos count perOutputSats : Net σ _).Quiet Reads := by
  unfold buildSplit
  split
  · exact quiet_throw _
  · refine (quiet_ofExcept _).bind fun selected => ?_
    dsimp only
    split
    · exact quiet_throw _
    · refine (reads_sign _ _).bind fun signed => ?_
      split
      · exact quiet_throw _
      · exact quiet_pure _

theorem reads_buildConsolidation {coins : List Utxo} :
    (d.buildConsolidation key coins : Net σ _).Quiet Reads := by
  unfold buildConsolidation
  split
  · exact quiet_throw _
  · dsimp only
    split
    · exact quiet_throw _
    · refine (reads_sign _ _).bind fun signed => ?_
      split
      · exact quiet_throw _
      · exact quiet_pure _

theorem reads_buildInvitationAssetLock {utxos : List Utxo} {voucherPublicKeyHash : String}
    {satoshis : ℕ} :
    (d.buildInvitationAssetLock key utxos voucherPublicKeyHash satoshis : Net σ _).Quiet
      Reads := by
  refine (quiet_ofExcept _).bind fun extraPayload => (quiet_ofExcept _).bind fun selected => ?_
  dsimp only
  split
  · exact quiet_throw _
  · refine (reads_sign _ _).bind fun signed => ?_
    split
    · exact quiet_throw _
    · exact quiet_pure _

end Builders

end DashTx

end DashFaucet

import DashFaucet.Treasury.Meets.Payout
import DashFaucet.Treasury.PayoutCoins

/-!
# What the next block fixes

A payout refused for coins that still confirm is told to come back: once they have confirmed it
needs no merge. It needs a transaction that takes them, though, and how many coins may go into one
is only checked on a selection that was made. So the next block fixes such a payout exactly when
few enough of the coins pay it (`DashTx.FewPay`, `Faucet.unconfirmed_fixed_iff`); otherwise it is
then refused as too fragmented.

* `confirmed`: the same coins, all of them confirmed.
* `DashTx.Capable`: with what a payout needs of the library, a selection within the limit is all it
  takes (`buildPayout_succeeds`).
-/

namespace DashFaucet

open Async List

/-- The coins as they are once all of them have confirmed, at some heights. -/
def confirmed (height : Utxo → JsNumber) (utxos : List Utxo) : List Utxo :=
  utxos.map fun u => { u with height := some (height u) }

variable {height : Utxo → JsNumber} {utxos : List Utxo}

theorem isSome_of_mem_confirmed : ∀ u ∈ confirmed height utxos, u.height.isSome := by
  intro u hu
  obtain ⟨v, -, rfl⟩ := List.mem_map.mp hu
  rfl

theorem length_confirmed : (confirmed height utxos).length = utxos.length := List.length_map _

/-- Confirming changes the value of no coin. -/
theorem sumSats_confirmed (coins : List Utxo) :
    sumSats (confirmed height coins) = sumSats coins := by
  rw [confirmed, sumSats, sumSats, List.map_map]
  rfl

/-- It does not change their order either. -/
theorem descendingSats_confirmed :
    descendingSats (confirmed height utxos) = confirmed height (descendingSats utxos) := by
  have hsort := List.map_insertionSort (fun u v : Utxo => v.satoshis ≤ u.satoshis)
    (fun u v : Utxo => v.satoshis ≤ u.satoshis)
    (fun u : Utxo => { u with height := some (height u) }) utxos fun _ _ _ _ => Iff.rfl
  exact hsort.symm

theorem prefixSats_confirmed (k : ℕ) :
    DashTx.prefixSats (confirmed height utxos) k = DashTx.prefixSats utxos k := by
  rw [DashTx.prefixSats, descendingSats_confirmed, confirmed, ← List.map_take]
  exact sumSats_confirmed _

namespace DashTx

variable {σ : Type} {d : DashTx} {key : FaucetKey} {recipient : String} {satoshis maxInputs : ℕ}
  {es : List Answered} {r : Except Thrown BuiltTx}

/-! ### A library that does its part -/

/-- What a payout needs of the library: it drafts a transaction whose inputs pay the output and the
ceiling fee, and signs what it has drafted. -/
structure Capable (d : DashTx) : Prop where
  drafts : ∀ {utxos inputs output}, output.satoshis + d.appraiseMax inputs.length 2 ≤
    (inputs.map TxInput.satoshis).sum → ∃ draft, d.draftSingleOutput utxos inputs output = .ok draft
  signs : ∀ info e, ∃ signed, d.finalizePresorted info e = .ok signed

/-- The recipient's output is found among the outputs of a payout. -/
theorem paid_of_payout {outputs : List TxOutput} {change : Option TxOutput}
    (hother : recipient ≠ key.pubKeyHash)
    (houtputs : outputs ~ { satoshis, pubKeyHash := some recipient : TxOutput } ::
      (change.map fun c => { c with pubKeyHash := some key.pubKeyHash }).toList) :
    (outputs.find? fun o => o.pubKeyHash = some recipient).map TxOutput.satoshis =
      some satoshis := by
  cases hfind : outputs.find? fun o => o.pubKeyHash = some recipient with
  | none =>
    have hmem := houtputs.symm.subset List.mem_cons_self
    exact absurd (List.find?_eq_none.mp hfind _ hmem) (by simp)
  | some o =>
    have hpays : o.pubKeyHash = some recipient := by simpa using List.find?_some hfind
    rcases List.mem_cons.mp (houtputs.subset (List.mem_of_find?_eq_some hfind)) with rfl | hchange
    · rfl
    · -- the change pays the faucet
      obtain ⟨c, -, rfl⟩ := Option.map_eq_some_iff.mp (Option.mem_toList.mp hchange)
      exact absurd (Option.some.inj hpays).symm hother

/-- **A selection within the limit is built**, if the library does its part. -/
theorem buildPayout_succeeds (hd : d.Faithful) (hcap : d.Capable)
    (hother : recipient ≠ key.pubKeyHash) {selected : List Utxo}
    (hsel : d.selectInputs utxos satoshis = .ok selected)
    (hfew : selected.length ≤ maxInputs)
    (h : Transcript (d.buildPayout key utxos recipient satoshis maxInputs : Net σ _) es r) :
    ∃ built, r = .ok built := by
  have hcovers : d.Covers satoshis 2 0 selected := covers_of_selectInputs hsel
  unfold buildPayout at h
  rw [if_neg hother] at h
  obtain ⟨es₁, r₁, h₁, hrest⟩ := transcript_bind.mp h
  obtain ⟨rfl, hsel'⟩ := transcript_ofExcept.mp h₁
  rw [hsel] at hsel'
  subst hsel'
  obtain ⟨es₂, -, h₂⟩ := hrest
  dsimp only at h₂
  rw [if_neg (not_lt.mpr hfew)] at h₂
  -- the draft
  obtain ⟨es₃, r₃, h₃, hrest⟩ := transcript_bind.mp h₂
  obtain ⟨rfl, hdraft⟩ := transcript_ofExcept.mp h₃
  obtain ⟨draft, hok⟩ := @Capable.drafts d hcap (utxos.map toTxInput) (selected.map toTxInput)
    { satoshis, pubKeyHash := some recipient } (by
      rw [List.length_map, List.map_map]
      exact hcovers)
  rw [hok] at hdraft
  cases hdraft
  obtain ⟨es₄, -, h₄⟩ := hrest
  -- the signature
  obtain ⟨es₅, r₅, h₅, hrest⟩ := transcript_bind.mp h₄
  obtain ⟨es₆, r₆, h₆, hrest'⟩ := transcript_bind.mp h₅
  obtain ⟨entropy, rfl, rfl⟩ := transcript_ask.mp h₆
  obtain ⟨es₇, rfl, h₇⟩ := hrest'
  obtain ⟨signed, hsigned⟩ := hcap.signs
    { inputs := sortBy d.sortInputs draft.inputs
      outputs := sortBy d.sortOutputs (draft.outputs ++
        (draft.change.map fun c => { c with pubKeyHash := some key.pubKeyHash }).toList) } entropy
  obtain ⟨rfl, hr₅⟩ := transcript_ofExcept.mp h₇
  rw [hsigned] at hr₅
  subst hr₅
  obtain ⟨es₈, -, h₈⟩ := hrest
  -- the final check
  have houtputs : signed.outputs ~ { satoshis, pubKeyHash := some recipient : TxOutput } ::
      (draft.change.map fun c => { c with pubKeyHash := some key.pubKeyHash }).toList := by
    rw [hd.finalize_outputs hsigned, hd.draft_outputs hok]
    exact sortBy_perm _ _
  rw [if_neg (not_not.mpr (paid_of_payout hother houtputs))] at h₈
  obtain ⟨-, rfl⟩ := transcript_pure.mp h₈
  exact ⟨_, rfl⟩

/-- Without a selection it fails for want of coins, and for nothing else. -/
theorem isShortage_of_buildPayout (hd : d.Faithful) (hcap : d.Capable)
    (hother : recipient ≠ key.pubKeyHash) {e : Thrown}
    (h : Transcript (d.buildPayout key utxos recipient satoshis maxInputs : Net σ _) es
      (.error e)) :
    Faucet.isShortage e = true := by
  cases buildPayout_builds h with
  | selfPay hself => exact absurd hself hother
  | unselected _ herr =>
    have hselects := d.selectInputs_selects utxos satoshis 2 0
    rw [herr] at hselects
    cases hselects <;> rfl
  | fragmented => rfl
  | refused _ hsel hfew =>
    obtain ⟨built, hbuilt⟩ := buildPayout_succeeds hd hcap hother hsel hfew h
    cases hbuilt

/-! ### Coins that pay -/

/-- At most `maxInputs` of the coins pay, confirmed or not: for some number of them the largest are
worth the amount and the ceiling fee. -/
def FewPay (d : DashTx) (utxos : List Utxo) (satoshis maxInputs : ℕ) : Prop :=
  ∃ k < maxInputs + 1, 1 ≤ k ∧ k ≤ utxos.length ∧
    satoshis + d.feeCeiling k 2 ≤ prefixSats utxos k

instance : Decidable (d.FewPay utxos satoshis maxInputs) :=
  inferInstanceAs (Decidable (∃ k < maxInputs + 1, _))

/-- Coins that have confirmed pay with any of them. -/
theorem fewPay_iff (hall : ∀ u ∈ utxos, u.height.isSome) :
    d.FewPay utxos satoshis maxInputs ↔
      ∃ S, d.Admissible utxos satoshis 2 0 S ∧ S.length ≤ maxInputs := by
  have hdesc := descendingSats_perm utxos
  constructor
  · -- the `k` largest coins are admissible
    rintro ⟨k, hk, hpos, hlen, hcovers⟩
    have htake : ((descendingSats utxos).take k).length = k := by
      rw [List.length_take, hdesc.length_eq, min_eq_left hlen]
    have hsub : (descendingSats utxos).take k <+~ utxos :=
      (List.take_sublist _ _).subperm.trans hdesc.subperm
    refine ⟨_, ⟨hsub, ?_, ?_⟩, by omega⟩
    · rw [Covers, htake]
      exact hcovers
    · rw [htake]
      rcases hpos.eq_or_lt with hone | hmore
      · exact .inl hone.symm
      · exact .inr ⟨hmore, fun u hu => hall u (hsub.subset hu)⟩
  · rintro ⟨S, hS, hfew⟩
    -- no coins are worth more than as many of the largest
    have hbest : sumSats S ≤ prefixSats utxos S.length :=
      Largest.weight_le_take (descendingSats_pairwise utxos) (hS.picked.trans hdesc.symm.subperm)
    exact ⟨S.length, by omega, List.length_pos_iff.mpr hS.ne_nil, hS.picked.length_le,
      hS.covers.trans hbest⟩

theorem fewPay_confirmed :
    d.FewPay (confirmed height utxos) satoshis maxInputs ↔ d.FewPay utxos satoshis maxInputs := by
  unfold FewPay
  simp only [prefixSats_confirmed, length_confirmed]

/-- A selection made of few enough coins is built. -/
theorem buildPayout_of_few (hd : d.Faithful) (hcap : d.Capable)
    (hother : recipient ≠ key.pubKeyHash) (hall : ∀ u ∈ utxos, u.height.isSome)
    (hfew : d.FewPay utxos satoshis maxInputs)
    (h : Transcript (d.buildPayout key utxos recipient satoshis maxInputs : Net σ _) es r) :
    ∃ built, r = .ok built := by
  obtain ⟨S, hS, hlen⟩ := (fewPay_iff hall).mp hfew
  have hselects := d.selectInputs_selects utxos satoshis 2 0
  cases hsel : d.selectInputs utxos satoshis 2 0 with
  | ok selected =>
    rw [hsel] at hselects
    refine buildPayout_succeeds hd hcap hother hsel ?_ h
    cases hselects with
    | single => exact (List.length_pos_iff.mpr hS.ne_nil).trans_le hlen
    | several _ _ hleast => exact (hleast S hS).trans hlen
  | error e =>
    rw [hsel] at hselects
    cases hselects with
    | unconfirmed hnone => exact absurd hS (hnone S)
    | insufficient hnone => exact absurd hS.covers (hnone S hS.picked hS.ne_nil)

end DashTx

namespace Faucet

open DashTx

variable {f : Faucet} {key : FaucetKey} {recipient : String} {satoshis : ℕ} {forCollateral : Bool}
  {es : List Answered} {r : Except Thrown BuiltTx}

/-! ### Payouts after the block -/

/-- A payout that is built spends few enough coins. -/
theorem fewPay_of_built {built : BuiltTx} (hall : ∀ u ∈ utxos, u.height.isSome)
    (h : Transcript (f.buildPayoutSparingCollateral key utxos recipient satoshis forCollateral) es
      (.ok built)) : f.dash.FewPay utxos satoshis f.cfg.maxPayoutInputs := by
  rw [fewPay_iff hall]
  rcases sparing_cases h with ⟨⟨es', h⟩, -⟩ | ⟨⟨es', h⟩, -⟩
  · obtain ⟨S, hS, hlen, -⟩ := (buildPayout_builds h).selected
    exact ⟨S, hS, hlen⟩
  · obtain ⟨S, hS, hlen, -⟩ := (buildPayout_builds h).selected
    exact ⟨S, ⟨hS.picked.trans List.filter_sublist.subperm, hS.covers, hS.shape⟩, hlen⟩

/-- Some build of a payout always comes to an end. -/
theorem exists_build (f : Faucet) (key : FaucetKey) (utxos : List Utxo) (recipient : String)
    (satoshis : ℕ) (forCollateral : Bool) : ∃ es r, Transcript
      (f.buildPayoutSparingCollateral key utxos recipient satoshis forCollateral) es r := by
  have hreads : (f.buildPayoutSparingCollateral key utxos recipient satoshis forCollateral).Quiet
      Reads := reads_buildPayoutSparingCollateral
  obtain ⟨es, hes, -⟩ :=
    run_quiet (fun _ _ s => s) (fun _ => smallWorld (.ok "sent")) hreads 0 (.initial 0)
  exact ⟨es, _, hes⟩

/-- Coins that would pay but for the confirmation pay after it. -/
theorem admissible_of_unconfirmed {available required : ℕ}
    (h : Transcript (f.buildPayoutSparingCollateral key utxos recipient satoshis forCollateral) es
      (.error (.unconfirmedFunds available required))) (height : Utxo → JsNumber) :
    ∃ S, f.dash.Admissible (confirmed height utxos) satoshis 2 0 S := by
  rcases sparing_cases h with ⟨⟨es', h⟩, -⟩ | ⟨-, hlong⟩
  · cases buildPayout_builds h with
    | unselected _ herr =>
      have hselects := f.dash.selectInputs_selects utxos satoshis 2 0
      rw [herr] at hselects
      cases hselects with
      | @unconfirmed S _ _ _ hS hne hcovers =>
        -- the coins that were counted, of which some had not confirmed
        obtain ⟨S', hperm, hsub⟩ := hS
        refine ⟨confirmed height S, ⟨_, hperm.map _, hsub.map _⟩, ?_, ?_⟩
        · rw [Covers, length_confirmed, sumSats_confirmed]
          exact hcovers
        · have hpos := List.length_pos_iff.mpr hne
          rw [length_confirmed]
          rcases Nat.lt_or_ge 1 S.length with hmore | hone
          · exact .inr ⟨hmore, isSome_of_mem_confirmed⟩
          · exact .inl (le_antisymm hone hpos)
  · -- such a failure would have brought the kept coins in
    have hshort := hlong _ rfl
    cases hshort

/-- **What the next block fixes.** A payout refused for coins that still confirm can be built from
the same coins once they have, exactly when few enough of them pay it. When it takes more of them,
it is then refused as too fragmented. -/
theorem unconfirmed_fixed_iff (hd : f.dash.Faithful) (hcap : f.dash.Capable)
    (hother : recipient ≠ key.pubKeyHash) {available required : ℕ}
    (h : Transcript (f.buildPayoutSparingCollateral key utxos recipient satoshis forCollateral) es
      (.error (.unconfirmedFunds available required))) (height : Utxo → JsNumber) :
    ((∀ es r, Transcript (f.buildPayoutSparingCollateral key (confirmed height utxos) recipient
        satoshis forCollateral) es r → ∃ built, r = .ok built) ↔
      f.dash.FewPay utxos satoshis f.cfg.maxPayoutInputs) ∧
    (¬f.dash.FewPay utxos satoshis f.cfg.maxPayoutInputs →
      ∀ es r, Transcript (f.buildPayoutSparingCollateral key (confirmed height utxos) recipient
        satoshis forCollateral) es r →
        ∃ inputs, r = .error (.tooFragmented inputs f.cfg.maxPayoutInputs)) := by
  have hall : ∀ u ∈ confirmed height utxos, u.height.isSome := isSome_of_mem_confirmed
  constructor
  · constructor
    · intro hfixed
      obtain ⟨es', r, hrun⟩ := exists_build f key (confirmed height utxos) recipient satoshis
        forCollateral
      obtain ⟨built, rfl⟩ := hfixed es' r hrun
      exact fewPay_confirmed.mp (fewPay_of_built hall hrun)
    · intro hfew es' r hrun
      rcases sparing_cases hrun with ⟨⟨es'', h'⟩, -⟩ | ⟨⟨es'', h'⟩, hlong⟩
      · exact buildPayout_of_few hd hcap hother hall (fewPay_confirmed.mpr hfew) h'
      · cases r with
        | ok built => exact ⟨built, rfl⟩
        | error e =>
          have hshort := isShortage_of_buildPayout hd hcap hother h'
          rw [hlong e rfl] at hshort
          cases hshort
  · intro hmany es' r hrun
    -- the coins were enough, so with all confirmed only their number can be in the way
    obtain ⟨S, hS⟩ := admissible_of_unconfirmed h height
    have hnone : ¬∃ S, f.dash.Admissible (confirmed height utxos) satoshis 2 0 S ∧
        S.length ≤ f.cfg.maxPayoutInputs :=
      fun hfew => hmany (fewPay_confirmed.mp ((fewPay_iff hall).mpr hfew))
    rcases sparing_cases hrun with ⟨⟨es'', h'⟩, -⟩ | ⟨⟨es'', h'⟩, hlong⟩
    · refine ((buildPayout_builds h').tooFragmented_iff hother).mpr ⟨⟨S, hS⟩, fun S' hS' => ?_⟩
      exact not_le.mp fun hlen => hnone ⟨S', hS', hlen⟩
    · cases r with
      | ok built => exact absurd (fewPay_confirmed.mp (fewPay_of_built hall hrun)) hmany
      | error e =>
        have hshort := isShortage_of_buildPayout hd hcap hother h'
        rw [hlong e rfl] at hshort
        cases hshort

/-! ### A promise that is not kept -/

theorem smallTx_capable : smallTx.Capable where
  drafts _ := ⟨_, rfl⟩
  signs _ _ := ⟨_, rfl⟩

/-- The small deployment, paying from two coins at most. -/
def twoInputs : Faucet := { small with cfg := { small.cfg with maxPayoutInputs := 2 } }

/-- Unconfirmed coins of the same value. -/
def lateView (names : List String) (satoshis : ℕ) : List Utxo :=
  names.map fun txid => ⟨txid, 0, satoshis, "faucet", none⟩

/-- Two coins pay once they have confirmed. -/
theorem unconfirmed_fixed_iff_two :
    twoInputs.dash.FewPay (lateView ["a", "b"] 60000000) coin 2 ∧
      ∀ es r, Transcript (twoInputs.buildPayoutSparingCollateral ⟨"faucet", "Xfaucet"⟩
        (confirmed (fun _ => 1001) (lateView ["a", "b"] 60000000)) "alice" coin false) es r →
        ∃ built, r = .ok built := by
  have hfew : twoInputs.dash.FewPay (lateView ["a", "b"] 60000000) coin 2 := by decide +kernel
  have hrun : Transcript (twoInputs.buildPayoutSparingCollateral ⟨"faucet", "Xfaucet"⟩
      (lateView ["a", "b"] 60000000) "alice" coin false) []
      (.error (.unconfirmedFunds 0 100000227)) := ⟨rfl, rfl⟩
  refine ⟨hfew, ?_⟩
  exact (unconfirmed_fixed_iff smallTx_faithful smallTx_capable (by decide) hrun _).1.mpr hfew

/-- A public payout to alice. -/
def latePayout : PayoutRequest := { address := "alice", pubKeyHash := "alice", ip := "192.0.2.1" }

/-- **Three coins that pay together are too many for two inputs.** The payout is told to come back
in a minute, and after the block that confirms its coins it is refused without any hope. -/
theorem unconfirmed_not_fixed :
    (¬∀ (f : Faucet) (key : FaucetKey) (utxos : List Utxo) (recipient : String) (satoshis : ℕ)
      (forCollateral : Bool) (es : List Answered) (available required : ℕ)
      (height : Utxo → JsNumber),
      f.dash.Faithful → f.dash.Capable → recipient ≠ key.pubKeyHash →
      Transcript (f.buildPayoutSparingCollateral key utxos recipient satoshis forCollateral) es
        (.error (.unconfirmedFunds available required)) →
      ∀ es r, Transcript (f.buildPayoutSparingCollateral key (confirmed height utxos) recipient
        satoshis forCollateral) es r → ∃ built, r = .ok built) ∧
    (twoInputs.treasury.exec ⟨0, .initial 0, none⟩
      (.begin (.payout latePayout) 1000 :: List.replicate 6 (.resume (mintWorld
          (lateView ["a", "b", "c"] 40000000) (.error "unavailable") (.ok "sent"))) ++
        .begin (.payout latePayout) 61000 :: List.replicate 3 (.resume (mintWorld
          (confirmed (fun _ => 1) (lateView ["a", "b", "c"] 40000000)) (.error "unavailable")
            (.ok "sent"))))).map (fun c => c.store.past.map fun p => p.2.toOption) =
      some [some (.payout (.fragmented
          "100000227 duffs needed; only 0 are confirmed, the rest is still confirming" (some 60))),
        some (.payout (.fragmented
          "payout needs 3 inputs; at most 2 are allowed per payout" none))] := by
  constructor
  · intro hclaim
    have hrun : Transcript (twoInputs.buildPayoutSparingCollateral ⟨"faucet", "Xfaucet"⟩
        (lateView ["a", "b", "c"] 40000000) "alice" coin false) []
        (.error (.unconfirmedFunds 0 100000227)) := ⟨rfl, rfl⟩
    have hlater : Transcript (twoInputs.buildPayoutSparingCollateral ⟨"faucet", "Xfaucet"⟩
        (confirmed (fun _ => 1) (lateView ["a", "b", "c"] 40000000)) "alice" coin false) []
        (.error (.tooFragmented 3 2)) := ⟨rfl, rfl⟩
    obtain ⟨built, hbuilt⟩ := hclaim twoInputs _ _ _ _ _ _ _ _ (fun _ => 1) smallTx_faithful
      smallTx_capable (by decide) hrun _ _ hlater
    cases hbuilt
  · decide +kernel

end Faucet

end DashFaucet

import DashFaucet.Selection
import DashFaucet.Treasury.Runs

/-!
# Which coins a payout spends

A payout is built from what `selectInputs` selects, if a transaction may spend that many coins. So
its errors say which selections there are (`selectInputs_optimal`), and an ordinary payout leaves
the coins of collateral size alone unless no selection of the others pays
(`collateral_spared`).
-/

namespace DashFaucet

open Async List

namespace DashTx

variable {d : DashTx} {key : FaucetKey} {utxos S : List Utxo} {recipient : String}
  {satoshis maxInputs : ℕ} {r : Except Thrown BuiltTx}

/-! ### What the errors of a payout say -/

/-- **Too fragmented**: there are selections that pay, all of more coins than allowed. -/
theorem PayoutBuilds.tooFragmented_iff (h : d.PayoutBuilds key utxos recipient satoshis maxInputs r)
    (hother : recipient ≠ key.pubKeyHash) :
    (∃ inputs, r = .error (.tooFragmented inputs maxInputs)) ↔
      (∃ S, d.Admissible utxos satoshis 2 0 S) ∧
        ∀ S, d.Admissible utxos satoshis 2 0 S → maxInputs < S.length := by
  have hsel := d.selectInputs_selects utxos satoshis 2 0
  cases h with
  | selfPay hself => exact absurd hself hother
  | unselected _ herr =>
    -- the error is about the coins themselves, and there is no selection
    rw [herr] at hsel
    constructor
    · rintro ⟨inputs, heq⟩
      cases heq
      cases hsel
    · rintro ⟨⟨S, hS⟩, -⟩
      cases hsel with
      | unconfirmed hnone => exact absurd hS (hnone S)
      | insufficient hnone => exact absurd hS.covers (hnone S hS.picked hS.ne_nil)
  | @fragmented selected _ hok hmany =>
    rw [hok] at hsel
    refine iff_of_true ⟨_, rfl⟩ ?_
    cases hsel with
    | single h => exact ⟨⟨_, h⟩, fun S hS =>
      lt_of_lt_of_le hmany (List.length_pos_iff.mpr hS.ne_nil)⟩
    | several _ h hleast => exact ⟨⟨_, h⟩, fun S hS => lt_of_lt_of_le hmany (hleast S hS)⟩
  | refused _ hok hfew | built _ hok hfew =>
    rw [hok] at hsel
    refine iff_of_false (fun ⟨_, heq⟩ => by cases heq) ?_
    rintro ⟨-, hmany⟩
    cases hsel with
    | single h => exact absurd (hmany _ h) (not_lt.mpr hfew)
    | several _ h _ => exact absurd (hmany _ h) (not_lt.mpr hfew)

/-- A payout fails for want of coins only when every selection that pays has too many. -/
theorem PayoutBuilds.shortage {e : Thrown}
    (h : d.PayoutBuilds key utxos recipient satoshis maxInputs (.error e))
    (hshort : Faucet.isShortage e = true) :
    ∀ S, d.Admissible utxos satoshis 2 0 S → maxInputs < S.length := by
  intro S hS
  have hsel := d.selectInputs_selects utxos satoshis 2 0
  have hfragmented := h.tooFragmented_iff
  cases h with
  | selfPay => cases hshort
  | unselected _ herr =>
    rw [herr] at hsel
    cases hsel with
    | unconfirmed hnone => exact absurd hS (hnone S)
    | insufficient hnone => exact absurd hS.covers (hnone S hS.picked hS.ne_nil)
  | fragmented hother => exact ((hfragmented hother).mp ⟨_, rfl⟩).2 S hS
  | refused => cases hshort

/-- With a selection that pays and is small enough, only the library or the final check fails. -/
theorem PayoutBuilds.of_admissible (h : d.PayoutBuilds key utxos recipient satoshis maxInputs r)
    (hother : recipient ≠ key.pubKeyHash) (hS : d.Admissible utxos satoshis 2 0 S)
    (hfew : S.length ≤ maxInputs) {e : Thrown} (he : r = .error e) :
    ∃ message, e = .error message := by
  subst he
  have hnot : ¬Faucet.isShortage e = true := fun hshort =>
    absurd (h.shortage hshort S hS) (not_lt.mpr hfew)
  cases h with
  | selfPay hself => exact absurd hself hother
  | unselected _ herr =>
    have hsel := d.selectInputs_selects utxos satoshis 2 0
    rw [herr] at hsel
    cases hsel <;> exact absurd rfl hnot
  | fragmented => exact absurd rfl hnot
  | refused => exact ⟨_, rfl⟩

/-- A built payout spends a selection that pays. -/
theorem PayoutBuilds.selected {built : BuiltTx}
    (h : d.PayoutBuilds key utxos recipient satoshis maxInputs (.ok built)) :
    ∃ selected, d.Admissible utxos satoshis 2 0 selected ∧ selected.length ≤ maxInputs ∧
      (d.Faithful → built.inputs ~ selected.map Utxo.outpoint) := by
  cases h with
  | @built selected draft e signed hother hok hfew hdraft hsigned =>
    have hsel := d.selectInputs_selects utxos satoshis 2 0
    rw [hok] at hsel
    refine ⟨selected, ?_, hfew, fun hd => ?_⟩
    · cases hsel with
      | single h => exact h
      | several _ h _ => exact h
    · have hin : signed.inputs ~ selected.map toTxInput := by
        rw [hd.finalize_inputs hsigned, ← hd.draft_inputs hdraft]
        exact sortBy_perm _ _
      have hmap := hin.map fun i : TxInput => (⟨i.txid, i.outputIndex⟩ : Outpoint)
      rw [List.map_map] at hmap
      exact hmap

/-! ### Selection, and its errors -/

/-- **`selectInputs` is sound, minimal and complete.** It returns an admissible selection exactly
when there is one: a smallest coin that pays alone if any does, otherwise one of the fewest coins.
Without one it tells whether coins still confirming would pay. A payout to anybody but the faucet
is too fragmented exactly when there are admissible selections, all of too many coins. -/
theorem selectInputs_optimal (d : DashTx) (utxos : List Utxo) (target outputs payload : ℕ) :
    ((∃ R, d.selectInputs utxos target outputs payload = .ok R) ↔
      ∃ S, d.Admissible utxos target outputs payload S) ∧
    (∀ R, d.selectInputs utxos target outputs payload = .ok R →
      d.Admissible utxos target outputs payload R ∧
      ((∃ u ∈ utxos, d.Covers target outputs payload [u]) → ∃ u, R = [u] ∧
        ∀ v ∈ utxos, d.Covers target outputs payload [v] → u.satoshis ≤ v.satoshis) ∧
      ((∀ u ∈ utxos, ¬d.Covers target outputs payload [u]) →
        ∀ S, d.Admissible utxos target outputs payload S → R.length ≤ S.length)) ∧
    ((∃ confirmed required, d.selectInputs utxos target outputs payload =
        .error (.unconfirmedFunds confirmed required)) ↔
      (∀ S, ¬d.Admissible utxos target outputs payload S) ∧
        ∃ S, S <+~ utxos ∧ S ≠ [] ∧ d.Covers target outputs payload S) ∧
    ((∃ available required, d.selectInputs utxos target outputs payload =
        .error (.insufficientFunds available required)) ↔
      ∀ S, S <+~ utxos → S ≠ [] → ¬d.Covers target outputs payload S) ∧
    ∀ {σ : Type} {key : FaucetKey} {recipient : String} {maxInputs : ℕ} {es : List Answered}
      {r : Except Thrown BuiltTx}, recipient ≠ key.pubKeyHash →
      Transcript (d.buildPayout key utxos recipient target maxInputs : Net σ _) es r →
      ((∃ inputs, r = .error (.tooFragmented inputs maxInputs)) ↔
        (∃ S, d.Admissible utxos target 2 0 S) ∧
          ∀ S, d.Admissible utxos target 2 0 S → maxInputs < S.length) := by
  -- each part is read off the four ways a selection can end
  have hsel := d.selectInputs_selects utxos target outputs payload
  generalize d.selectInputs utxos target outputs payload = result at hsel
  refine ⟨?_, ?_, ?_, ?_, fun hother h => (buildPayout_builds h).tooFragmented_iff hother⟩
  · cases hsel with
    | single h | several _ h _ => exact iff_of_true ⟨_, rfl⟩ ⟨_, h⟩
    | unconfirmed hnone => exact iff_of_false (fun ⟨_, h⟩ => by cases h) fun ⟨S, hS⟩ => hnone S hS
    | insufficient hnone =>
      exact iff_of_false (fun ⟨_, h⟩ => by cases h) fun ⟨S, hS⟩ =>
        hnone S hS.picked hS.ne_nil hS.covers
  · rintro R rfl
    cases hsel with
    | @single u h hleast =>
      exact ⟨h, fun _ => ⟨u, rfl, hleast⟩, fun hnone =>
        absurd h.covers (hnone u (admissible_singleton.mp h).1)⟩
    | several hnone h hleast =>
      exact ⟨h, fun ⟨u, hu, hcovers⟩ => absurd hcovers (hnone u hu), fun _ => hleast⟩
  · cases hsel with
    | single h | several _ h _ =>
      exact iff_of_false (fun ⟨_, _, h⟩ => by cases h) fun ⟨hnone, _⟩ => hnone _ h
    | unconfirmed hnone hS hne hcovers =>
      exact iff_of_true ⟨_, _, rfl⟩ ⟨hnone, _, hS, hne, hcovers⟩
    | insufficient hnone =>
      exact iff_of_false (fun ⟨_, _, h⟩ => by cases h) fun ⟨_, S, hS, hne, hcovers⟩ =>
        hnone S hS hne hcovers
  · cases hsel with
    | single h | several _ h _ =>
      exact iff_of_false (fun ⟨_, _, h⟩ => by cases h) fun hnone =>
        hnone _ h.picked h.ne_nil h.covers
    | unconfirmed _ hS hne hcovers =>
      exact iff_of_false (fun ⟨_, _, h⟩ => by cases h) fun hnone => hnone _ hS hne hcovers
    | insufficient hnone => exact iff_of_true ⟨_, _, rfl⟩ hnone

/-- Two confirmed coins, each of which falls short of one and a half. -/
def twoCoins : List Utxo :=
  [⟨"a", 0, coin, "faucet", some 1⟩, ⟨"b", 0, coin, "faucet", some 1⟩]

theorem twoCoins_admissible :
    (∃ S, Faucet.smallTx.Admissible twoCoins (3 * coin / 2) 2 0 S) ∧
      ∀ S, Faucet.smallTx.Admissible twoCoins (3 * coin / 2) 2 0 S → 1 < S.length := by
  refine ⟨⟨twoCoins, List.Subperm.refl _, by decide, .inr ⟨by decide, by decide⟩⟩, fun S hS => ?_⟩
  rcases hS.shape with hlen | ⟨hlen, -⟩
  · -- neither coin pays alone
    obtain ⟨u, rfl⟩ := List.length_eq_one_iff.mp hlen
    obtain ⟨hu, hcovers⟩ := admissible_singleton.mp hS
    have hnone : ∀ u ∈ twoCoins, ¬Faucet.smallTx.Covers (3 * coin / 2) 2 0 [u] := by decide
    exact absurd hcovers (hnone u hu)
  · exact hlen

theorem selectInputs_optimal_two :
    Transcript (Faucet.smallTx.buildPayout ⟨"faucet", "Xfaucet"⟩ twoCoins "alice" (3 * coin / 2) 1 :
        Net Unit _) [] (.error (.tooFragmented 2 1)) ∧
      ∃ inputs, (.error (.tooFragmented 2 1) : Except Thrown BuiltTx) =
        .error (.tooFragmented inputs 1) := by
  have hrun : Transcript (Faucet.smallTx.buildPayout ⟨"faucet", "Xfaucet"⟩ twoCoins "alice"
      (3 * coin / 2) 1 : Net Unit _) [] (.error (.tooFragmented 2 1)) := ⟨rfl, rfl⟩
  obtain ⟨-, -, -, -, hpayout⟩ := selectInputs_optimal Faucet.smallTx twoCoins (3 * coin / 2) 2 0
  exact ⟨hrun, (hpayout (by decide) hrun).mpr twoCoins_admissible⟩

/-- A payout to the faucet itself is refused as such, however fragmented its coins are. -/
theorem selfPay_first : ¬∀ (d : DashTx) (key : FaucetKey) (utxos : List Utxo) (recipient : String)
    (satoshis maxInputs : ℕ) (es : List Answered) (r : Except Thrown BuiltTx),
    Transcript (d.buildPayout key utxos recipient satoshis maxInputs : Net Unit _) es r →
    ((∃ inputs, r = .error (.tooFragmented inputs maxInputs)) ↔
      (∃ S, d.Admissible utxos satoshis 2 0 S) ∧
        ∀ S, d.Admissible utxos satoshis 2 0 S → maxInputs < S.length) := by
  intro hclaim
  have hrun : Transcript (Faucet.smallTx.buildPayout ⟨"faucet", "Xfaucet"⟩ twoCoins "faucet"
      (3 * coin / 2) 1 : Net Unit _) [] (.error .selfPay) := ⟨rfl, rfl⟩
  obtain ⟨inputs, heq⟩ := (hclaim _ _ _ _ _ _ _ _ hrun).mpr twoCoins_admissible
  cases heq

end DashTx

namespace Faucet

open DashTx

variable {f : Faucet} {key : FaucetKey} {utxos S : List Utxo} {recipient : String} {satoshis : ℕ}
  {es : List Answered} {r : Except Thrown BuiltTx}

/-! ### Sparing collateral coins -/

/-- Coins of the view a payout of this deployment may be built from: one coin, or at most
`maxPayoutInputs` confirmed ones, that cover the amount and the ceiling fee. -/
def Pays (f : Faucet) (utxos : List Utxo) (satoshis : ℕ) (S : List Utxo) : Prop :=
  f.dash.Admissible utxos satoshis 2 0 S ∧ (S.length = 1 ∨ S.length ≤ f.cfg.maxPayoutInputs)

theorem Pays.length_le (h : f.Pays utxos satoshis S) (hmax : 1 ≤ f.cfg.maxPayoutInputs) :
    S.length ≤ f.cfg.maxPayoutInputs := by
  rcases h.2 with hlen | hlen
  · omega
  · exact hlen

/-- **Ordinary payouts spare collateral coins.** One that is not an `mn` key's spends a coin of
collateral size only if no coin below it pays and no set of at most `maxPayoutInputs` confirmed
ones; and when some coins of the whole view pay somebody else, nothing but the library or the
final check refuses. -/
theorem collateral_spared (hcollateral : 0 < f.cfg.collateralCoins)
    (hmax : 1 ≤ f.cfg.maxPayoutInputs) {payer : Payer} (hpayer : payer.isMn = false)
    (h : Transcript (f.buildPayoutSparingCollateral key utxos recipient satoshis payer.isMn) es r) :
    (∀ built, r = .ok built → ∃ selected, selected <+~ utxos ∧
      (f.dash.Faithful → built.inputs ~ selected.map Utxo.outpoint) ∧
      ((∃ u ∈ selected, collateralCoinSats ≤ u.satoshis) →
        ∀ S, ¬f.Pays (belowCollateral utxos) satoshis S)) ∧
    (recipient ≠ key.pubKeyHash → (∃ S, f.Pays utxos satoshis S) →
      ∀ e, r = .error e → ∃ message, e = .error message) := by
  rw [hpayer] at h
  have hsub : belowCollateral utxos <+~ utxos := List.filter_sublist.subperm
  rcases sparing_cases h with ⟨⟨es', hbuild⟩, hwhy⟩ | ⟨⟨es', hbuild⟩, hlong⟩
  · have hbuild := buildPayout_builds hbuild
    constructor
    · rintro built rfl
      obtain ⟨selected, hadm, -, hin⟩ := hbuild.selected
      refine ⟨selected, hadm.picked, hin, ?_⟩
      rintro ⟨u, hu, hlarge⟩ S hS
      rcases hwhy with hany | hself | ⟨e, es'', hshort, hfailed⟩
      · simp only [Bool.false_or, decide_eq_true_eq] at hany
        omega
      · have hmem : u ∈ belowCollateral utxos := hself.symm ▸ hadm.picked.subset hu
        exact absurd (of_decide_eq_true (List.mem_filter.mp hmem).2) (not_lt.mpr hlarge)
      · exact absurd ((buildPayout_builds hfailed).shortage hshort S hS.1)
          (not_lt.mpr (hS.length_le hmax))
    · rintro hother ⟨S, hS⟩ e he
      exact hbuild.of_admissible hother hS.1 (hS.length_le hmax) he
  · have hbuild := buildPayout_builds hbuild
    constructor
    · rintro built rfl
      obtain ⟨selected, hadm, -, hin⟩ := hbuild.selected
      refine ⟨selected, hadm.picked.trans hsub, hin, ?_⟩
      rintro ⟨u, hu, hlarge⟩
      have hsmall := of_decide_eq_true (List.mem_filter.mp (hadm.picked.subset hu)).2
      exact absurd hsmall (not_lt.mpr hlarge)
    · rintro hother ⟨S, hS⟩ e rfl
      -- the error is none about the coins, and the recipient is somebody else
      have hshort := hlong e rfl
      cases hbuild with
      | selfPay hself => exact absurd hself hother
      | unselected _ herr =>
        have hsel := f.dash.selectInputs_selects (belowCollateral utxos) satoshis 2 0
        rw [herr] at hsel
        cases hsel <;> cases hshort
      | fragmented => cases hshort
      | refused => exact ⟨_, rfl⟩

/-- The small deployment, keeping one collateral coin. -/
def keeping : Faucet := { small with cfg := { small.cfg with collateralCoins := 1 } }

/-- A collateral coin and a small one. -/
def collateralView : List Utxo :=
  [⟨"big", 0, 2000 * coin, "faucet", some 1⟩, ⟨"a", 0, coin, "faucet", some 1⟩]

theorem collateral_spared_keeping :
    ∃ built, Transcript (keeping.buildPayoutSparingCollateral ⟨"faucet", "Xfaucet"⟩ collateralView
        "alice" (5 * coin) Payer.anyone.isMn) [⟨Query.entropy, (0 : ℕ)⟩] (.ok built) ∧
      built.inputs = [⟨"big", 0⟩] ∧
      ∀ S, ¬keeping.Pays (belowCollateral collateralView) (5 * coin) S := by
  have hrun : Transcript (keeping.buildPayoutSparingCollateral ⟨"faucet", "Xfaucet"⟩ collateralView
      "alice" (5 * coin) Payer.anyone.isMn) [⟨Query.entropy, (0 : ℕ)⟩]
      (.ok ⟨"big", "id of big", [⟨"big", 0⟩], [⟨"id of big", 1, 1995 * coin - 227⟩], 227,
        2000 * coin⟩) :=
    ⟨(0 : ℕ), [], rfl, rfl, by decide +kernel⟩
  obtain ⟨hspent, -⟩ := collateral_spared (by decide) (by decide) rfl hrun
  obtain ⟨selected, hsub, hin, hspare⟩ := hspent _ rfl
  refine ⟨_, hrun, rfl, hspare ?_⟩
  -- the one input is the collateral coin
  have hmem : (⟨"big", 0⟩ : Outpoint) ∈ selected.map Utxo.outpoint :=
    (hin smallTx_faithful).subset (List.mem_singleton_self _)
  obtain ⟨u, hu, heq⟩ := List.mem_map.mp hmem
  have hlarge : ∀ u ∈ collateralView, u.outpoint = ⟨"big", 0⟩ →
      collateralCoinSats ≤ u.satoshis := by
    decide
  exact ⟨u, hu, hlarge u (hsub.subset hu) heq⟩

end Faucet

end DashFaucet

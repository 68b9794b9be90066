import DashFaucet.Treasury.MergeReach

/-!
# Refilling the pool

When the pool has run low a coin is split, and a kept collateral coin should be the last choice: a
merge that waits for its coins to confirm would make another coin to split. `refill` passes over a
merge that is held up (`Faucet.HeldUp`) and takes the largest coin there is. So a kept coin is split
early exactly where no smaller coin funds two pool coins and the merge toward one that would is held
up (`Faucet.SplitsEarly`, `refill_spares_collateral_iff`).

* `Faucet.planMerge_waiting_iff`: when a merge is held up.
* `Faucet.tendBy`: maintenance once it has the view, with the split as a parameter. The coin it
  splits is the one it hands to that parameter, whatever this does (`Faucet.Splits`).
-/

namespace DashFaucet

open Async List

namespace Faucet

variable {f : Faucet} {view : UtxoSnapshot} {goal : ℕ}

/-! ### Merges that are held up -/

/-- The coins a merge toward `goal` may spend now. -/
def confirmedMaterial (f : Faucet) (view : UtxoSnapshot) (goal : ℕ) : List Utxo :=
  (f.cfg.mergeMaterial view.utxos goal).filter fun u => u.height.isSome

/-- A merge toward `goal` has to wait: the coins for it are worth the goal, but some of them still
have to confirm, and the others are too few to fill a transaction and do not reach it. -/
structure HeldUp (f : Faucet) (view : UtxoSnapshot) (goal : ℕ) : Prop where
  worth : goal ≤ sumSats (f.cfg.mergeMaterial view.utxos goal)
  pending : ∃ u ∈ f.cfg.mergeMaterial view.utxos goal, u.height = none
  short : f.cfg.maxPayoutInputs < 2 ∨
    (f.confirmedMaterial view goal).length ≤ f.cfg.maxPayoutInputs ∧
      sumSats (f.confirmedMaterial view goal) <
        goal + f.dash.feeCeiling (f.confirmedMaterial view goal).length 1

instance : Decidable (f.HeldUp view goal) :=
  decidable_of_iff (goal ≤ sumSats (f.cfg.mergeMaterial view.utxos goal) ∧
    (∃ u ∈ f.cfg.mergeMaterial view.utxos goal, u.height = none) ∧
    (f.cfg.maxPayoutInputs < 2 ∨
      (f.confirmedMaterial view goal).length ≤ f.cfg.maxPayoutInputs ∧
        sumSats (f.confirmedMaterial view goal) <
          goal + f.dash.feeCeiling (f.confirmedMaterial view goal).length 1))
    ⟨fun ⟨h₁, h₂, h₃⟩ => ⟨h₁, h₂, h₃⟩, fun h => ⟨h.worth, h.pending, h.short⟩⟩

/-- One coin below the goal never reaches it. -/
theorem not_reaches_of_small {coins : List Utxo} (hgoal : 0 < goal)
    (hbelow : ∀ u ∈ coins, u.satoshis < goal) {maxInputs : ℕ} (hmax : maxInputs < 2) :
    (f.dash.selectMergeInputs coins goal maxInputs).2 = false := by
  rw [← Bool.not_eq_true, DashTx.selectMergeInputs_reaches]
  rintro ⟨S, hS, hlen, hcovers⟩
  have hfew : S.length < 2 := by omega
  match S, hS, hfew, hcovers with
  | [], _, _, hcovers =>
    have hzero : goal + f.dash.feeCeiling (min maxInputs coins.length) 1 ≤ 0 := hcovers
    omega
  | [u], hS, _, hcovers =>
    have hu := hbelow u (hS.subset (List.mem_singleton_self u))
    have hone : goal + f.dash.feeCeiling (min maxInputs coins.length) 1 ≤ u.satoshis + 0 := hcovers
    omega

/-- A merge of confirmed coins is stuck when it falls short with all of them in, or when a
transaction takes fewer than two. -/
theorem stuck_iff {coins : List Utxo} (hgoal : 0 < goal)
    (hbelow : ∀ u ∈ coins, u.satoshis < goal) {maxInputs : ℕ} :
    (!(f.dash.selectMergeInputs coins goal maxInputs).2 &&
      (decide ((f.dash.selectMergeInputs coins goal maxInputs).1.length < 2) ||
        decide ((f.dash.selectMergeInputs coins goal maxInputs).1.length = coins.length))) = true ↔
      maxInputs < 2 ∨ coins.length ≤ maxInputs ∧
        sumSats coins < goal + f.dash.feeCeiling coins.length 1 := by
  rw [DashTx.length_selectMergeInputs, Bool.and_eq_true, Bool.not_eq_true', Bool.or_eq_true,
    decide_eq_true_eq, decide_eq_true_eq]
  by_cases hmax : maxInputs < 2
  · refine iff_of_true ⟨not_reaches_of_small hgoal hbelow hmax, ?_⟩ (.inl hmax)
    exact .inl (by omega)
  rw [or_iff_right hmax]
  by_cases hfits : coins.length ≤ maxInputs
  · rw [← Bool.not_eq_true, DashTx.selectMergeInputs_reaches_all hfits, not_le, and_iff_right hfits,
      min_eq_right hfits]
    exact and_iff_left (.inr rfl)
  · -- a full transaction is merged even when it falls short
    refine iff_of_false ?_ fun h => hfits h.1
    rintro ⟨-, hfew | hall⟩ <;> omega

/-- Some coins still have to confirm, unless all have. -/
theorem pending_iff {coins : List Utxo} :
    coins.length - (coins.filter fun u => u.height.isSome).length = 0 ↔
      ¬∃ u ∈ coins, u.height = none := by
  rw [Nat.sub_eq_zero_iff_le, not_exists]
  constructor
  · intro hle u ⟨hu, hnone⟩
    have hself := List.filter_sublist.eq_of_length_le hle
    have hsome := List.filter_eq_self.mp hself u hu
    rw [hnone] at hsome
    cases hsome
  · intro hall
    rw [List.filter_eq_self.mpr fun u hu => Option.isSome_iff_ne_none.mpr fun h => hall u ⟨hu, h⟩]

/-- **When a merge waits.** -/
theorem planMerge_waiting_iff :
    (∃ detail, f.planMerge view goal = .waiting detail) ↔ f.HeldUp view goal := by
  have hbelow : ∀ u ∈ f.cfg.mergeMaterial view.utxos goal, u.satoshis < goal :=
    fun u hu => (FaucetConfig.mem_material.mp (FaucetConfig.mergeMaterial_subset hu)).1.2
  have hstuck : 0 < goal → (_ ↔ _) := fun hgoal =>
    @stuck_iff f goal (f.confirmedMaterial view goal) hgoal
      (fun u hu => hbelow u (List.mem_of_mem_filter hu)) f.cfg.maxPayoutInputs
  by_cases hless : sumSats (f.cfg.mergeMaterial view.utxos goal) < goal
  · refine iff_of_false ?_ fun h => absurd h.worth (not_le.mpr hless)
    rintro ⟨detail, heq⟩
    rw [planMerge, if_pos hless] at heq
    cases heq
  unfold planMerge
  dsimp only
  rw [if_neg hless]
  split
  · next hgone =>
    -- nothing is left to confirm
    rw [Bool.and_eq_true, decide_eq_true_eq, pending_iff] at hgone
    refine iff_of_false ?_ fun h => hgone.2 h.pending
    rintro ⟨detail, heq⟩
    cases heq
  · next hmore =>
    split
    · next hwaits =>
      rw [hwaits, Bool.true_and, decide_eq_true_eq, pending_iff, not_not] at hmore
      obtain ⟨v, hv, -⟩ := id hmore
      have hgoal : 0 < goal := Nat.zero_lt_of_lt (hbelow v hv)
      exact iff_of_true ⟨_, rfl⟩ ⟨not_lt.mp hless, hmore, (hstuck hgoal).mp hwaits⟩
    · next hgoes =>
      refine iff_of_false ?_ fun h => ?_
      · rintro ⟨detail, heq⟩
        cases heq
      · obtain ⟨v, hv, -⟩ := h.pending
        exact hgoes ((hstuck (Nat.zero_lt_of_lt (hbelow v hv))).mpr h.short)

/-! ### What maintenance splits -/

/-- What a merged coin has to be worth to fund two pool coins:
`Math.ceil(2 * poolUtxoSats / 0.99)`. -/
def refillGoal (f : Faucet) : ℕ := (200 * f.cfg.poolUtxoSats + 98) / 99

/-- The coin a refill splits unless it merges: the largest that is not kept and funds two pool
coins, or the largest of all. -/
def splitCandidate (f : Faucet) (view : UtxoSnapshot) : Option Utxo :=
  ((descendingSats view.utxos).find? fun u => !f.isKept u && f.fundsTwo u).or
    (descendingSats view.utxos).head?

/-- What a refill would merge. -/
def refillPlan (f : Faucet) (view : UtxoSnapshot) : MergePlan :=
  if ((descendingSats view.utxos).find? fun u => !f.isKept u && f.fundsTwo u).isNone &&
      f.merging then
    f.planMerge view f.refillGoal
  else .none ""

/-- `maintainLocked` once it has the view, with a coin split by `splitCoin`. -/
def tendBy (f : Faucet) (splitCoin : ℕ → Utxo → Prog MaintenanceResult) (key : FaucetKey)
    (view : UtxoSnapshot) (now : ℤ) : Prog MaintenanceResult :=
  if (f.poolCoins view).length ≥ f.cfg.poolMin then
    f.consolidate key view (f.poolCoins view).length now
  else
    match f.refillPlan view with
    | .merge inputs reaches => f.merge key inputs reaches now
    -- nothing to merge now, if only for want of confirmed coins
    | _ =>
      match f.splitCandidate view with
      | none => pure ⟨.blocked, "no spendable coins", none⟩
      | some biggest => splitCoin (f.poolCoins view).length biggest

theorem maintainLocked_eq_tendBy (now : ℤ) : f.maintainLocked now = (do
    modify (State.prune f.cfg now)
    let key ← f.key
    match ← attempt (f.spendableUtxos key now) with
    | .error e => pure ⟨.blocked, describeError e, none⟩
    | .ok view => f.tendBy (fun poolCount u => f.split key u poolCount now) key view now) := rfl

/-- Maintenance splits `u` of the view into two pool coins or more: whatever is done to split a
coin, maintenance comes down to doing it to `u`. -/
def Splits (f : Faucet) (key : FaucetKey) (view : UtxoSnapshot) (now : ℤ) (u : Utxo) : Prop :=
  2 ≤ f.splitCount ((f.cfg.poolTarget : ℤ) - (f.poolCoins view).length) u.satoshis ∧
    ∀ splitCoin : ℕ → Utxo → Prog MaintenanceResult,
      f.tendBy splitCoin key view now = splitCoin (f.poolCoins view).length u

variable {key : FaucetKey} {now : ℤ} {u v : Utxo} {n : ℕ}

/-- What is done whatever splitting does is no split. -/
theorem not_handed {p : Prog MaintenanceResult} :
    ¬∀ splitCoin : ℕ → Utxo → Prog MaintenanceResult, p = splitCoin n u := by
  intro h
  have heq := (h fun _ _ => pure ⟨.none, "", none⟩).symm.trans
    (h fun _ _ => pure ⟨.split, "", none⟩)
  cases heq

/-- The coin that is handed over is determined. -/
theorem eq_of_handed (h : ∀ splitCoin : ℕ → Utxo → Prog MaintenanceResult,
    splitCoin n v = splitCoin n u) : v = u := by
  by_contra hne
  have heq := h fun _ w => if w = u then pure ⟨.none, "", none⟩ else pure ⟨.split, "", none⟩
  rw [if_neg hne, if_pos rfl] at heq
  cases heq

/-- A low pool with nothing to merge toward it. -/
theorem tendBy_of_low {splitCoin : ℕ → Utxo → Prog MaintenanceResult}
    (hlow : (f.poolCoins view).length < f.cfg.poolMin)
    (hplan : ∀ inputs reaches, f.refillPlan view ≠ .merge inputs reaches) :
    f.tendBy splitCoin key view now =
      match f.splitCandidate view with
      | none => pure ⟨.blocked, "no spendable coins", none⟩
      | some biggest => splitCoin (f.poolCoins view).length biggest := by
  rw [tendBy, if_neg (not_le.mpr hlow)]
  cases h : f.refillPlan view with
  | merge inputs reaches => exact absurd h (hplan inputs reaches)
  | none detail => rfl
  | waiting detail => rfl

/-- **Which coin is split**: the candidate, when the pool is low, nothing is merged instead and the
coin funds two pool coins that are wanted. -/
theorem splits_iff : f.Splits key view now u ↔
    (f.poolCoins view).length < f.cfg.poolMin ∧
      (∀ inputs reaches, f.refillPlan view ≠ .merge inputs reaches) ∧
      f.splitCandidate view = some u ∧
      2 ≤ f.splitCount ((f.cfg.poolTarget : ℤ) - (f.poolCoins view).length) u.satoshis := by
  constructor
  · rintro ⟨hcount, hhanded⟩
    -- every other branch does the same whatever splitting does
    by_cases hfull : (f.poolCoins view).length ≥ f.cfg.poolMin
    · simp only [tendBy, if_pos hfull] at hhanded
      exact absurd hhanded not_handed
    have hlow := not_le.mp hfull
    by_cases hplan : ∃ inputs reaches, f.refillPlan view = .merge inputs reaches
    · obtain ⟨inputs, reaches, hplan⟩ := hplan
      simp only [tendBy, if_neg hfull, hplan] at hhanded
      exact absurd hhanded not_handed
    have hplan : ∀ inputs reaches, f.refillPlan view ≠ .merge inputs reaches :=
      fun inputs reaches h => hplan ⟨inputs, reaches, h⟩
    simp only [tendBy_of_low hlow hplan] at hhanded
    refine ⟨hlow, hplan, ?_, hcount⟩
    cases hcand : f.splitCandidate view with
    | none =>
      simp only [hcand] at hhanded
      exact absurd hhanded not_handed
    | some w =>
      simp only [hcand] at hhanded
      rw [eq_of_handed hhanded]
  · rintro ⟨hlow, hplan, hcand, hcount⟩
    refine ⟨hcount, fun splitCoin => ?_⟩
    rw [tendBy_of_low hlow hplan, hcand]

/-- A merge is no split. -/
theorem merge_yields {inputs : List Utxo} {reaches : Bool} :
    (f.merge key inputs reaches now).Yields fun result => result.action ≠ .split := by
  unfold merge
  split
  · exact fun h => by cases h
  · refine Yields.bind (fun built => ?_) _
    cases built with
    | error e => exact fun h => by cases h
    | ok built =>
      refine Yields.bind (fun _ => Yields.bind (fun settled => ?_) _) _
      cases settled with
      | failed => exact fun h => by cases h
      | ok _ =>
        refine Yields.bind (fun _ => ?_) _
        exact fun h => by cases h

/-- With a pool that is not low, nothing is split. -/
theorem consolidate_yields {poolCount : ℕ} :
    (f.consolidate key view poolCount now).Yields fun result => result.action ≠ .split := by
  unfold consolidate
  refine Yields.bind (fun demand => Yields.bind (fun plan => ?_) _) _
  dsimp only
  split
  · exact merge_yields
  · exact fun h => by cases h
  · exact fun h => by cases h

/-- A split makes two coins or more. -/
theorem split_yields {poolCount : ℕ} :
    (f.split key u poolCount now).Yields fun result => result.action = .split →
      2 ≤ f.splitCount ((f.cfg.poolTarget : ℤ) - poolCount) u.satoshis := by
  unfold split
  dsimp only
  by_cases hcount : f.splitCount ((f.cfg.poolTarget : ℤ) - poolCount) u.satoshis < 2
  · rw [if_pos hcount]
    exact fun h => by cases h
  · rw [if_neg hcount]
    exact Yields.of_forall (fun _ _ => not_lt.mp hcount) _

/-- Maintenance reports a split only of a coin it splits. -/
theorem tend_yields :
    (f.tendBy (fun poolCount u => f.split key u poolCount now) key view now).Yields fun result =>
      result.action = .split → ∃ u, f.Splits key view now u := by
  by_cases hfull : (f.poolCoins view).length ≥ f.cfg.poolMin
  · rw [tendBy, if_pos hfull]
    exact consolidate_yields.mono fun _ hno h => absurd h hno
  have hlow := not_le.mp hfull
  by_cases hplan : ∃ inputs reaches, f.refillPlan view = .merge inputs reaches
  · obtain ⟨inputs, reaches, hplan⟩ := hplan
    rw [tendBy, if_neg hfull, hplan]
    exact merge_yields.mono fun _ hno h => absurd h hno
  have hplan : ∀ inputs reaches, f.refillPlan view ≠ .merge inputs reaches :=
    fun inputs reaches h => hplan ⟨inputs, reaches, h⟩
  rw [tendBy_of_low hlow hplan]
  cases hcand : f.splitCandidate view with
  | none => exact fun h => by cases h
  | some u => exact split_yields.mono fun _ hcount h =>
      ⟨u, splits_iff.mpr ⟨hlow, hplan, hcand, hcount h⟩⟩

/-! ### The last choice -/

/-- A kept coin is split early: no smaller coin funds two pool coins, two or more are wanted, and
the merge toward a coin that would fund them is held up. -/
structure SplitsEarly (f : Faucet) (view : UtxoSnapshot) : Prop where
  small : ∀ v ∈ view.utxos, v.satoshis < collateralCoinSats → f.fundsTwo v = false
  kept : ∃ u ∈ view.utxos, collateralCoinSats ≤ u.satoshis ∧ f.fundsTwo u
  wanted : (f.poolCoins view).length + 2 ≤ f.cfg.poolTarget
  heldUp : f.HeldUp view f.refillGoal

instance : Decidable (f.SplitsEarly view) :=
  decidable_of_iff ((∀ v ∈ view.utxos, v.satoshis < collateralCoinSats → f.fundsTwo v = false) ∧
    (∃ u ∈ view.utxos, collateralCoinSats ≤ u.satoshis ∧ f.fundsTwo u) ∧
    (f.poolCoins view).length + 2 ≤ f.cfg.poolTarget ∧ f.HeldUp view f.refillGoal)
    ⟨fun ⟨h₁, h₂, h₃, h₄⟩ => ⟨h₁, h₂, h₃, h₄⟩, fun h => ⟨h.small, h.kept, h.wanted, h.heldUp⟩⟩

theorem two_le_splitCount {wanted : ℤ} {satoshis : ℕ} (hu : u.satoshis = satoshis) :
    2 ≤ f.splitCount wanted satoshis ↔ 2 ≤ wanted ∧ f.fundsTwo u := by
  subst hu
  rw [splitCount, fundsTwo, decide_eq_true_eq]
  by_cases hzero : f.cfg.poolUtxoSats = 0
  · -- pool coins of nothing: any coin makes as many as are wanted
    rw [if_pos hzero, hzero, Nat.mul_zero]
    exact (and_iff_left (Nat.zero_le _)).symm
  · rw [if_neg hzero, le_min_iff]
    refine and_congr_right fun _ => ?_
    have hpos : 0 < 100 * f.cfg.poolUtxoSats := by omega
    rw [show (2 : ℤ) = ((2 : ℕ) : ℤ) from rfl, Int.ofNat_le, Nat.le_div_iff_mul_le hpos]
    omega

section Merging

variable (hmerging : f.merging = true)

include hmerging

theorem isKept_of_merging : f.isKept u = decide (collateralCoinSats ≤ u.satoshis) := by
  obtain ⟨hcollateral, -⟩ := Bool.and_eq_true_iff.mp hmerging
  rw [isKept, hcollateral, Bool.true_and]

/-- No coin is spared for splitting when none below collateral size funds two pool coins. -/
theorem find_spare_eq_none :
    ((descendingSats view.utxos).find? fun u => !f.isKept u && f.fundsTwo u) = none ↔
      ∀ v ∈ view.utxos, v.satoshis < collateralCoinSats → f.fundsTwo v = false := by
  rw [List.find?_eq_none]
  refine forall_congr' fun v => imp_congr (descendingSats_perm _).mem_iff ?_
  rw [isKept_of_merging hmerging, Bool.and_eq_true, not_and, Bool.not_eq_true',
    decide_eq_false_iff_not, not_le, Bool.not_eq_true]

/-- The candidate is kept only as the largest coin of all, and when no smaller coin will do. -/
theorem splitCandidate_kept (hu : collateralCoinSats ≤ u.satoshis) :
    f.splitCandidate view = some u ↔
      (∀ v ∈ view.utxos, v.satoshis < collateralCoinSats → f.fundsTwo v = false) ∧
        (descendingSats view.utxos).head? = some u := by
  rw [← find_spare_eq_none hmerging, splitCandidate]
  cases hfind : (descendingSats view.utxos).find? fun u => !f.isKept u && f.fundsTwo u with
  | none => rw [Option.none_or, and_iff_right rfl]
  | some w =>
    rw [Option.some_or]
    -- a coin is found, which is smaller than `u` or not kept
    refine iff_of_false (fun h => ?_) fun h => by cases h.1
    cases h
    have hspare := List.find?_some hfind
    rw [isKept_of_merging hmerging, decide_eq_true hu] at hspare
    cases hspare

end Merging

/-- The first of the coins in descending order is the largest. -/
theorem head_descending {coins : List Utxo} (h : (descendingSats coins).head? = some u) :
    u ∈ coins ∧ ∀ v ∈ coins, v.satoshis ≤ u.satoshis := by
  refine ⟨(descendingSats_perm coins).subset (List.mem_of_mem_head? h), fun v hv => ?_⟩
  obtain ⟨rest, heq⟩ := List.head?_eq_some_iff.mp h
  have hsorted := descendingSats_pairwise coins
  rw [heq] at hsorted
  have hv := (descendingSats_perm coins).symm.subset hv
  rw [heq] at hv
  rcases List.mem_cons.mp hv with rfl | hv
  · exact le_refl _
  · exact (List.pairwise_cons.mp hsorted).1 v hv

/-- **When the kept coins are the last choice.** With merging on and the pool low, maintenance
splits a coin of collateral size only when no smaller coin funds two pool coins and `planMerge` has
given up, unless the merge is held up: then it splits one early. And it reports a split of no other
coin than the one it splits. -/
theorem spares_collateral_iff (hmerging : f.merging = true)
    (hlow : (f.poolCoins view).length < f.cfg.poolMin) :
    ((∀ u, f.Splits key view now u → collateralCoinSats ≤ u.satoshis →
        (∀ v ∈ view.utxos, v.satoshis < collateralCoinSats → f.fundsTwo v = false) ∧
          ∃ detail, f.planMerge view f.refillGoal = .none detail) ↔
      ¬f.SplitsEarly view) ∧
    (f.tendBy (fun poolCount u => f.split key u poolCount now) key view now).Yields fun result =>
      result.action = .split → ∃ u, f.Splits key view now u := by
  refine ⟨⟨fun hspares hearly => ?_, fun hlate u hsplits hu => ?_⟩, tend_yields⟩
  · -- the largest coin is kept and funds two pool coins
    obtain ⟨w, hw, hkept, hfunds⟩ := hearly.kept
    obtain ⟨u, hhead⟩ : ∃ u, (descendingSats view.utxos).head? = some u := by
      refine Option.isSome_iff_exists.mp (List.isSome_head?.mpr fun hnil => ?_)
      have hmem := (descendingSats_perm view.utxos).symm.subset hw
      rw [hnil] at hmem
      cases hmem
    have hle := (head_descending hhead).2 w hw
    have hplan : f.refillPlan view = f.planMerge view f.refillGoal := by
      rw [refillPlan, (find_spare_eq_none hmerging).mpr hearly.small, hmerging]
      rfl
    -- the plan is to wait, which the source takes for no plan
    obtain ⟨detail, hwaits⟩ := planMerge_waiting_iff.mpr hearly.heldUp
    have hfunds' : f.fundsTwo u := by
      rw [fundsTwo, decide_eq_true_eq] at hfunds ⊢
      omega
    have hsplits : f.Splits key view now u := by
      refine splits_iff.mpr ⟨hlow, fun inputs reaches h => ?_, ?_, ?_⟩
      · rw [hplan, hwaits] at h
        cases h
      · exact (splitCandidate_kept hmerging (hkept.trans hle)).mpr ⟨hearly.small, hhead⟩
      · have hwanted := hearly.wanted
        exact (two_le_splitCount rfl).mpr ⟨by omega, hfunds'⟩
    obtain ⟨-, detail', hgone⟩ := hspares u hsplits (hkept.trans hle)
    rw [hwaits] at hgone
    cases hgone
  · obtain ⟨-, hplan, hcand, hcount⟩ := splits_iff.mp hsplits
    obtain ⟨hsmall, hhead⟩ := (splitCandidate_kept hmerging hu).mp hcand
    obtain ⟨hwanted, hfunds⟩ := (two_le_splitCount rfl).mp hcount
    refine ⟨hsmall, ?_⟩
    rw [refillPlan, (find_spare_eq_none hmerging).mpr hsmall, hmerging] at hplan
    -- of the three plans, a merge would have been made and waiting is what is excluded
    cases hmerge : f.planMerge view f.refillGoal with
    | none detail => exact ⟨detail, rfl⟩
    | merge inputs reaches => exact absurd hmerge (hplan inputs reaches)
    | waiting detail =>
      refine absurd ⟨hsmall, ⟨u, (head_descending hhead).1, hu, hfunds⟩, by omega, ?_⟩ hlate
      exact planMerge_waiting_iff.mp ⟨detail, hmerge⟩

/-! ### A collateral coin that is split early -/

/-- A coin of 1002 DASH. -/
def bigCoin : Utxo := ⟨"big", 0, 1002 * coin, "faucet", some 1⟩

/-- That coin and others. -/
def keptView (others : List Utxo) : UtxoSnapshot where
  utxos := bigCoin :: others
  source := "core"
  tipHeight := 1000
  statuses := []

/-- With nothing else in the wallet it is the last choice. -/
theorem spares_collateral_iff_alone :
    keeping.Splits ⟨"faucet", "Xfaucet"⟩ (keptView []) 1000 bigCoin ∧
      ∃ detail, keeping.planMerge (keptView []) keeping.refillGoal = .none detail := by
  have hplan : keeping.refillPlan (keptView []) =
      .none "0 duffs outside the pool cannot reach a 404040405-duff coin" := by decide +kernel
  have hsplits : keeping.Splits ⟨"faucet", "Xfaucet"⟩ (keptView []) 1000 bigCoin := by
    refine splits_iff.mpr ⟨by decide +kernel, fun inputs reaches h => ?_, by decide +kernel, ?_⟩
    · rw [hplan] at h
      cases h
    · decide
  have hlate : ¬keeping.SplitsEarly (keptView []) := by decide +kernel
  exact ⟨hsplits, ((spares_collateral_iff rfl (by decide +kernel)).1.mpr hlate bigCoin hsplits
    (by decide)).2⟩

/-- Three coins that would make one to split, the last of them unconfirmed. -/
def lateCoins : List Utxo :=
  [⟨"a", 0, 150000000, "faucet", some 1⟩, ⟨"b", 0, 150000000, "faucet", some 1⟩,
    ⟨"c", 0, 150000000, "faucet", none⟩]

/-- **A kept coin is split although a merge only has to wait**, and a pass over such a wallet does
so. -/
theorem splits_kept_early :
    (¬∀ (f : Faucet) (key : FaucetKey) (view : UtxoSnapshot) (now : ℤ), f.merging = true →
      (f.poolCoins view).length < f.cfg.poolMin →
      ∀ u, f.Splits key view now u → collateralCoinSats ≤ u.satoshis →
        (∀ v ∈ view.utxos, v.satoshis < collateralCoinSats → f.fundsTwo v = false) ∧
          ∃ detail, f.planMerge view f.refillGoal = .none detail) ∧
    ∃ c, keeping.treasury.exec ⟨0, .initial 0, none⟩
        (.begin .maintain 1000 :: List.replicate 7
          (.resume (mintWorld (bigCoin :: lateCoins) (.error "unavailable") (.ok "sent")))) =
        some c ∧
      c.store.past.map (fun p => p.2.toOption) =
        [some (.maintain ⟨.split, "split into 2 coins of 200000000 duffs", some "id of big"⟩)] ∧
      c.store.ledger.spent.rows.map SpentRow.outpoint = [⟨"big", 0⟩] := by
  refine ⟨fun hclaim => ?_, ?_⟩
  · -- planning waits for a coin, which is not out of reach
    have hplan : keeping.planMerge (keptView lateCoins) keeping.refillGoal =
        .waiting "waiting for 1 coin(s) to confirm before merging a 404040405-duff coin" := by
      decide +kernel
    have hsplits : keeping.Splits ⟨"faucet", "Xfaucet"⟩ (keptView lateCoins) 1000 bigCoin := by
      refine splits_iff.mpr ⟨by decide +kernel, fun inputs reaches h => ?_, by decide +kernel, ?_⟩
      swap
      · decide
      have hsame : keeping.refillPlan (keptView lateCoins) =
          keeping.planMerge (keptView lateCoins) keeping.refillGoal := by decide +kernel
      rw [hsame, hplan] at h
      cases h
    obtain ⟨-, detail, hgone⟩ := hclaim keeping _ (keptView lateCoins) 1000 rfl
      (by decide +kernel) bigCoin hsplits (by decide)
    rw [hplan] at hgone
    cases hgone
  · have hrun : (keeping.treasury.exec ⟨0, .initial 0, none⟩
        (.begin .maintain 1000 :: List.replicate 7
          (.resume (mintWorld (bigCoin :: lateCoins) (.error "unavailable") (.ok "sent"))))).map
        (fun c => (c.store.past.map (fun p => p.2.toOption),
          c.store.ledger.spent.rows.map SpentRow.outpoint)) =
        some ([some (.maintain ⟨.split, "split into 2 coins of 200000000 duffs",
          some "id of big"⟩)], [⟨"big", 0⟩]) := by
      decide +kernel
    obtain ⟨c, hc, heq⟩ := Option.map_eq_some_iff.mp hrun
    obtain ⟨hpast, hspent⟩ := Prod.mk.inj heq
    exact ⟨c, hc, hpast, hspent⟩

end Faucet

end DashFaucet

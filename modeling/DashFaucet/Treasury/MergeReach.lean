import DashFaucet.Treasury.MergeSafety
import DashFaucet.Treasury.PayoutCoins

/-!
# Which merges are in reach

`planMerge` answers `none` when no merge toward a goal could ever succeed. It decides that on the
spare coins whenever they are worth the goal, without their fee. So there is a margin: spare coins
worth the goal but not the fee on top (`Faucet.FeeShort`). There it answers `none` although a kept
collateral coin would have helped, and nowhere else does it miss a merge (`planMerge_reachable`).

Payouts are not affected. One that is refused as too fragmented has no such merge anyway, since the
coins of the merge would have paid it.
-/

namespace DashFaucet

open Async List

/-- Further inputs, each worth what it adds to the fee, make no selection fall short. -/
theorem sumSats_add_fee_le (fee : ℕ → ℕ) {S M : List Utxo} (hsub : S <+ M)
    (hworth : ∀ u ∈ M, ∀ n, fee (n + 1) ≤ fee n + u.satoshis) (k : ℕ) :
    sumSats S + fee (M.length + k) ≤ sumSats M + fee (S.length + k) := by
  induction hsub generalizing k with
  | slnil => exact le_refl _
  | @cons S M u hsub ih =>
    have hu := hworth u List.mem_cons_self (M.length + k)
    have hrest := ih (fun v hv => hworth v (List.mem_cons_of_mem _ hv)) k
    have hsum : sumSats (u :: M) = u.satoshis + sumSats M := rfl
    have hlen : (u :: M).length + k = M.length + k + 1 := by
      rw [List.length_cons, Nat.add_right_comm]
    rw [hsum, hlen]
    omega
  | @cons_cons S M u hsub ih =>
    -- a coin of both counts as one more input on either side
    have hrest := ih (fun v hv => hworth v (List.mem_cons_of_mem _ hv)) (k + 1)
    have hsum : ∀ l, sumSats (u :: l) = u.satoshis + sumSats l := fun l => rfl
    have hlen : ∀ l : List Utxo, (u :: l).length + k = l.length + (k + 1) := by
      intro l
      rw [List.length_cons, Nat.add_assoc, Nat.add_comm 1 k]
    rw [hsum, hsum, hlen, hlen]
    omega

namespace DashTx

/-- With a budget for every coin, a merge reaches what all of them are worth. -/
theorem selectMergeInputs_reaches_all {d : DashTx} {coins : List Utxo} {target maxInputs : ℕ}
    (h : coins.length ≤ maxInputs) : (d.selectMergeInputs coins target maxInputs).2 = true ↔
      target + d.feeCeiling coins.length 1 ≤ sumSats coins := by
  rw [selectMergeInputs_reaches, min_eq_right h]
  constructor
  · rintro ⟨S, hS, hlen, hheavy⟩
    have hperm : S ~ coins := hS.perm_of_length_le hlen.ge
    calc target + d.feeCeiling coins.length 1 ≤ sumSats S := hheavy
      _ = sumSats coins := Largest.weight_perm hperm
  · intro hheavy
    exact ⟨coins, List.Subperm.refl _, rfl, hheavy⟩

end DashTx

namespace Faucet

variable {f : Faucet} {view : UtxoSnapshot} {goal : ℕ} {S : List Utxo}

/-! ### Merges that reach their goal -/

/-- A merge that reaches `goal` in one transaction: confirmed coins below it, none of them a kept
pool coin, that are worth the goal and their fee. -/
structure Mergeable (f : Faucet) (view : UtxoSnapshot) (goal : ℕ) (S : List Utxo) : Prop where
  picked : S <+~ view.utxos
  below : ∀ u ∈ S, u.satoshis < goal
  spares : ∀ u ∈ S, u.outpoint ∉ (f.cfg.keptPool view.utxos goal).map Utxo.outpoint
  two : 2 ≤ S.length
  bounded : S.length ≤ f.cfg.maxPayoutInputs
  confirmed : ∀ u ∈ S, u.height.isSome
  covers : goal + f.dash.feeCeiling S.length 1 ≤ sumSats S

/-- Every coin a merge may spend is worth the fee of one more input. -/
def WorthFee (f : Faucet) (view : UtxoSnapshot) (goal : ℕ) : Prop :=
  ∀ u ∈ f.cfg.material view.utxos goal, ∀ n,
    f.dash.feeCeiling (n + 1) 1 ≤ f.dash.feeCeiling n 1 + u.satoshis

/-- The spare coins, all confirmed and few enough for one transaction, are worth the goal but not
the fee on top. -/
structure FeeShort (f : Faucet) (view : UtxoSnapshot) (goal : ℕ) : Prop where
  worth : goal ≤ sumSats (f.cfg.spare view.utxos goal)
  short : sumSats (f.cfg.spare view.utxos goal) <
    goal + f.dash.feeCeiling (f.cfg.spare view.utxos goal).length 1
  bounded : (f.cfg.spare view.utxos goal).length ≤ f.cfg.maxPayoutInputs
  confirmed : ∀ u ∈ f.cfg.spare view.utxos goal, u.height.isSome

instance : Decidable (f.FeeShort view goal) :=
  decidable_of_iff (goal ≤ sumSats (f.cfg.spare view.utxos goal) ∧
    sumSats (f.cfg.spare view.utxos goal) <
      goal + f.dash.feeCeiling (f.cfg.spare view.utxos goal).length 1 ∧
    (f.cfg.spare view.utxos goal).length ≤ f.cfg.maxPayoutInputs ∧
    ∀ u ∈ f.cfg.spare view.utxos goal, u.height.isSome)
    ⟨fun ⟨h₁, h₂, h₃, h₄⟩ => ⟨h₁, h₂, h₃, h₄⟩, fun h => ⟨h.worth, h.short, h.bounded, h.confirmed⟩⟩

/-- A merge out of the view is one out of the material. -/
theorem Mergeable.subperm_material (h : f.Mergeable view goal S) :
    S <+~ f.cfg.material view.utxos goal := by
  let below := descendingSats (view.utxos.filter fun u => u.satoshis < goal)
  have hdesc : below ~ view.utxos.filter fun u => u.satoshis < goal := descendingSats_perm _
  have hbelow : S <+~ below := by
    have hfilter := h.picked.filter fun u => decide (u.satoshis < goal)
    rw [List.filter_eq_self.mpr fun u hu => decide_eq_true (h.below u hu)] at hfilter
    exact hfilter.trans hdesc.symm.subperm
  show S <+~ FaucetConfig.without (f.cfg.keptPool view.utxos goal) below
  have hself : FaucetConfig.without (f.cfg.keptPool view.utxos goal) S = S := by
    refine List.filter_eq_self.mpr fun u hu => ?_
    rw [Bool.not_eq_true', ← Bool.not_eq_true, List.contains_iff_mem]
    exact h.spares u hu
  rw [← hself]
  exact hbelow.filter _

/-- The fee of a whole list of coins is no reason to fall short where some of them reach. -/
theorem Mergeable.covers_material (h : f.Mergeable view goal S) (hworth : f.WorthFee view goal) :
    goal + f.dash.feeCeiling (f.cfg.material view.utxos goal).length 1 ≤
      sumSats (f.cfg.material view.utxos goal) := by
  obtain ⟨S', hperm, hsub⟩ := h.subperm_material
  have hsum : sumSats S' = sumSats S := Largest.weight_perm hperm
  have hmore := sumSats_add_fee_le (fun n => f.dash.feeCeiling n 1) hsub hworth 0
  have hcovers := h.covers
  rw [← hperm.length_eq] at hcovers
  simp only [Nat.add_zero] at hmore
  omega

/-! ### When a goal is given up -/

/-- The coins a merge toward `goal` is planned from leave nothing to hope for: they are worth less
than the goal, or all of them at once fall short of it and the fee. -/
def Hopeless (f : Faucet) (goal : ℕ) (material : List Utxo) : Prop :=
  sumSats material < goal ∨
    (∀ u ∈ material, u.height.isSome) ∧ material.length ≤ f.cfg.maxPayoutInputs ∧
      sumSats material < goal + f.dash.feeCeiling material.length 1

theorem planMerge_none_iff (hmax : 2 ≤ f.cfg.maxPayoutInputs) :
    (∃ detail, f.planMerge view goal = .none detail) ↔
      f.Hopeless goal (f.cfg.mergeMaterial view.utxos goal) := by
  unfold planMerge Hopeless
  dsimp only
  generalize f.cfg.mergeMaterial view.utxos goal = material
  by_cases hless : sumSats material < goal
  · rw [if_pos hless]
    exact iff_of_true ⟨_, rfl⟩ (.inl hless)
  rw [if_neg hless, or_iff_right hless]
  have hlen : ∀ coins, (f.dash.selectMergeInputs coins goal f.cfg.maxPayoutInputs).1.length =
      min f.cfg.maxPayoutInputs coins.length := fun coins => DashTx.length_selectMergeInputs
  have hreach : ∀ coins : List Utxo, coins.length ≤ f.cfg.maxPayoutInputs →
      ((f.dash.selectMergeInputs coins goal f.cfg.maxPayoutInputs).2 = true ↔
        goal + f.dash.feeCeiling coins.length 1 ≤ sumSats coins) :=
    fun coins h => DashTx.selectMergeInputs_reaches_all h
  split
  · next hstuck =>
    simp only [Bool.and_eq_true, Bool.not_eq_true', Bool.or_eq_true, decide_eq_true_eq] at hstuck
    obtain ⟨⟨hfails, hfew⟩, hpending⟩ := hstuck
    refine iff_of_true ⟨_, rfl⟩ ?_
    -- nothing is pending, so the confirmed coins are all
    have hself : material.filter (fun u => u.height.isSome) = material :=
      List.filter_sublist.eq_of_length_le (Nat.le_of_sub_eq_zero hpending)
    rw [hself, hlen] at hfew
    rw [hself] at hfails
    have hbounded : material.length ≤ f.cfg.maxPayoutInputs := by omega
    refine ⟨List.filter_eq_self.mp hself, hbounded, not_le.mp fun hcovers => ?_⟩
    rw [(hreach material hbounded).mpr hcovers] at hfails
    cases hfails
  · next hgoes =>
    refine iff_of_false ?_ ?_
    · rintro ⟨detail, heq⟩
      split at heq <;> cases heq
    · rintro ⟨hall, hbounded, hshort⟩
      -- all are confirmed and few enough, so the selection is made of all of them
      refine hgoes ?_
      have hself : material.filter (fun u => u.height.isSome) = material :=
        List.filter_eq_self.mpr hall
      have hfails : (f.dash.selectMergeInputs material goal f.cfg.maxPayoutInputs).2 = false := by
        rw [← Bool.not_eq_true, hreach material hbounded]
        exact not_le.mpr hshort
      rw [hself, hlen, hfails, min_eq_right hbounded, Nat.sub_self]
      simp

/-- **Where a merge is in reach, `planMerge` gives up in the margin of the fee and nowhere
else.** -/
theorem planMerge_none_iff_feeShort (hworth : f.WorthFee view goal)
    (hS : f.Mergeable view goal S) :
    (∃ detail, f.planMerge view goal = .none detail) ↔ f.FeeShort view goal := by
  rw [planMerge_none_iff (hS.two.trans hS.bounded)]
  by_cases hspare : goal ≤ sumSats (f.cfg.spare view.utxos goal)
  · -- planned from the spare coins
    have heq : f.cfg.mergeMaterial view.utxos goal = f.cfg.spare view.utxos goal := if_pos hspare
    rw [heq]
    constructor
    · rintro (hless | ⟨hall, hbounded, hshort⟩)
      · exact absurd hspare (not_le.mpr hless)
      · exact ⟨hspare, hshort, hbounded, hall⟩
    · intro h
      exact .inr ⟨h.confirmed, h.bounded, h.short⟩
  · -- planned from all the material, which the merge is part of
    have heq : f.cfg.mergeMaterial view.utxos goal = f.cfg.material view.utxos goal :=
      if_neg hspare
    have hcovers := hS.covers_material hworth
    rw [heq]
    refine iff_of_false ?_ fun h => hspare h.worth
    rintro (hless | ⟨-, -, hshort⟩)
    · omega
    · exact absurd hcovers (not_le.mpr hshort)

/-! ### What becomes of a demand -/

/-- A demand is kept while a merge toward it has a plan, and dropped once it has none. -/
theorem planGoals_demand {before after : List ℕ} (hbefore : goal ∉ before)
    (hnone : ∀ g ∈ before, ∃ detail, f.planMerge view g = .none detail) (plan : MergePlan) :
    f.planGoals view goal (before ++ goal :: after) plan =
      match f.planMerge view goal with
      | .none detail => do
        modify (State.filterDemand fun r => !(r.satoshis ≥ goal))
        f.planGoals view goal after (.none detail)
      | plan => pure plan := by
  -- the goals before have no plan and are not the demand
  induction before generalizing plan with
  | nil =>
    rw [List.nil_append, planGoals]
    cases f.planMerge view goal with
    | none detail =>
      dsimp only
      rw [if_pos rfl]
    | waiting detail => rfl
    | merge inputs reaches => rfl
  | cons g before ih =>
    obtain ⟨hne, hbefore⟩ := not_or.mp (mt List.mem_cons.mpr hbefore)
    obtain ⟨detail, hg⟩ := hnone g List.mem_cons_self
    rw [List.cons_append, planGoals, hg]
    dsimp only
    rw [if_neg (Ne.symm hne)]
    exact ih hbefore (fun g' hg' => hnone g' (List.mem_cons_of_mem _ hg')) (.none detail)

/-! ### What becomes of a payout -/

variable {key : FaucetKey} {recipient : String} {satoshis : ℕ} {forCollateral : Bool}
  {es : List Answered} {e : Thrown}

/-- A payout fails for want of coins on all the coins of the view. -/
theorem shortage_builds (hshort : isShortage e = true)
    (h : Transcript (f.buildPayoutSparingCollateral key view.utxos recipient satoshis forCollateral)
      es (.error e)) :
    f.dash.PayoutBuilds key view.utxos recipient satoshis f.cfg.maxPayoutInputs (.error e) := by
  rcases sparing_cases h with ⟨⟨es', hbuild⟩, -⟩ | ⟨-, hlong⟩
  · exact DashTx.buildPayout_builds hbuild
  · rw [hlong e rfl] at hshort
    cases hshort

/-- The coins of a merge toward a payout's demand pay it, headroom covering one more output. -/
theorem Mergeable.admissible (h : f.Mergeable view (satoshis + coin) S)
    (hfee : f.dash.feeCeiling S.length 2 ≤ f.dash.feeCeiling S.length 1 + coin) :
    f.dash.Admissible view.utxos satoshis 2 0 S where
  picked := h.picked
  covers := by
    calc satoshis + f.dash.feeCeiling S.length 2
        ≤ satoshis + coin + f.dash.feeCeiling S.length 1 := by omega
      _ ≤ sumSats S := h.covers
  shape := .inr ⟨h.two, h.confirmed⟩

/-- No `Retry-After` is given for any other failure of a payout but too many coins. -/
theorem refuse_yields (now : ℤ) :
    (f.refuse view satoshis now e).Yields fun answer =>
      (∃ detail, answer = .fragmented detail none) →
        ∃ inputs maxInputs, e = .tooFragmented inputs maxInputs := by
  cases e with
  | tooFragmented inputs maxInputs => exact .of_forall (fun _ _ => ⟨inputs, maxInputs, rfl⟩) _
  | unconfirmedFunds confirmed required =>
    refine Yields.bind (fun _ => ?_) _
    rintro ⟨detail, heq⟩
    cases heq
  | _ =>
    rintro ⟨detail, heq⟩
    cases heq

/-! ### Reachable goals -/

/-- **`planMerge` gives up a reachable goal in the margin of the fee, and nowhere else.** Where
some merge reaches the goal, it has a plan exactly unless the spare coins fall short by their fee,
and there a demand is dropped. A payout is not refused as too fragmented where a merge toward its
demand is in reach. -/
theorem planMerge_reachable (hworth : f.WorthFee view goal) (hS : f.Mergeable view goal S) :
    ((∀ detail, f.planMerge view goal ≠ .none detail) ↔ ¬f.FeeShort view goal) ∧
    (∀ before after plan, goal ∉ before →
      (∀ g ∈ before, ∃ detail, f.planMerge view g = .none detail) →
      (¬f.FeeShort view goal →
        f.planGoals view goal (before ++ goal :: after) plan = pure (f.planMerge view goal)) ∧
      (f.FeeShort view goal → ∃ detail,
        f.planGoals view goal (before ++ goal :: after) plan = do
          modify (State.filterDemand fun r => !(r.satoshis ≥ goal))
          f.planGoals view goal after (.none detail))) ∧
    ∀ {key : FaucetKey} {recipient : String} {satoshis : ℕ} {forCollateral : Bool}
      {es : List Answered} {e : Thrown} (now : ℤ), goal = satoshis + coin →
      f.dash.feeCeiling S.length 2 ≤ f.dash.feeCeiling S.length 1 + coin →
      Transcript (f.buildPayoutSparingCollateral key view.utxos recipient satoshis forCollateral)
        es (.error e) →
      (f.refuse view satoshis now e).Yields fun answer =>
        ∀ detail, answer ≠ .fragmented detail none := by
  have hnone := planMerge_none_iff_feeShort hworth hS
  refine ⟨?_, fun before after plan hbefore hout => ⟨fun hlong => ?_, fun hshort => ?_⟩, ?_⟩
  · rw [← hnone, not_exists]
  · rw [planGoals_demand hbefore hout]
    cases hplan : f.planMerge view goal with
    | none detail => exact absurd (hnone.mp ⟨detail, hplan⟩) hlong
    | waiting detail => rfl
    | merge inputs reaches => rfl
  · obtain ⟨detail, hplan⟩ := hnone.mpr hshort
    rw [planGoals_demand hbefore hout, hplan]
    exact ⟨detail, rfl⟩
  · intro key recipient satoshis forCollateral es e now hgoal hfee hbuild
    subst hgoal
    refine (refuse_yields now).mono fun answer hwhy detail heq => ?_
    obtain ⟨inputs, maxInputs, rfl⟩ := hwhy ⟨detail, heq⟩
    -- a fragmented refusal would need more inputs than the cap, which `S` does not
    have hmany := (shortage_builds rfl hbuild).shortage rfl S (hS.admissible hfee)
    exact absurd hS.bounded (not_le.mpr hmany)

/-- A collateral coin and two coins that are together worth the goal, without the fee. -/
def marginView : UtxoSnapshot where
  utxos := [⟨"big", 0, 1001 * coin, "faucet", some 1⟩, ⟨"a", 0, 700 * coin, "faucet", some 1⟩,
    ⟨"b", 0, 700 * coin, "faucet", some 1⟩]
  source := "core"
  tipHeight := 1000
  statuses := []

theorem marginView_worthFee (goal : ℕ) : keeping.WorthFee marginView goal := by
  intro u hu n
  have hlarge : ∀ u ∈ marginView.utxos, 149 ≤ u.satoshis := by decide
  have hu := hlarge u (FaucetConfig.mem_material.mp hu).1.1
  show 10 + 149 * (n + 1) + 34 * 1 + 0 ≤ 10 + 149 * n + 34 * 1 + 0 + u.satoshis
  omega

/-- The collateral coin and one of the others. -/
theorem marginView_mergeable {goal : ℕ} (hgoal : goal = 1400 * coin ∨ goal = 1300 * coin) :
    keeping.Mergeable marginView goal (marginView.utxos.take 2) := by
  rcases hgoal with rfl | rfl <;>
    exact ⟨(List.take_sublist _ _).subperm, by decide, by decide +kernel, by decide, by decide,
      by decide, by decide⟩

/-- Short of the margin the spare coins are enough. -/
theorem planMerge_reachable_margin :
    ¬∃ detail, keeping.planMerge marginView (1300 * coin) = .none detail := by
  rintro ⟨detail, hnone⟩
  have hplanned := (planMerge_reachable (marginView_worthFee _)
    (marginView_mergeable (.inr rfl))).1.mpr (by decide +kernel)
  exact hplanned detail hnone

/-- In the margin a reachable goal is given up. -/
theorem planMerge_gives_up : ¬∀ (f : Faucet) (view : UtxoSnapshot) (goal : ℕ) (S : List Utxo),
    f.WorthFee view goal → f.Mergeable view goal S → ∀ detail,
      f.planMerge view goal ≠ .none detail := by
  intro hclaim
  have hnone : ∃ detail, keeping.planMerge marginView (1400 * coin) = .none detail := by
    rw [planMerge_none_iff_feeShort (marginView_worthFee _) (marginView_mergeable (.inl rfl))]
    decide +kernel
  obtain ⟨detail, hnone⟩ := hnone
  exact hclaim keeping marginView (1400 * coin) _ (marginView_worthFee _)
    (marginView_mergeable (.inl rfl)) detail hnone

end Faucet

end DashFaucet

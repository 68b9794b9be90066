import DashFaucet.Treasury.Meets.Maintenance
import DashFaucet.Treasury.Runs

/-!
# Merges are safe

A merge turns small coins into one large one. It must not eat the pool that pays the public, nor the
collateral coins that are kept ready, and it is worth its fee only with two coins or more.

* `length_without_ge`: the coins of a kind that are left after a spend which spares some of them.
* `SafeMerge`, `Faucet.merges_are_safe`: what a planned merge spends and what it leaves.
* `Faucet.maintainVia`, `Faucet.maintain_merges_two`: maintenance is the same program whatever is
  done with fewer than two coins.
-/

namespace DashFaucet

open Async List

/-! ### What is left -/

namespace FaucetConfig

theorem mem_without {kept l : List Utxo} {u : Utxo} :
    u ∈ without kept l ↔ u ∈ l ∧ u.outpoint ∉ kept.map Utxo.outpoint := by
  rw [without, List.mem_filter, Bool.not_eq_true', ← Bool.not_eq_true, List.contains_iff_mem]

/-- Of the coins of a kind only those in `M` are spent, and of these none that is kept. So there are
as many left as there were, less those of `M`, and those kept. -/
theorem length_without_ge (kept : List Utxo) {l M inputs : List Utxo} {p : Utxo → Bool}
    (hl : (l.map Utxo.outpoint).Nodup) (hinputs : inputs ⊆ l) (hM : M.Nodup) (hkept : kept <+ M)
    (hspent : ∀ u ∈ inputs, p u = true → u ∈ M) (hapart : ∀ u ∈ inputs, u ∉ kept) :
    (l.filter p).length + kept.length ≤ ((without inputs l).filter p).length + M.length := by
  have hnodup : l.Nodup := List.Nodup.of_map _ hl
  -- the spent ones and the kept ones are different coins of `M`
  let spent := (l.filter p).filter fun u => (inputs.map Utxo.outpoint).contains u.outpoint
  have hmem : ∀ u ∈ spent, u ∈ inputs ∧ p u = true := by
    intro u hu
    obtain ⟨hu, hin⟩ := List.mem_filter.mp hu
    obtain ⟨hu, hp⟩ := List.mem_filter.mp hu
    obtain ⟨v, hv, heq⟩ := List.mem_map.mp (List.contains_iff_mem.mp hin)
    exact ⟨List.inj_on_of_nodup_map hl (hinputs hv) hu heq ▸ hv, hp⟩
  have hsplit : (l.filter p).length = spent.length + ((without inputs l).filter p).length := by
    rw [without, List.filter_filter, List.length_eq_length_filter_add (l := l.filter p)
      (fun u => (inputs.map Utxo.outpoint).contains u.outpoint),
        List.filter_filter (p := fun u => _)]
    simp only [spent, List.filter_filter, Bool.and_comm]
  have hsub : spent ++ kept <+~ M := by
    refine List.subperm_of_subset ?_ ?_
    · refine List.nodup_append.mpr ⟨(hnodup.filter _).filter _, hM.sublist hkept, ?_⟩
      rintro u hu _ hu' rfl
      exact hapart u (hmem u hu).1 hu'
    · intro u hu
      rcases List.mem_append.mp hu with hu | hu
      · exact hspent u (hmem u hu).1 (hmem u hu).2
      · exact hkept.subset hu
  have hlen := hsub.length_le
  rw [List.length_append] at hlen
  omega

theorem sliceFromEnd_sublist {α : Type} (n : ℕ) (l : List α) : sliceFromEnd n l <+ l := by
  unfold sliceFromEnd
  split
  · exact List.Sublist.refl l
  · exact List.drop_sublist _ l

/-- The last `n` elements are `n`, or all there are. -/
theorem le_length_sliceFromEnd {α : Type} (n : ℕ) (l : List α) :
    min n l.length ≤ (sliceFromEnd n l).length := by
  unfold sliceFromEnd
  split
  · exact Nat.min_le_right _ _
  · rw [List.length_drop]
    omega

variable (cfg : FaucetConfig)

/-- The pool coins a merge toward `goal` leaves alone. -/
def keptPool (utxos : List Utxo) (goal : ℕ) : List Utxo :=
  sliceFromEnd cfg.poolTarget
    ((descendingSats (utxos.filter fun u => u.satoshis < goal)).filter cfg.isPoolCoin)

/-- The collateral coins of its material. -/
def collateral (utxos : List Utxo) (goal : ℕ) : List Utxo :=
  (cfg.material utxos goal).filter fun u => u.satoshis ≥ collateralCoinSats

/-- Those of them it leaves alone, if it can. -/
def keptCollateral (utxos : List Utxo) (goal : ℕ) : List Utxo :=
  (cfg.collateral utxos goal).drop ((cfg.collateral utxos goal).length - cfg.collateralCoins)

variable {cfg} {utxos inputs : List Utxo} {goal : ℕ}

theorem mem_material {u : Utxo} : u ∈ cfg.material utxos goal ↔
    (u ∈ utxos ∧ u.satoshis < goal) ∧ u.outpoint ∉ (cfg.keptPool utxos goal).map Utxo.outpoint := by
  have hdesc : descendingSats (utxos.filter fun u => u.satoshis < goal) ~
      utxos.filter fun u => u.satoshis < goal := List.perm_insertionSort _ _
  change u ∈ without (cfg.keptPool utxos goal) _ ↔ _
  rw [mem_without, hdesc.mem_iff, List.mem_filter, decide_eq_true_eq]

theorem mem_spare {u : Utxo} : u ∈ cfg.spare utxos goal ↔
    u ∈ cfg.material utxos goal ∧
      u.outpoint ∉ (cfg.keptCollateral utxos goal).map Utxo.outpoint := by
  change u ∈ without (cfg.keptCollateral utxos goal) _ ↔ _
  rw [mem_without]

theorem mergeMaterial_subset : cfg.mergeMaterial utxos goal ⊆ cfg.material utxos goal := by
  unfold mergeMaterial
  split
  · exact fun u hu => (mem_spare.mp hu).1
  · exact List.Subset.refl _

/-- **The pool is kept.** A spend of material leaves `poolTarget` pool coins, or all there are. -/
theorem pool_kept (hutxos : (utxos.map Utxo.outpoint).Nodup)
    (hinputs : inputs ⊆ cfg.material utxos goal) :
    min cfg.poolTarget (utxos.filter cfg.isPoolCoin).length ≤
      ((without inputs utxos).filter cfg.isPoolCoin).length := by
  let below := descendingSats (utxos.filter fun u => u.satoshis < goal)
  have hbelow : below ~ utxos.filter fun u => u.satoshis < goal := List.perm_insertionSort _ _
  have hnodup : utxos.Nodup := List.Nodup.of_map _ hutxos
  have hM : (below.filter cfg.isPoolCoin).Nodup :=
    (hbelow.nodup_iff.mpr (hnodup.filter _)).filter _
  have hle : (below.filter cfg.isPoolCoin).length ≤ (utxos.filter cfg.isPoolCoin).length := by
    rw [(hbelow.filter cfg.isPoolCoin).length_eq]
    exact (List.filter_sublist.filter _).length_le
  -- what is kept back of the pool coins is not among the inputs
  have hleft := length_without_ge (cfg.keptPool utxos goal) (p := cfg.isPoolCoin) hutxos
    (fun u hu => (mem_material.mp (hinputs hu)).1.1) hM (sliceFromEnd_sublist _ _)
    (fun u hu hp => List.mem_filter.mpr
      ⟨hbelow.mem_iff.mpr (List.mem_filter.mpr ⟨(mem_material.mp (hinputs hu)).1.1,
        decide_eq_true (mem_material.mp (hinputs hu)).1.2⟩), hp⟩)
    fun u hu hin => (mem_material.mp (hinputs hu)).2 (List.mem_map_of_mem hin)
  have hkept : min cfg.poolTarget (below.filter cfg.isPoolCoin).length ≤
      (cfg.keptPool utxos goal).length := le_length_sliceFromEnd _ _
  omega

/-- **The collateral is kept** by a spend of spare coins. -/
theorem collateral_kept (goal : ℕ) (hutxos : (utxos.map Utxo.outpoint).Nodup)
    (hinputs : inputs ⊆ cfg.spare utxos goal) :
    min cfg.collateralCoins (utxos.filter fun u => u.satoshis ≥ collateralCoinSats).length ≤
      ((without inputs utxos).filter fun u => u.satoshis ≥ collateralCoinSats).length := by
  have hsub := cfg.material_subperm utxos goal
  have hnodup : utxos.Nodup := List.Nodup.of_map _ hutxos
  have hM : (cfg.collateral utxos goal).Nodup := by
    obtain ⟨l, hperm, hl⟩ := hsub
    exact (hperm.nodup_iff.mp (hnodup.sublist hl)).filter _
  have hle : (cfg.collateral utxos goal).length ≤
      (utxos.filter fun u => u.satoshis ≥ collateralCoinSats).length :=
    (hsub.filter _).length_le
  -- nor is what is kept back of the collateral coins
  have hleft := length_without_ge (cfg.keptCollateral utxos goal)
    (p := fun u => u.satoshis ≥ collateralCoinSats) hutxos
    (fun u hu => (mem_material.mp (mem_spare.mp (hinputs hu)).1).1.1) hM (List.drop_sublist _ _)
    (fun u hu hp => List.mem_filter.mpr ⟨(mem_spare.mp (hinputs hu)).1, hp⟩)
    fun u hu hin => (mem_spare.mp (hinputs hu)).2 (List.mem_map_of_mem hin)
  have hkept : (cfg.keptCollateral utxos goal).length =
      (cfg.collateral utxos goal).length -
        ((cfg.collateral utxos goal).length - cfg.collateralCoins) := List.length_drop
  omega

end FaucetConfig

/-! ### What is planned -/

/-- What a merge of `inputs` out of a view promises: at least two distinct coins and no more than a
transaction takes, all confirmed, and a pool of `poolTarget` coins left, or what there was. -/
structure SafeMerge (cfg : FaucetConfig) (view : UtxoSnapshot) (inputs : List Utxo) : Prop where
  two : 2 ≤ inputs.length
  bounded : inputs.length ≤ cfg.maxPayoutInputs
  distinct : (inputs.map Utxo.outpoint).Nodup
  listed : inputs ⊆ view.utxos
  confirmed : ∀ u ∈ inputs, u.height.isSome
  pool : min cfg.poolTarget (view.utxos.filter cfg.isPoolCoin).length ≤
    ((FaucetConfig.without inputs view.utxos).filter cfg.isPoolCoin).length

namespace Faucet

variable {f : Faucet} {view : UtxoSnapshot} {goal : ℕ} {inputs : List Utxo} {reaches : Bool}

/-- A merge is planned only of what `selectMergeInputs` picks among the confirmed coins, and one
that falls short only with two coins. -/
theorem planMerge_merge (h : f.planMerge view goal = .merge inputs reaches) :
    f.dash.selectMergeInputs
        ((f.cfg.mergeMaterial view.utxos goal).filter fun u => u.height.isSome) goal
        f.cfg.maxPayoutInputs = (inputs, reaches) ∧
      (reaches = false → 2 ≤ inputs.length) := by
  unfold planMerge at h
  dsimp only at h
  split at h
  · cases h
  · split at h
    · cases h
    · split at h
      · cases h
      -- not stuck, so a merge that falls short still has two inputs
      next hstuck =>
        cases h
        refine ⟨rfl, fun hreaches => ?_⟩
        rw [hreaches] at hstuck
        by_contra hlt
        exact hstuck (by simp only [Bool.not_false, Bool.true_and, Bool.or_eq_true,
          decide_eq_true_eq]; exact Or.inl (by omega))

theorem planMerge_subperm (h : f.planMerge view goal = .merge inputs reaches) :
    inputs <+~ (f.cfg.mergeMaterial view.utxos goal).filter fun u => u.height.isSome := by
  obtain ⟨hsel, -⟩ := planMerge_merge h
  have hsub : (f.dash.selectMergeInputs
      ((f.cfg.mergeMaterial view.utxos goal).filter fun u => u.height.isSome) goal
      f.cfg.maxPayoutInputs).1 <+~
      (f.cfg.mergeMaterial view.utxos goal).filter fun u => u.height.isSome :=
    DashTx.selectMergeInputs_subperm
  rwa [hsel] at hsub

/-- A merge that is said to reach its goal covers the fee on top. -/
theorem planMerge_reaches (h : f.planMerge view goal = .merge inputs reaches)
    (hreaches : reaches = true) :
    goal + f.dash.feeCeiling inputs.length 1 ≤ sumSats inputs := by
  obtain ⟨hsel, -⟩ := planMerge_merge h
  have hsum := DashTx.le_sum_of_reaches ((congrArg Prod.snd hsel).trans hreaches)
  rwa [hsel] at hsum

/-- A merge toward a coin of some value has two inputs. So has one toward no value at all, if a
transaction without inputs has a fee. -/
theorem planMerge_two (hgoal : 0 < goal ∨ 0 < f.dash.appraiseMax 0 1)
    (h : f.planMerge view goal = .merge inputs reaches) : 2 ≤ inputs.length := by
  obtain ⟨hsel, htwo⟩ := planMerge_merge h
  cases reaches with
  | false => exact htwo rfl
  | true =>
    have hsum := planMerge_reaches h rfl
    have hsub := planMerge_subperm h
    match inputs, hsum, hsub with
    | [], hsum, _ =>
      have hfee : goal + (f.dash.appraiseMax 0 1 + 0) ≤ 0 := hsum
      omega
    | [u], hsum, hsub =>
      -- every coin of the material is below the goal
      have hu := List.mem_of_mem_filter (hsub.subset (List.mem_singleton_self u))
      have hlt := (FaucetConfig.mem_material.mp (FaucetConfig.mergeMaterial_subset hu)).1.2
      have hle : goal + f.dash.feeCeiling 1 1 ≤ u.satoshis + 0 := hsum
      omega
    | _ :: _ :: rest, _, _ =>
      exact Nat.le_add_left 2 rest.length

/-- A spend of two confirmed coins of the material, or more, is safe. -/
theorem safeMerge_of_material (goal : ℕ) (hview : (view.utxos.map Utxo.outpoint).Nodup)
    (hsub : inputs <+~ view.utxos) (hmaterial : inputs ⊆ f.cfg.material view.utxos goal)
    (htwo : 2 ≤ inputs.length) (hbounded : inputs.length ≤ f.cfg.maxPayoutInputs)
    (hconfirmed : ∀ u ∈ inputs, u.height.isSome) : SafeMerge f.cfg view inputs where
  two := htwo
  bounded := hbounded
  distinct := by
    obtain ⟨l, hperm, hl⟩ := hsub
    exact (hperm.map Utxo.outpoint).nodup_iff.mp (hview.sublist (hl.map Utxo.outpoint))
  listed := hsub.subset
  confirmed := hconfirmed
  pool := FaucetConfig.pool_kept hview hmaterial

theorem planMerge_safe (hview : (view.utxos.map Utxo.outpoint).Nodup) (hgoal : 0 < goal)
    (h : f.planMerge view goal = .merge inputs reaches) : SafeMerge f.cfg view inputs := by
  obtain ⟨hsel, -⟩ := planMerge_merge h
  have hinputs : (f.dash.selectMergeInputs
      ((f.cfg.mergeMaterial view.utxos goal).filter fun u => u.height.isSome) goal
      f.cfg.maxPayoutInputs).1 = inputs := congrArg Prod.fst hsel
  have hsub := planMerge_subperm h
  refine safeMerge_of_material goal hview ?_ ?_ (planMerge_two (.inl hgoal) h) ?_ ?_
  · exact (hsub.trans List.filter_sublist.subperm).trans (f.cfg.mergeMaterial_subperm _ _)
  · intro u hu
    exact FaucetConfig.mergeMaterial_subset (List.mem_of_mem_filter (hsub.subset hu))
  · rw [← hinputs, DashTx.length_selectMergeInputs]
    exact Nat.min_le_left _ _
  · intro u hu
    exact (List.mem_filter.mp (hsub.subset hu)).2

/-- Kept collateral coins go in only when the spare coins do not reach the goal. -/
theorem planMerge_keeps_collateral (hview : (view.utxos.map Utxo.outpoint).Nodup)
    (hspare : goal ≤ sumSats (f.cfg.spare view.utxos goal))
    (h : f.planMerge view goal = .merge inputs reaches) :
    min f.cfg.collateralCoins (view.utxos.filter fun u => u.satoshis ≥ collateralCoinSats).length ≤
      ((FaucetConfig.without inputs view.utxos).filter fun u =>
        u.satoshis ≥ collateralCoinSats).length := by
  refine FaucetConfig.collateral_kept goal hview fun u hu => ?_
  have hmaterial : f.cfg.mergeMaterial view.utxos goal = f.cfg.spare view.utxos goal :=
    if_pos hspare
  rw [← hmaterial]
  exact List.mem_of_mem_filter ((planMerge_subperm h).subset hu)

/-- `planTidy` waits for more coins than two, and takes as many as a transaction holds. -/
theorem planTidy_two {plan : MergePlan} (h : f.cfg.planTidy view = some plan) :
    ∃ inputs, plan = .merge inputs true ∧ 2 ≤ inputs.length := by
  unfold FaucetConfig.planTidy at h
  dsimp only at h
  split at h
  · cases h
  next hmore =>
    cases h
    obtain ⟨hloose, hmax⟩ := not_or.mp hmore
    have htwo : 2 ≤ looseCoinsMax := by decide
    refine ⟨_, rfl, ?_⟩
    rw [List.length_take]
    omega

/-- Tidying merges confirmed coins below collateral size. -/
theorem planTidy_safe (hview : (view.utxos.map Utxo.outpoint).Nodup) {plan : MergePlan}
    (h : f.cfg.planTidy view = some plan) : ∃ inputs, plan = .merge inputs true ∧
      SafeMerge f.cfg view inputs ∧ ∀ u ∈ inputs, u.satoshis < collateralCoinSats := by
  have hfrom := planTidy_mergesFrom h
  obtain ⟨inputs, rfl, htwo⟩ := planTidy_two h
  unfold FaucetConfig.planTidy at h
  dsimp only at h
  split at h
  · cases h
  next hmore =>
    cases h
    have hasc : ascendingSats ((f.cfg.spare view.utxos collateralCoinSats).filter
        (·.height.isSome)) ~ (f.cfg.spare view.utxos collateralCoinSats).filter
        (·.height.isSome) := List.perm_insertionSort _ _
    -- how the loose coins are sorted no longer matters
    generalize ascendingSats _ = loose at hasc hfrom htwo
    have hmem : ∀ u ∈ loose.take f.cfg.maxPayoutInputs,
        u ∈ f.cfg.material view.utxos collateralCoinSats ∧ u.height.isSome := by
      intro u hu
      have hu := List.mem_filter.mp (hasc.subset (List.mem_of_mem_take hu))
      exact ⟨(FaucetConfig.mem_spare.mp hu.1).1, hu.2⟩
    refine ⟨_, rfl, ?_, fun u hu => (FaucetConfig.mem_material.mp (hmem u hu).1).1.2⟩
    refine safeMerge_of_material collateralCoinSats hview hfrom
      (fun u hu => (hmem u hu).1) htwo ?_ fun u hu => (hmem u hu).2
    rw [List.length_take]
    exact Nat.min_le_left _ _

/-- A spend of coins below collateral size leaves all the collateral coins. -/
theorem collateral_untouched (hsmall : ∀ u ∈ inputs, u.satoshis < collateralCoinSats)
    (hview : (view.utxos.map Utxo.outpoint).Nodup) (hlisted : inputs ⊆ view.utxos) :
    (FaucetConfig.without inputs view.utxos).filter (fun u => u.satoshis ≥ collateralCoinSats) =
      view.utxos.filter fun u => u.satoshis ≥ collateralCoinSats := by
  rw [FaucetConfig.without, List.filter_filter]
  refine List.filter_congr fun u hu => ?_
  rw [Bool.and_eq_left_iff_imp, Bool.not_eq_true', ← Bool.not_eq_true, List.contains_iff_mem]
  intro hlarge hin
  obtain ⟨v, hv, heq⟩ := List.mem_map.mp hin
  have huv : v = u := List.inj_on_of_nodup_map hview (hlisted hv) hu heq
  have hlt := hsmall v hv
  rw [huv] at hlt
  exact absurd (of_decide_eq_true hlarge) (by omega)

/-! ### Maintenance merges two coins or more -/

/-- `consolidate`, with a merge carried out by `merge`. -/
def consolidateVia (f : Faucet)
    (merge : FaucetKey → List Utxo → Bool → Prog MaintenanceResult) (key : FaucetKey)
    (view : UtxoSnapshot) (poolCount : ℕ) : Prog MaintenanceResult := do
  let poolNote := s!"{poolCount} pool coins available (min {f.cfg.poolMin})"
  let demand ← mergeDemand view
  let plan ← f.planGoals view demand (f.goals view demand) (.none "nothing to merge toward")
  let plan :=
    match plan with
    | .none _ => if f.merging then (f.cfg.planTidy view).getD plan else plan
    | _ => plan
  match plan with
  | .merge inputs reaches => merge key inputs reaches
  | .waiting detail => pure ⟨.waiting, s!"{poolNote}; {detail}", none⟩
  | .none detail => pure ⟨.none, s!"{poolNote}; {detail}", none⟩

/-- `refill`, with a merge carried out by `merge`. -/
def refillVia (f : Faucet) (merge : FaucetKey → List Utxo → Bool → Prog MaintenanceResult)
    (key : FaucetKey) (view : UtxoSnapshot) (poolCount : ℕ) (now : ℤ) :
    Prog MaintenanceResult :=
  let descending := descendingSats view.utxos
  let splittable := descending.find? fun u => !f.isKept u && f.fundsTwo u
  let plan : MergePlan :=
    if splittable.isNone && f.merging then
      f.planMerge view ((200 * f.cfg.poolUtxoSats + 98) / 99)
    else .none ""
  match plan with
  | .merge inputs reaches => merge key inputs reaches
  | _ =>
    match splittable.or descending.head? with
    | none => pure ⟨.blocked, "no spendable coins", none⟩
    | some biggest => f.split key biggest poolCount now

/-- `maintainLocked`, with a merge carried out by `merge`. -/
def maintainVia (f : Faucet)
    (merge : FaucetKey → List Utxo → Bool → Prog MaintenanceResult) (now : ℤ) :
    Prog MaintenanceResult := do
  modify (State.prune f.cfg now)
  let key ← f.key
  match ← attempt (f.spendableUtxos key now) with
  | .error e => pure ⟨.blocked, describeError e, none⟩
  | .ok view =>
    let poolCount := (f.poolCoins view).length
    if poolCount ≥ f.cfg.poolMin then f.consolidateVia merge key view poolCount
    else f.refillVia merge key view poolCount now

/-- A pass has goals of some value only. -/
theorem goals_pos {demand : ℕ} : ∀ goal ∈ f.goals view demand, 0 < goal := by
  intro goal hgoal
  have hgoal := (List.perm_insertionSort _ _).subset hgoal
  exact of_decide_eq_true (List.mem_filter.mp hgoal).2

/-- A plan merges two coins or more. -/
def MergesTwo : MergePlan → Prop
  | .merge inputs _ => 2 ≤ inputs.length
  | _ => True

theorem planMerge_mergesTwo (hgoal : 0 < goal ∨ 0 < f.dash.appraiseMax 0 1) :
    MergesTwo (f.planMerge view goal) := by
  cases h : f.planMerge view goal with
  | none _ => trivial
  | waiting _ => trivial
  | merge inputs reaches => exact planMerge_two hgoal h

theorem planTidy_mergesTwo {plan : MergePlan} (h : f.cfg.planTidy view = some plan) :
    MergesTwo plan := by
  obtain ⟨inputs, rfl, htwo⟩ := planTidy_two h
  exact htwo

theorem tidied_mergesTwo (view : UtxoSnapshot) {plan : MergePlan} : MergesTwo plan →
    MergesTwo (match plan with
    | .none _ => if f.merging then (f.cfg.planTidy view).getD plan else plan
    | _ => plan) := by
  intro h
  split
  · split
    · cases ht : f.cfg.planTidy view with
      | none => exact h
      | some plan' => exact planTidy_mergesTwo ht
    · trivial
  · exact h

theorem planGoals_mergesTwo {demand : ℕ} {goals : List ℕ} (hgoals : ∀ goal ∈ goals, 0 < goal) :
    ∀ plan, MergesTwo plan → (f.planGoals view demand goals plan).Yields MergesTwo := by
  induction goals with
  | nil => exact fun _ h => h
  | cons goal goals ih =>
    intro _ _
    have hplan : MergesTwo (f.planMerge view goal) :=
      planMerge_mergesTwo (.inl (hgoals goal List.mem_cons_self))
    rw [planGoals]
    split
    · next detail _ =>
      have hrest := ih (fun g hg => hgoals g (List.mem_cons_of_mem _ hg)) (.none detail) trivial
      dsimp only
      split
      · exact Async.Yields.bind (fun _ => hrest) _
      · exact hrest
    · exact hplan

variable {merge merge' : FaucetKey → List Utxo → Bool → Prog MaintenanceResult}

theorem consolidateVia_congr {key : FaucetKey} {poolCount : ℕ}
    (hmerge : ∀ inputs reaches, 2 ≤ inputs.length →
      merge key inputs reaches = merge' key inputs reaches) :
    f.consolidateVia merge key view poolCount = f.consolidateVia merge' key view poolCount := by
  unfold consolidateVia
  refine congrArg (mergeDemand view >>= ·) (funext fun demand => ?_)
  refine Async.Yields.bind_congr (planGoals_mergesTwo goals_pos _ trivial) fun plan hplan => ?_
  have htidied := tidied_mergesTwo (f := f) view hplan
  dsimp only
  split
  · next inputs reaches heq =>
    rw [heq] at htidied
    exact hmerge inputs reaches htidied
  · rfl
  · rfl

theorem refillVia_congr {key : FaucetKey} {poolCount : ℕ} {now : ℤ}
    (hfee : 0 < f.dash.appraiseMax 0 1)
    (hmerge : ∀ inputs reaches, 2 ≤ inputs.length →
      merge key inputs reaches = merge' key inputs reaches) :
    f.refillVia merge key view poolCount now = f.refillVia merge' key view poolCount now := by
  unfold refillVia
  dsimp only
  split
  · next inputs reaches heq =>
    split at heq
    · exact hmerge inputs reaches (planMerge_two (.inr hfee) heq)
    · cases heq
  · rfl

/-- **Maintenance is the same program whatever is done with fewer than two coins.** -/
theorem maintain_merges_two (hfee : 0 < f.dash.appraiseMax 0 1)
    (other : FaucetKey → List Utxo → Bool → Prog MaintenanceResult) (now : ℤ) :
    f.maintainLocked now = f.maintainVia (fun key inputs reaches =>
      if inputs.length < 2 then other key inputs reaches
      else f.merge key inputs reaches now) now := by
  have hmerge : ∀ key inputs reaches, 2 ≤ inputs.length →
      f.merge key inputs reaches now = (if inputs.length < 2 then other key inputs reaches
        else f.merge key inputs reaches now) :=
    fun _ _ _ htwo => (if_neg (by omega)).symm
  change f.maintainVia (fun key inputs reaches => f.merge key inputs reaches now) now = _
  unfold maintainVia
  -- up to the view both do the same
  refine congrArg (_ >>= ·) (funext fun _ => congrArg (_ >>= ·) (funext fun key =>
    congrArg (_ >>= ·) (funext fun view => ?_)))
  cases view with
  | error e => rfl
  | ok view =>
    dsimp only
    split
    · exact consolidateVia_congr (hmerge key)
    · exact refillVia_congr hfee (hmerge key)

/-- **Every merge is safe for what the wallet keeps.** A planned merge spends two or more distinct
confirmed coins and leaves the pool. It leaves the collateral coins too, unless the spare coins do
not reach the goal, and a tidying merge always does. Where it is said to reach the goal, the merged
coin does. And maintenance never merges fewer than two coins; for that a transaction without inputs
has to have a fee, since the goal of a refill is 0 when pool coins are worth nothing. -/
theorem merges_are_safe (hview : (view.utxos.map Utxo.outpoint).Nodup) :
    (∀ {goal : ℕ} {inputs : List Utxo} {reaches : Bool}, 0 < goal →
      f.planMerge view goal = .merge inputs reaches →
      SafeMerge f.cfg view inputs ∧
      (goal ≤ sumSats (f.cfg.spare view.utxos goal) →
        min f.cfg.collateralCoins
            (view.utxos.filter fun u => u.satoshis ≥ collateralCoinSats).length ≤
          ((FaucetConfig.without inputs view.utxos).filter fun u =>
            u.satoshis ≥ collateralCoinSats).length) ∧
      (reaches = true → ∀ {σ : Type} {key : FaucetKey} {es : List Answered} {built : BuiltTx},
        Transcript (f.dash.buildConsolidation key inputs : Net σ _) es (.ok built) →
        ∃ o, built.ownOutputs = [o] ∧ goal ≤ o.satoshis)) ∧
    (∀ {plan : MergePlan}, f.cfg.planTidy view = some plan →
      ∃ inputs, plan = .merge inputs true ∧ SafeMerge f.cfg view inputs ∧
        (∀ u ∈ inputs, u.satoshis < collateralCoinSats) ∧
        (FaucetConfig.without inputs view.utxos).filter
            (fun u => u.satoshis ≥ collateralCoinSats) =
          view.utxos.filter fun u => u.satoshis ≥ collateralCoinSats) ∧
    (0 < f.dash.appraiseMax 0 1 →
      ∀ (other : FaucetKey → List Utxo → Bool → Prog MaintenanceResult) (now : ℤ),
        f.maintainLocked now = f.maintainVia (fun key inputs reaches =>
          if inputs.length < 2 then other key inputs reaches
          else f.merge key inputs reaches now) now) := by
  refine ⟨fun hgoal hplan => ⟨planMerge_safe hview hgoal hplan, fun hspare =>
    planMerge_keeps_collateral hview hspare hplan, ?_⟩, ?_, maintain_merges_two⟩
  -- the plan that says it reaches the goal does so
  · intro hreaches σ key es built hbuilt
    obtain ⟨o, ho, hsats⟩ := DashTx.buildConsolidation_merged hbuilt
    have hsum := planMerge_reaches hplan hreaches
    exact ⟨o, ho, by omega⟩
  · intro plan hplan
    obtain ⟨inputs, rfl, hsafe, hsmall⟩ := planTidy_safe hview hplan
    exact ⟨inputs, rfl, hsafe, hsmall, collateral_untouched hsmall hview hsafe.listed⟩

/-- A wallet of three pool coins and six small ones. -/
def smallView : UtxoSnapshot where
  utxos := (["a", "b", "c"].map fun txid => ⟨txid, 0, 3 * coin, "faucet", some 1⟩) ++
    (["d", "e", "f", "g", "h", "i"].map fun txid => ⟨txid, 0, coin, "faucet", some 1⟩)
  tipHeight := 1000
  source := "core"
  statuses := []

/-- What is merged toward a coin of 5: a pool coin to spare and the six small ones. -/
def smallMerge : List Utxo :=
  ⟨"a", 0, 3 * coin, "faucet", some 1⟩ ::
    ["d", "e", "f", "g", "h", "i"].map fun txid => ⟨txid, 0, coin, "faucet", some 1⟩

theorem merges_are_safe_small :
    small.planMerge smallView (5 * coin) = .merge smallMerge true ∧
      SafeMerge small.cfg smallView smallMerge ∧
      (∃ es built, Transcript (small.dash.buildConsolidation ⟨"faucet", "Xfaucet"⟩ smallMerge :
          Net Unit _) es (.ok built) ∧
        ∃ o, built.ownOutputs = [o] ∧ 5 * coin ≤ o.satoshis) ∧
      ∃ loose, small.cfg.planTidy smallView = some (.merge loose true) ∧
        SafeMerge small.cfg smallView loose := by
  have hview : (smallView.utxos.map Utxo.outpoint).Nodup := by decide
  have hplan : small.planMerge smallView (5 * coin) = .merge smallMerge true := by decide +kernel
  have htidy : (small.cfg.planTidy smallView).isSome := by decide +kernel
  obtain ⟨hmerge, htidying, -⟩ := merges_are_safe (f := small) hview
  obtain ⟨hsafe, -, hreaches⟩ := hmerge (by decide) hplan
  obtain ⟨plan, hplan'⟩ := Option.isSome_iff_exists.mp htidy
  obtain ⟨loose, rfl, hloose, -⟩ := htidying hplan'
  -- seven coins into one of 9 DASH, less the fee
  have hbuilt : Transcript
      (small.dash.buildConsolidation ⟨"faucet", "Xfaucet"⟩ smallMerge : Net Unit _)
      [⟨Query.entropy, (0 : ℕ)⟩] (.ok (smallTx.finish
        ⟨"a+d+e+f+g+h+i", smallMerge.map toTxInput,
          [{ satoshis := 9 * coin - 1087, pubKeyHash := some "faucet" }], none⟩
        ⟨"faucet", "Xfaucet"⟩ (9 * coin))) :=
    ⟨(0 : ℕ), [], rfl, rfl, rfl⟩
  exact ⟨hplan, hsafe, ⟨_, _, hbuilt, hreaches rfl hbuilt⟩, loose, hplan', hloose⟩

end Faucet

end DashFaucet

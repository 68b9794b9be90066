import DashFaucet.Selection
import DashFaucet.Treasury.Maintenance
import DashFaucet.Treasury.Meets.View

/-!
# Maintenance and snapshots keep to the contract

A merge plan picks coins of the view it was made from (`Faucet.MergesFrom`), so a merge, like a
split, spends distinct coins that are not locked.

* `Faucet.maintain_meets`, `Faucet.snapshot_meets`.
-/

namespace DashFaucet

open Async Relation List

/-! ### A merge plan picks coins of its view -/

namespace FaucetConfig

variable {cfg : FaucetConfig}

theorem without_sublist (kept l : List Utxo) : without kept l <+ l := List.filter_sublist

theorem material_subperm (utxos : List Utxo) (goal : ℕ) : cfg.material utxos goal <+~ utxos := by
  refine (without_sublist _ _).subperm.trans ?_
  have hdesc : descendingSats (utxos.filter fun u => u.satoshis < goal) ~
      utxos.filter fun u => u.satoshis < goal := List.perm_insertionSort _ _
  exact hdesc.subperm.trans List.filter_sublist.subperm

theorem spare_subperm (utxos : List Utxo) (goal : ℕ) : cfg.spare utxos goal <+~ utxos :=
  (without_sublist _ _).subperm.trans (cfg.material_subperm utxos goal)

theorem mergeMaterial_subperm (utxos : List Utxo) (goal : ℕ) :
    cfg.mergeMaterial utxos goal <+~ utxos := by
  unfold mergeMaterial
  split
  · exact cfg.spare_subperm utxos goal
  · exact cfg.material_subperm utxos goal

end FaucetConfig

namespace Faucet

variable {f : Faucet} {op : Op} {now : ℤ}

/-- A plan merges coins of the view. -/
def MergesFrom (view : UtxoSnapshot) : MergePlan → Prop
  | .merge inputs _ => inputs <+~ view.utxos
  | _ => True

theorem planMerge_mergesFrom (view : UtxoSnapshot) (goal : ℕ) :
    MergesFrom view (f.planMerge view goal) := by
  unfold planMerge
  dsimp only
  split
  · trivial
  · split
    · trivial
    · split
      · trivial
      · exact (DashTx.selectMergeInputs_subperm.trans List.filter_sublist.subperm).trans
          (f.cfg.mergeMaterial_subperm view.utxos goal)

theorem planTidy_mergesFrom {view : UtxoSnapshot} {plan : MergePlan}
    (h : f.cfg.planTidy view = some plan) : MergesFrom view plan := by
  unfold FaucetConfig.planTidy at h
  dsimp only at h
  split at h
  · cases h
  · cases h
    have hasc : ascendingSats ((f.cfg.spare view.utxos collateralCoinSats).filter
        (·.height.isSome)) ~ (f.cfg.spare view.utxos collateralCoinSats).filter
        (·.height.isSome) := List.perm_insertionSort _ _
    exact ((List.take_sublist _ _).subperm.trans hasc.subperm).trans
      (List.filter_sublist.subperm.trans (f.cfg.spare_subperm view.utxos collateralCoinSats))

/-- With no goal in reach, loose coins may still be tidied. -/
theorem tidied_mergesFrom {view : UtxoSnapshot} {plan : MergePlan} :
    MergesFrom view plan → MergesFrom view (match plan with
      | .none _ => if f.merging then (f.cfg.planTidy view).getD plan else plan
      | _ => plan) := by
  intro h
  split
  · split
    · cases ht : f.cfg.planTidy view with
      | none => exact h
      | some plan' => exact planTidy_mergesFrom ht
    · trivial
  · exact h

/-! ### Merge demands -/

/-- Only merge demands changed. -/
def Redemanded (s t : State) : Prop :=
  ∃ demands, t = s.withLedger fun l => { l with mergeDemand := demands }

theorem Redemanded.refl (s : State) : Redemanded s s := ⟨s.ledger.mergeDemand, rfl⟩

theorem Redemanded.trans {s t u : State} (h : Redemanded s t) (h' : Redemanded t u) :
    Redemanded s u := by
  obtain ⟨demands, rfl⟩ := h
  obtain ⟨demands', rfl⟩ := h'
  exact ⟨demands', rfl⟩

theorem Redemanded.filterDemand (p : MergeDemand → Bool) (s : State) :
    Redemanded s (s.filterDemand p) := ⟨_, rfl⟩

theorem Redemanded.step {s t : State} (h : Redemanded s t) : Step f op now s t := by
  obtain ⟨demands, rfl⟩ := h
  exact .demand demands

theorem Redemanded.unsettled {s t : State} (h : Redemanded s t) (hs : Unsettled s.trace) :
    Unsettled t.trace := by
  obtain ⟨demands, rfl⟩ := h
  exact hs

theorem Redemanded.offered {view : UtxoSnapshot} {s t : State} (h : Redemanded s t)
    (hview : Offered view s) : Offered view t := by
  obtain ⟨demands, rfl⟩ := h
  exact hview.of_spent rfl

theorem mergeDemand_triple (view : UtxoSnapshot) :
    Triple (f.contract op now) (mergeDemand view) fun s _ t => Redemanded s t := by
  intro s₀ s hs
  simp only [mergeDemand, wp_bind, wp_modify, bindPost_ok, wp_read, wp_pure]
  have hre := Redemanded.filterDemand (fun r => !(r.satoshis ≤ largestSats view.utxos)) s
  exact ⟨hs.tail hre.step, hre⟩

theorem planGoals_triple (view : UtxoSnapshot) (demand : ℕ) (goals : List ℕ) (plan : MergePlan)
    (hplan : MergesFrom view plan) :
    Triple (f.contract op now) (f.planGoals view demand goals plan) fun s r t =>
      Redemanded s t ∧ ∀ plan', r = .ok plan' → MergesFrom view plan' := by
  -- a goal that nothing reaches only drops its demand
  induction goals generalizing plan with
  | nil =>
    intro s₀ s hs
    refine ⟨hs, .refl s, fun plan' hr => ?_⟩
    cases hr
    exact hplan
  | cons goal goals ih =>
    intro s₀ s hs
    have hmerges := planMerge_mergesFrom (f := f) view goal
    unfold planGoals
    split
    · next detail _ =>
      split
      · simp only [wp_bind, wp_modify, bindPost_ok]
        have hre := Redemanded.filterDemand (fun r => !(r.satoshis ≥ demand)) s
        refine (ih (.none detail) trivial).wp (hs.tail hre.step) fun r t₀ t hg hr => ?_
        exact ⟨hg, hre.trans hr.1, hr.2⟩
      · exact ih (.none detail) trivial s₀ s hs
    · refine ⟨hs, .refl s, fun plan' hr => ?_⟩
      cases hr
      exact hmerges

/-! ### Merging and splitting -/

/-- Building settles nothing. -/
theorem unsettled_noteBuilt {s : State} (hun : Unsettled s.trace) (tx : BuiltTx) :
    Unsettled (s.note (.built tx)).trace ∧ .built tx ∈ (s.note (.built tx)).trace := by
  refine ⟨fun tx' outcome he => ?_, List.mem_append_right _ List.mem_cons_self⟩
  rcases List.mem_append.mp he with he | he
  · exact hun tx' outcome he
  · cases List.mem_singleton.mp he

/-- A broadcast of maintenance: whatever the outcome, the bookkeeping is a step. -/
theorem wp_settle_maintain {α : Type} {tx : BuiltTx} {k : BroadcastSettlement → Prog α}
    {s₀ s : State} (hs : (f.contract .maintain now).guar s₀ s)
    (honce : Unsettled s.trace ∧ .built tx ∈ s.trace)
    (hfailed : ∀ result uncertain t₀ t, (f.contract .maintain now).guar t₀ t →
      wp (f.contract .maintain now) (fun _ t₀ t => (f.contract .maintain now).guar t₀ t)
        (k (.failed result uncertain)) t₀ t)
    (hok : ∀ accepted t₀ t, (f.contract .maintain now).guar t₀ (t.recordSpend tx now) →
      wp (f.contract .maintain now) (fun _ t₀ t => (f.contract .maintain now).guar t₀ t)
        (k (.ok accepted)) t₀ t) :
    wp (f.contract .maintain now) (fun _ t₀ t => (f.contract .maintain now).guar t₀ t)
      (f.settleBroadcast tx now >>= k) s₀ s := by
  rw [wp_bind]
  refine wp_settle hs (fun _ => honce) (fun es e t₀ t _ _ hg => hg)
    fun es outcome locks t₀ t hset _ _ hg hbooks => ?_
  cases outcome with
  | failed result uncertain => exact hfailed result uncertain t₀ _ (hbooks _ (.unmaintained rfl))
  | ok accepted => exact hok accepted t₀ _ (hbooks _ (.maintained rfl))

theorem wp_merge {key : FaucetKey} {view : UtxoSnapshot} {inputs : List Utxo} {reaches : Bool}
    (hsub : inputs <+~ view.utxos) {s₀ s : State} (hs : (f.contract .maintain now).guar s₀ s)
    (hun : Unsettled s.trace) (hview : Offered view s) :
    wp (f.contract .maintain now) (fun _ t₀ t => (f.contract .maintain now).guar t₀ t)
      (f.merge key inputs reaches now) s₀ s := by
  unfold merge
  split
  · exact hs
  · simp only [wp_bind, wp_attempt]
    refine wp_reads DashTx.reads_buildConsolidation hs fun es r t₀ t hes hlooks hledger _ hg => ?_
    cases r with
    | error e => exact hg
    | ok built =>
      -- the wallet has not moved while the transaction was signed
      have hbuilt := (hview.of_spent (congrArg Ledger.spent hledger)).buildable (f := f)
        fun hd => (DashTx.buildConsolidation_spends hd hes).mono hsub
      simp only [bindPost_ok, wp_bind, note, wp_modify]
      rw [← wp_bind]
      refine wp_settle_maintain (hg.tail (.build hbuilt fun input hop => by cases hop))
        (unsettled_noteBuilt (hlooks.unsettled hun) built)
          (fun result uncertain u₀ u hg => hg) fun accepted u₀ u hg => ?_
      simpa using hg

theorem wp_split {key : FaucetKey} {view : UtxoSnapshot} {biggest : Utxo} {poolCount : ℕ}
    (hmem : biggest ∈ view.utxos) {s₀ s : State} (hs : (f.contract .maintain now).guar s₀ s)
    (hun : Unsettled s.trace) (hview : Offered view s) :
    wp (f.contract .maintain now) (fun _ t₀ t => (f.contract .maintain now).guar t₀ t)
      (f.split key biggest poolCount now) s₀ s := by
  unfold split
  dsimp only
  split
  · exact hs
  split
  · exact hs
  · simp only [wp_bind, wp_attempt]
    refine wp_reads DashTx.reads_buildSplit hs fun es r t₀ t hes hlooks hledger _ hg => ?_
    cases r with
    | error e => exact hg
    | ok built =>
      -- the wallet has not moved while the transaction was signed
      have hbuilt := (hview.of_spent (congrArg Ledger.spent hledger)).buildable (f := f)
        fun hd => (DashTx.buildSplit_spends hd hes).mono
          (List.singleton_sublist.mpr hmem).subperm
      simp only [bindPost_ok, wp_bind, note, wp_modify]
      rw [← wp_bind]
      refine wp_settle_maintain (hg.tail (.build hbuilt fun input hop => by cases hop))
        (unsettled_noteBuilt (hlooks.unsettled hun) built)
          (fun result uncertain u₀ u hg => hg) fun accepted u₀ u hg => ?_
      simpa using hg

/-! ### The two operations -/

theorem wp_consolidate {key : FaucetKey} {view : UtxoSnapshot} {poolCount : ℕ} {s₀ s : State}
    (hs : (f.contract .maintain now).guar s₀ s) (hun : Unsettled s.trace)
    (hview : Offered view s) :
    wp (f.contract .maintain now) (fun _ t₀ t => (f.contract .maintain now).guar t₀ t)
      (f.consolidate key view poolCount now) s₀ s := by
  simp only [consolidate, wp_bind]
  refine (mergeDemand_triple view).wp hs fun r t₀ t hg hre => ?_
  cases r with
  | error e => exact hg
  | ok demand =>
    simp only [bindPost_ok, wp_bind]
    refine (planGoals_triple view demand _ (.none _) trivial).wp hg
      fun r u₀ u hg' hplanned => ?_
    obtain ⟨hre', hplan⟩ := hplanned
    cases r with
    | error e => exact hg'
    | ok plan =>
      rw [bindPost_ok]
      -- planning drops demands and nothing else, so what was offered stays offered
      have hview' := hre'.offered (hre.offered hview)
      have hmerges := hplan plan rfl
      split
      · next inputs reaches heq =>
        have htidy : MergesFrom view (.merge inputs reaches) := by
          rw [← heq]
          exact tidied_mergesFrom hmerges
        exact wp_merge htidy hg' (hre'.unsettled (hre.unsettled hun)) hview'
      · exact hg'
      · exact hg'

/-- The coin to split is one of the view, whether it is spare or not. -/
theorem mem_of_splittable {view : UtxoSnapshot} {biggest : Utxo}
    (h : ((descendingSats view.utxos).find? fun u => !f.isKept u && f.fundsTwo u).or
      (descendingSats view.utxos).head? = some biggest) : biggest ∈ view.utxos := by
  have hdesc : descendingSats view.utxos ~ view.utxos := List.perm_insertionSort _ _
  refine hdesc.subset ?_
  cases hfind : (descendingSats view.utxos).find? fun u => !f.isKept u && f.fundsTwo u with
  | none =>
    rw [hfind, Option.none_or] at h
    exact List.mem_of_mem_head? h
  | some u =>
    rw [hfind, Option.some_or] at h
    cases h
    exact List.mem_of_find?_eq_some hfind

theorem wp_refill {key : FaucetKey} {view : UtxoSnapshot} {poolCount : ℕ} {s₀ s : State}
    (hs : (f.contract .maintain now).guar s₀ s) (hun : Unsettled s.trace)
    (hview : Offered view s) :
    wp (f.contract .maintain now) (fun _ t₀ t => (f.contract .maintain now).guar t₀ t)
      (f.refill key view poolCount now) s₀ s := by
  unfold refill
  dsimp only
  split
  · next inputs reaches heq =>
    split at heq
    · have hmerges := planMerge_mergesFrom (f := f) view ((200 * f.cfg.poolUtxoSats + 98) / 99)
      rw [heq] at hmerges
      exact wp_merge hmerges hs hun hview
    · cases heq
  · split
    · exact hs
    · next biggest hbig => exact wp_split (mem_of_splittable hbig) hs hun hview

theorem wp_maintainLocked {s : State} (hstart : s.trace = []) :
    wp (f.contract .maintain now) (fun _ t₀ t => (f.contract .maintain now).guar t₀ t)
      (f.maintainLocked now) s s := by
  simp only [maintainLocked, wp_bind, wp_modify, bindPost_ok]
  refine wp_reads reads_key (.single (.prune hstart)) fun es r t₀ t _ hlooks _ _ hg => ?_
  cases r with
  | error e => exact hg
  | ok key =>
    simp only [bindPost_ok, wp_bind, wp_attempt]
    refine (spendableUtxos_triple key).wp hg fun r u₀ u hg' hfound => ?_
    obtain ⟨hlooks', -, hview⟩ := hfound
    cases r with
    | error e => exact hg'
    | ok view =>
      rw [bindPost_ok]
      obtain ⟨hoff, -⟩ := hview view rfl
      -- a pass begins with nothing settled, and only looked around since
      have hfresh : Unsettled (s.prune f.cfg now).trace := by
        intro tx outcome he
        rw [show (s.prune f.cfg now).trace = [] from hstart] at he
        cases he
      have hun := hlooks'.unsettled (hlooks.unsettled hfresh)
      dsimp only
      split
      · exact wp_consolidate hg' hun hoff
      · exact wp_refill hg' hun hoff

theorem maintain_meets (now : ℤ) (s : State) :
    Actor.Meets (M := f.treasury) f.contract f.EndsWell .maintain now s := by
  have hend : ∀ (r : Except Thrown Reply) t₀ t, (f.contract .maintain now).guar t₀ t →
      Actor.endsIn (M := f.treasury) f.contract f.EndsWell .maintain now r t₀ t :=
    fun r t₀ t hg => ⟨hg, fun _ hop => (by cases hop), fun _ hop => (by cases hop)⟩
  simp only [Actor.Meets, program, maintain, wp_bind]
  refine wp_mono (fun r t₀ t hg => ?_) (wp_maintainLocked rfl)
  cases r with
  | error e => exact hend _ _ _ hg
  | ok result =>
    rw [bindPost_ok]
    -- the pass is over: at most the next one is booked
    cases result.action with
    | split | consolidate | waiting =>
      simp only [wp_bind]
      refine wp_reads (reads_scheduleMaintenance _) hg fun es r u₀ u _ _ _ _ hg' => ?_
      cases r <;> exact hend _ _ _ hg'
    | none | blocked =>
      simp only
      exact hend _ _ _ hg

theorem snapshot_meets (now : ℤ) (s : State) :
    Actor.Meets (M := f.treasury) f.contract f.EndsWell .snapshot now s := by
  have hend : ∀ (r : Except Thrown Reply) t₀ t, (f.contract .snapshot now).guar t₀ t →
      Actor.endsIn (M := f.treasury) f.contract f.EndsWell .snapshot now r t₀ t :=
    fun r t₀ t hg => ⟨hg, fun _ hop => (by cases hop), fun _ hop => (by cases hop)⟩
  simp only [Actor.Meets, program, snapshot, wp_bind, wp_ofExcept]
  cases f.faucetKey with
  | error e => exact hend _ _ _ .refl
  | ok key =>
    simp only [bindPost_ok, wp_bind, wp_modify]
    refine (spendableUtxos_triple key).wp (.single (.prune rfl)) fun r u₀ u hg _ => ?_
    cases r with
    | error e => exact hend _ _ _ hg
    | ok view => exact hend _ _ _ hg

end Faucet

end DashFaucet

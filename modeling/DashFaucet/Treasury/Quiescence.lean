import DashFaucet.Chain.Tip
import DashFaucet.Treasury.Passes

/-!
# Maintenance quiesces

A closed system: nothing enters or leaves the wallet but what maintenance itself broadcasts, and
that is confirmed before the next pass. Then maintenance stops splitting and merging.

A merge takes at least one coin away and keeps the pool (`SafeMerge`), and a split adds pool coins
as long as there are too few. So `effort`, the coins and twice the pool coins that are missing,
falls with every pass. It does if pool coins are no collateral coins, `PoolApart`. Where they are, a
coin made for the pool does not count for it, and what one pass splits the next merges again
(`Faucet.maintenance_cycles`), until fees have eaten the coins: every transaction burns its fee, so
the value of the wallet bounds the number of passes, whatever the configuration.

* `AtRest`: the ledger agrees with the wallet. Then the view is the wallet.
* `Faucet.Pass`, `Faucet.Passes`: passes of a closed system.
* `Faucet.Reshapes.worth`, `Faucet.Reshapes.effort`: what one transaction does to the two measures.
* `Faucet.maintenance_quiesces`: the bounds.
* `Faucet.pass`: a pass computed, for the cycle.
-/

namespace DashFaucet

open Async List

/-! ### The wallet -/

/-- What the chain says of a coin: where it is and what it is worth. -/
def Utxo.output (u : Utxo) : Outpoint × ℕ := (u.outpoint, u.satoshis)

/-- What the chain will say of an output of ours. -/
def OwnOutput.output (o : OwnOutput) : Outpoint × ℕ := (o.outpoint, o.satoshis)

/-- The wallet `w` became `w'` when `built` was confirmed: the inputs are gone and the outputs
there. -/
def Confirms (built : BuiltTx) (w w' : List Utxo) : Prop :=
  w'.map Utxo.output ~ (w.filter fun u => !built.inputs.contains u.outpoint).map Utxo.output ++
    built.ownOutputs.map OwnOutput.output

/-- The ledger agrees with the wallet: none of its coins is locked, and what we still hold as
pending is in it. -/
structure AtRest (l : Ledger) (w : List Utxo) : Prop where
  free : ∀ r ∈ l.spent.rows, r.outpoint ∉ w.map Utxo.outpoint
  landed : ∀ r ∈ l.pending.rows, r.outpoint ∈ w.map Utxo.outpoint

namespace Confirms

variable {built : BuiltTx} {w w' : List Utxo}

/-- The coins of the new wallet are old ones, or outputs of the transaction. -/
theorem mem (h : Confirms built w w') {o : Outpoint} (ho : o ∈ w'.map Utxo.outpoint) :
    (o ∈ w.map Utxo.outpoint ∧ o ∉ built.inputs) ∨
      o ∈ built.ownOutputs.map OwnOutput.outpoint := by
  obtain ⟨u, hu, rfl⟩ := List.mem_map.mp ho
  rcases List.mem_append.mp (h.subset (List.mem_map_of_mem hu)) with hold | hnew
  · obtain ⟨v, hv, heq⟩ := List.mem_map.mp hold
    obtain ⟨hv, hkept⟩ := List.mem_filter.mp hv
    have hout : v.outpoint = u.outpoint := congrArg Prod.fst heq
    rw [Bool.not_eq_true', ← Bool.not_eq_true, List.contains_iff_mem, hout] at hkept
    exact .inl ⟨List.mem_map.mpr ⟨v, hv, hout⟩, hkept⟩
  · obtain ⟨v, hv, heq⟩ := List.mem_map.mp hnew
    exact .inr (List.mem_map.mpr ⟨v, hv, congrArg Prod.fst heq⟩)

/-- The outputs of the transaction are in the new wallet. -/
theorem own (h : Confirms built w w') {o : Outpoint}
    (ho : o ∈ built.ownOutputs.map OwnOutput.outpoint) : o ∈ w'.map Utxo.outpoint := by
  obtain ⟨v, hv, rfl⟩ := List.mem_map.mp ho
  have hmem := h.symm.subset (List.mem_append_right _ (List.mem_map_of_mem hv))
  obtain ⟨u, hu, heq⟩ := List.mem_map.mp hmem
  exact List.mem_map.mpr ⟨u, hu, congrArg Prod.fst heq⟩

/-- The new wallet has distinct coins, if the transaction is new. -/
theorem nodup (h : Confirms built w w') (hw : (w.map Utxo.outpoint).Nodup)
    (hown : (built.ownOutputs.map OwnOutput.outpoint).Nodup)
    (hnew : ∀ o ∈ built.ownOutputs.map OwnOutput.outpoint, o ∉ w.map Utxo.outpoint) :
    (w'.map Utxo.outpoint).Nodup := by
  have hperm := h.map Prod.fst
  rw [List.map_append, List.map_map, List.map_map, List.map_map] at hperm
  apply hperm.nodup_iff.mpr
  refine List.nodup_append.mpr ⟨hw.sublist (List.filter_sublist.map _), hown, ?_⟩
  rintro o ho _ ho' rfl
  exact hnew o ho' ((List.filter_sublist.map _).subset ho)

/-- The new wallet in numbers: coins, coins of a kind, and value. -/
theorem length_eq (h : Confirms built w w') :
    w'.length = (w.filter fun u => !built.inputs.contains u.outpoint).length +
      built.ownOutputs.length := by
  have hlen := List.Perm.length_eq h
  rwa [List.length_map, List.length_append, List.length_map, List.length_map] at hlen

theorem count_eq (h : Confirms built w w') (p : ℕ → Bool) :
    (w'.filter fun u => p u.satoshis).length =
      ((w.filter fun u => !built.inputs.contains u.outpoint).filter fun u => p u.satoshis).length +
        (built.ownOutputs.filter fun o => p o.satoshis).length := by
  have hcount := h.countP_eq fun x => p x.2
  rw [List.countP_append, List.countP_map, List.countP_map, List.countP_map] at hcount
  rw [← List.countP_eq_length_filter, ← List.countP_eq_length_filter,
    ← List.countP_eq_length_filter]
  exact hcount

theorem sumSats_eq (h : Confirms built w w') :
    sumSats w' = sumSats (w.filter fun u => !built.inputs.contains u.outpoint) + built.ownSats := by
  have hsum := (h.map Prod.snd).sum_eq
  rw [List.map_append, List.sum_append, List.map_map, List.map_map, List.map_map] at hsum
  exact hsum

end Confirms

/-! ### The view of a wallet at rest -/

namespace Ledger

/-- A listing of distinct coins is its own map. -/
theorem byOutpoint_eq {utxos : List Utxo} (h : (utxos.map Utxo.outpoint).Nodup) :
    byOutpoint utxos = utxos := by
  suffices key : ∀ (us m : List Utxo), ((m ++ us).map Utxo.outpoint).Nodup →
      us.foldl (fun m u =>
        if m.any fun v => v.outpoint = u.outpoint then
          m.map fun v => if v.outpoint = u.outpoint then u else v
        else m ++ [u]) m = m ++ us from key utxos [] h
  intro us
  induction us with
  | nil => exact fun m _ => (List.append_nil m).symm
  | cons u us ih =>
    intro m hm
    -- this outpoint was not seen before
    have hnew : (m.any fun v => decide (v.outpoint = u.outpoint)) = false := by
      rw [List.any_eq_false]
      intro v hv heq
      rw [List.map_append, List.nodup_append] at hm
      exact hm.2.2 v.outpoint (List.mem_map_of_mem hv) u.outpoint
        (List.mem_map_of_mem List.mem_cons_self) (of_decide_eq_true heq)
    rw [List.foldl_cons, hnew, if_neg Bool.false_ne_true, ih, List.append_assoc,
      List.singleton_append]
    rwa [List.append_assoc, List.singleton_append]

end Ledger

namespace AtRest

variable {l : Ledger} {w : List Utxo} {now : ℤ}

/-- Pruning forgets no lock and keeps no more than there was. -/
theorem prune (h : AtRest l w) (cfg : FaucetConfig) (now : ℤ) : AtRest (l.prune cfg now) w where
  free := h.free
  landed r hr := h.landed r (Table.mem_deleteWhere.mp hr).1

/-- Reconciled with the wallet, the ledger holds nothing pending. -/
theorem pending_reconcile (h : AtRest l w) :
    (l.reconcile (w.map Utxo.outpoint) now).pending.rows = [] := by
  apply List.eq_nil_iff_forall_not_mem.mpr
  intro r hr
  obtain ⟨hold, hout, -⟩ := Ledger.mem_pending_reconcile.mp hr
  exact hout (h.landed r hold)

theorem free_reconcile (h : AtRest l w) {u : Utxo} (hu : u ∈ w) :
    (l.reconcile (w.map Utxo.outpoint) now).isSpent u.outpoint = false := by
  rw [← Bool.not_eq_true, Ledger.isSpent_iff]
  rintro ⟨r, hr, heq⟩
  apply h.free r (Ledger.mem_spent_reconcile.mp hr).1
  rw [heq]
  exact List.mem_map_of_mem hu

/-- **The view is the wallet.** -/
theorem view_eq (h : AtRest l w) (hw : (w.map Utxo.outpoint).Nodup) (script : String) :
    l.view script w now = w := by
  have hlive : w.filter (fun u =>
      !(l.reconcile (w.map Utxo.outpoint) now).isSpent u.outpoint) = w := by
    apply List.filter_eq_self.mpr
    intro u hu
    rw [h.free_reconcile hu]
    rfl
  unfold Ledger.view Ledger.spendable
  rw [h.pending_reconcile, Ledger.byOutpoint_eq hw]
  show List.filter (fun u => !([] : List String).contains u.txid) (List.filter (fun u =>
    !(l.reconcile (w.map Utxo.outpoint) now).isSpent u.outpoint) (w ++ [])) = w
  rw [List.append_nil, hlive]
  exact List.filter_eq_self.mpr fun _ _ => rfl

/-- **A pass leaves the ledger at rest** with the wallet after it, if its transaction is new. -/
theorem recordSpend (h : AtRest l w) {w' : List Utxo} {built : BuiltTx}
    (demands : List MergeDemand) (hin : ∀ o ∈ built.inputs, o ∈ w.map Utxo.outpoint)
    (hown : ∀ o ∈ built.ownOutputs, o.txid = built.txid)
    (hfresh : Ledger.Fresh built.txid w l) (hconfirms : Confirms built w w') :
    AtRest ({ l.reconcile (w.map Utxo.outpoint) now with mergeDemand := demands }.recordSpend built
      now) w' where
  free r hr hmem := by
    have hrow : r.outpoint ∉ w.map Utxo.outpoint ∧ r.outpoint.txid ≠ built.txid ∨
        r.outpoint ∈ built.inputs := by
      rcases Ledger.mem_spent_lockInputs.mp hr with ⟨hr, -⟩ | ⟨hin, -⟩
      · have hold := (Ledger.mem_spent_reconcile.mp hr).1
        exact .inl ⟨h.free r hold, hfresh.spent r hold⟩
      · exact .inr hin
    -- it is an old coin that was no input, or an output of a new transaction
    rcases hconfirms.mem hmem with ⟨hw, hkept⟩ | hnew
    · exact hrow.elim (fun hrow => hrow.1 hw) hkept
    · obtain ⟨v, hv, heq⟩ := List.mem_map.mp hnew
      have htxid : r.outpoint.txid = built.txid := by
        rw [← heq]
        exact hown v hv
      rcases hrow with ⟨-, hne⟩ | hinput
      · exact hne htxid
      · obtain ⟨u, hu, heq'⟩ := List.mem_map.mp (hin _ hinput)
        apply hfresh.listed u hu
        rw [← htxid, ← heq']
        rfl
  landed r hr := by
    rcases Ledger.of_mem_pending_recordOutputs hr with hold | hnew
    · have hnone : r ∈ (l.reconcile (w.map Utxo.outpoint) now).pending.rows := hold
      rw [h.pending_reconcile] at hnone
      cases hnone
    · exact hconfirms.own hnew

end AtRest

/-! ### What one transaction does to the wallet -/

namespace Faucet

/-- No coin of pool size is kept as a collateral coin. -/
def PoolApart (f : Faucet) : Prop :=
  f.cfg.collateralCoins = 0 ∨ 2 * f.cfg.poolUtxoSats ≤ collateralCoinSats

/-- The coins of a wallet, and twice the pool coins that are missing. -/
def effort (f : Faucet) (w : List Utxo) : ℕ :=
  w.length + 2 * (f.cfg.poolTarget - (w.filter f.cfg.isPoolCoin).length)

variable {f : Faucet} {view : UtxoSnapshot} {inputs w' : List Utxo} {built : BuiltTx}

theorem Planned.subperm (h : f.Planned view inputs) : inputs <+~ view.utxos := by
  rcases h with ⟨goal, reaches, -, hplan⟩ | ⟨reaches, hplan⟩
  · have hfrom := planMerge_mergesFrom (f := f) view goal
    rw [hplan] at hfrom
    exact hfrom
  · exact planTidy_mergesFrom hplan

theorem Planned.safe (h : f.Planned view inputs) (hview : (view.utxos.map Utxo.outpoint).Nodup) :
    SafeMerge f.cfg view inputs := by
  rcases h with ⟨goal, reaches, hgoal, hplan⟩ | ⟨reaches, hplan⟩
  · exact planMerge_safe hview hgoal hplan
  · obtain ⟨inputs', heq, hsafe, -⟩ := planTidy_safe hview hplan
    cases heq
    exact hsafe

namespace Reshapes

/-- Maintenance spends coins of its view, and pays only the faucet. -/
theorem spends (hd : f.dash.Faithful) (h : f.Reshapes view built) :
    DashTx.Spends view.utxos 0 built := by
  cases h with
  | split hcoin htwo h =>
    exact (DashTx.buildSplit_spends hd h).mono (List.singleton_sublist.mpr hcoin).subperm
  | merge hplan h => exact (DashTx.buildConsolidation_spends hd h).mono hplan.subperm

/-- It pays a fee. -/
theorem fee_pos (hd : f.dash.Faithful) (hfee : ∀ i o, 0 < f.dash.appraiseMax i o)
    (h : f.Reshapes view built) : 0 < built.fee := by
  have hceiling : ∀ i o, 0 < f.dash.feeCeiling i o := fun i o => Nat.add_pos_left (hfee i o) _
  cases h with
  | split hcoin htwo h =>
    obtain ⟨-, -, n, hle⟩ := DashTx.buildSplit_made hd h
    exact lt_of_lt_of_le (Int.natCast_pos.mpr (hceiling _ _)) hle
  | merge hplan h =>
    obtain ⟨-, heq⟩ := DashTx.buildConsolidation_made hd h
    rw [heq]
    exact Int.natCast_pos.mpr (hceiling _ _)

/-- **The wallet is worth less after every transaction**, by the fee. -/
theorem worth (hd : f.dash.Faithful) (hfee : ∀ i o, 0 < f.dash.appraiseMax i o)
    (h : f.Reshapes view built) (hview : (view.utxos.map Utxo.outpoint).Nodup)
    (hconfirms : Confirms built view.utxos w') : sumSats w' < sumSats view.utxos := by
  obtain ⟨coins, hsub, hin, hsum⟩ := (h.spends hd).selected
  have hpos := h.fee_pos hd hfee
  rw [hconfirms.sumSats_eq, DashTx.sumSats_split hview hsub hin]
  omega

end Reshapes

/-- A split is of a coin too large for the pool. -/
theorem not_isPoolCoin_of_splitCount (hpool : 1 ≤ f.cfg.poolUtxoSats) {wanted : ℤ} {u : Utxo}
    (h : 2 ≤ f.splitCount wanted u.satoshis) : f.cfg.isPoolCoin u = false := by
  unfold splitCount at h
  rw [if_neg (by omega)] at h
  have hfunds : 2 ≤ 99 * u.satoshis / (100 * f.cfg.poolUtxoSats) := by omega
  rw [Nat.le_div_iff_mul_le (by omega)] at hfunds
  have hlarge : ¬u.satoshis < 2 * f.cfg.poolUtxoSats := by omega
  rw [FaucetConfig.isPoolCoin, decide_eq_false hlarge, Bool.and_false]

theorem splitCount_le (hpool : 1 ≤ f.cfg.poolUtxoSats) (wanted : ℤ) (satoshis : ℕ) :
    f.splitCount wanted satoshis ≤ wanted := by
  unfold splitCount
  rw [if_neg (by omega)]
  exact min_le_left _ _

/-- The coins of pool size are all counted in the pool, if none of them is kept. -/
theorem length_filter_isPoolCoin_le (hapart : f.PoolApart) (view : UtxoSnapshot) :
    (view.utxos.filter f.cfg.isPoolCoin).length ≤ (f.poolCoins view).length := by
  apply List.Sublist.length_le
  apply List.monotone_filter_right
  intro u hu
  rw [FaucetConfig.isPoolCoin, Bool.and_eq_true, decide_eq_true_eq, decide_eq_true_eq] at hu
  have hkept : f.isKept u = false := by
    rw [isKept, Bool.and_eq_false_iff, decide_eq_false_iff_not, decide_eq_false_iff_not]
    rcases hapart with hnone | hsmall
    · exact .inl (by omega)
    · exact .inr (by omega)
  rw [hkept, decide_eq_true hu.1]
  rfl

/-- A merge leaves what it does not spend. -/
theorem filter_eq_without {wallet : List Utxo} (hin : built.inputs ~ inputs.map Utxo.outpoint) :
    wallet.filter (fun u => !built.inputs.contains u.outpoint) =
      FaucetConfig.without inputs wallet := by
  apply List.filter_congr
  intro u _
  rw [Bool.not_inj_iff, Bool.eq_iff_iff, List.contains_iff_mem, List.contains_iff_mem, hin.mem_iff]

namespace Reshapes

/-- A merge takes a coin away and keeps the pool. -/
theorem effort_merge (hd : f.dash.Faithful) (hview : (view.utxos.map Utxo.outpoint).Nodup)
    (hplan : f.Planned view inputs) {key : FaucetKey} {es : List Answered}
    (h : Transcript (f.dash.buildConsolidation key inputs : Prog _) es (.ok built))
    (hconfirms : Confirms built view.utxos w') : f.effort w' < f.effort view.utxos := by
  have hsafe := hplan.safe hview
  obtain ⟨hin, -⟩ := DashTx.buildConsolidation_made hd h
  obtain ⟨o, hown, -⟩ := DashTx.buildConsolidation_merged h
  have hcoins := hconfirms.length_eq
  have hpool := hconfirms.count_eq fun x =>
    decide (x ≥ f.cfg.poolUtxoSats) && decide (x < 2 * f.cfg.poolUtxoSats)
  have hkept := hsafe.pool
  rw [← filter_eq_without hin] at hkept
  -- the wallet is what is spent and what is left
  have htaken := (DashTx.filter_inputs_perm hview hplan.subperm hin).length_eq
  have hsplit := List.length_eq_length_filter_add (l := view.utxos)
    fun u => built.inputs.contains u.outpoint
  have htwo := hsafe.two
  rw [hown, List.length_singleton] at hcoins
  unfold effort
  change (w'.filter f.cfg.isPoolCoin).length = ((view.utxos.filter fun u =>
    !built.inputs.contains u.outpoint).filter f.cfg.isPoolCoin).length + _ at hpool
  omega

/-- A split makes more pool coins than other coins. -/
theorem effort_split (hd : f.dash.Faithful) (hpool : 1 ≤ f.cfg.poolUtxoSats) (hapart : f.PoolApart)
    (hview : (view.utxos.map Utxo.outpoint).Nodup) {biggest : Utxo} (hcoin : biggest ∈ view.utxos)
    (htwo : 2 ≤ f.splitCount ((f.cfg.poolTarget : ℤ) - (f.poolCoins view).length) biggest.satoshis)
    {key : FaucetKey} {es : List Answered}
    (h : Transcript (f.dash.buildSplit key [biggest] (f.splitCount
      ((f.cfg.poolTarget : ℤ) - (f.poolCoins view).length) biggest.satoshis).toNat
      f.cfg.poolUtxoSats : Prog _) es (.ok built))
    (hconfirms : Confirms built view.utxos w') : f.effort w' < f.effort view.utxos := by
  have hlarge := not_isPoolCoin_of_splitCount hpool htwo
  have hwanted := splitCount_le hpool ((f.cfg.poolTarget : ℤ) - (f.poolCoins view).length)
    biggest.satoshis
  have hcounted := length_filter_isPoolCoin_le hapart view
  have hspends := DashTx.buildSplit_spends hd h
  obtain ⟨hmade, hfew, -⟩ := DashTx.buildSplit_made hd h
  generalize f.splitCount ((f.cfg.poolTarget : ℤ) - (f.poolCoins view).length) biggest.satoshis =
    count at *
  -- the coin that is split was no pool coin
  have hleft : (view.utxos.filter fun u => !built.inputs.contains u.outpoint).filter
      f.cfg.isPoolCoin = view.utxos.filter f.cfg.isPoolCoin := by
    rw [List.filter_filter]
    apply List.filter_congr
    intro u hu
    rw [Bool.and_eq_left_iff_imp, Bool.not_eq_true', ← Bool.not_eq_true, List.contains_iff_mem]
    intro hsize hinput
    obtain ⟨v, hv, heq⟩ := hspends.exists_of_mem hinput
    rw [List.mem_singleton] at hv
    subst hv
    rw [List.inj_on_of_nodup_map hview hcoin hu heq, hsize] at hlarge
    cases hlarge
  -- the coins it makes are
  have hnew : (built.ownOutputs.filter fun o => o.satoshis = f.cfg.poolUtxoSats).length ≤
      (built.ownOutputs.filter fun o => decide (o.satoshis ≥ f.cfg.poolUtxoSats) &&
        decide (o.satoshis < 2 * f.cfg.poolUtxoSats)).length := by
    apply List.Sublist.length_le
    apply List.monotone_filter_right
    intro o ho
    have heq := of_decide_eq_true ho
    rw [Bool.and_eq_true, decide_eq_true_eq, decide_eq_true_eq]
    omega
  have hcoins := hconfirms.length_eq
  have hleast := List.length_filter_le (fun u => !built.inputs.contains u.outpoint) view.utxos
  have hpools := hconfirms.count_eq fun x =>
    decide (x ≥ f.cfg.poolUtxoSats) && decide (x < 2 * f.cfg.poolUtxoSats)
  change (w'.filter f.cfg.isPoolCoin).length = ((view.utxos.filter fun u =>
    !built.inputs.contains u.outpoint).filter f.cfg.isPoolCoin).length + _ at hpools
  rw [hleft] at hpools
  unfold effort
  omega

/-- **Every transaction lowers the effort.** -/
theorem effort (hd : f.dash.Faithful) (hpool : 1 ≤ f.cfg.poolUtxoSats) (hapart : f.PoolApart)
    (h : f.Reshapes view built) (hview : (view.utxos.map Utxo.outpoint).Nodup)
    (hconfirms : Confirms built view.utxos w') : f.effort w' < f.effort view.utxos := by
  cases h with
  | split hcoin htwo h => exact effort_split hd hpool hapart hview hcoin htwo h hconfirms
  | merge hplan h => exact effort_merge hd hview hplan h hconfirms

end Reshapes

/-! ### Passes of a closed system -/

/-- Nobody reports a height below `tip`. -/
structure Floor (o : ℕ → (q : Query) → Answer q) (tip : JsNumber) : Prop where
  isDouble : tip.IsDouble
  le : ∀ n providers i h, o n (.heights providers) i = .ok h → tip ≤ h

/-- A pass of a closed system that put a transaction on the network: the explorers list the wallet
`w`, whose coins are mature; the pass runs alone; and its transaction, which is new, is confirmed in
`w'`. Whatever else is asked may be answered in any way. -/
inductive Pass (f : Faucet) (w : List Utxo) (s : State) (w' : List Utxo) (s' : State) : Prop where
  | mk {o : ℕ → (q : Query) → Answer q} {now : ℤ} {tip : JsNumber} {result : MaintenanceResult}
      {built : BuiltTx} (hlists : Lists o w) (hfloor : Floor o tip)
      (hripe : ∀ u ∈ w, Ripe (s.ledger.prune f.cfg now) tip u)
      (hran : Ran o (f.maintain now) s (.ok result) s') (hact : Productive result)
      (hbuilt : recordings s'.trace = recordings s.trace ++ [built])
      (hfresh : Ledger.Fresh built.txid w s.ledger) (hconfirms : Confirms built w w')

/-- Consecutive such passes. -/
inductive Passes (f : Faucet) : ℕ → List Utxo → State → List Utxo → State → Prop where
  | nil (w : List Utxo) (s : State) : Passes f 0 w s w s
  | cons {n : ℕ} {w w₁ w' : List Utxo} {s s₁ s' : State} (hpass : f.Pass w s w₁ s₁)
      (hrest : Passes f n w₁ s₁ w' s') : Passes f (n + 1) w s w' s'

/-- A coin stays ripe when the tip is higher. -/
theorem Ripe.mono {l : Ledger} {tip tip' : JsNumber} {u : Utxo} (h : Ripe l tip u)
    (hle : tip ≤ tip') : Ripe l tip' u := by
  apply h.imp_left
  rintro ⟨height, heq, hdeep⟩
  exact ⟨height, heq, JsNumber.le_add_of_le hdeep (JsNumber.add_le_add_right hle 1)⟩

theorem le_tipHeight_of_ran {o : ℕ → (q : Query) → Answer q} {key : FaucetKey} {now : ℤ}
    {tip : JsNumber} {s s' : State} (hfloor : Floor o tip)
    (h : Ran o (f.spendableUtxos key now) s (.ok view) s') : tip ≤ view.tipHeight := by
  unfold spendableUtxos at h
  obtain ⟨snapshot, t, ⟨n, hres, -⟩, h⟩ := h.bind
  obtain ⟨es, hes, hans, -⟩ := run_quiet alone.emit o
    (f.chain.reads_getUtxos key.address) n s
  rw [hres] at hes
  have hle : tip ≤ snapshot.tipHeight := by
    refine ChainClient.le_getUtxos_tip hfloor.isDouble (fun ps a ha i height heq => ?_) hes
    obtain ⟨m, hm⟩ := hans _ ha
    apply hfloor.le m ps i height
    rw [← heq]
    exact congrFun hm.symm i
  -- the rest of the program keeps the height
  obtain ⟨immature, t₁, -, h⟩ := h.bind
  obtain ⟨u, t₂, -, h⟩ := h.bind
  obtain ⟨s₃, t₃, -, h⟩ := h.bind
  obtain ⟨u', t₄, -, h⟩ := h.bind
  obtain ⟨rfl, -⟩ := h.pure
  exact hle

variable {w : List Utxo} {s s' : State}

/-- **One pass.** It builds from the wallet, and leaves distinct coins and a ledger at rest. -/
theorem Pass.reshapes (hd : f.dash.Faithful) (hpool : 1 ≤ f.cfg.poolUtxoSats)
    (hw : (w.map Utxo.outpoint).Nodup) (hrest : AtRest s.ledger w) (h : f.Pass w s w' s') :
    (w'.map Utxo.outpoint).Nodup ∧ AtRest s'.ledger w' ∧
      ∃ view built, view.utxos = w ∧ f.Reshapes view built ∧ Confirms built w w' := by
  cases h with
  | @mk o now tip result built hlists hfloor hripe hran hact hbuilt hfresh hconfirms =>
  obtain ⟨key, view, s₀, s₁, built', demands, hledger₀, hview, hreshapes, hledger, hrecorded⟩ :=
    maintain_ran hpool hran hact
  -- the transaction that was confirmed is the one that was built
  have hsame : built' = built := by
    rw [hrecorded] at hbuilt
    exact List.head_eq_of_cons_eq (List.append_cancel_left hbuilt)
  subst hsame
  -- the view is the wallet: everything in it is ripe, and the books hold nothing else
  have hripe' : ∀ u ∈ w, Ripe s₀.ledger view.tipHeight u := by
    intro u hu
    rw [hledger₀]
    exact (hripe u hu).mono (le_tipHeight_of_ran hfloor hview)
  have hrest₀ : AtRest s₀.ledger w := by
    rw [hledger₀]
    exact hrest.prune f.cfg now
  obtain ⟨hutxos, hledger₁⟩ := spendableUtxos_ran hview hlists hripe'
  rw [hrest₀.view_eq hw] at hutxos
  have hspends := hreshapes.spends hd
  have hin : ∀ i ∈ built'.inputs, i ∈ w.map Utxo.outpoint := by
    intro i hi
    obtain ⟨u, hu, rfl⟩ := hspends.exists_of_mem hi
    rw [hutxos] at hu
    exact List.mem_map_of_mem hu
  have hfresh₀ : Ledger.Fresh built'.txid w s₀.ledger := by
    rw [hledger₀]
    exact ⟨hfresh.listed, fun r hr =>
      hfresh.pending r (Table.mem_deleteWhere.mp hr).1, hfresh.spent⟩
  refine ⟨?_, ?_, view, built', hutxos, hreshapes, hconfirms⟩
  · apply hconfirms.nodup hw (Ledger.ownOutputs_nodup hspends.own_nodup)
    -- an output of the new transaction was not listed before
    rintro i hi hlisted
    obtain ⟨v, hv, rfl⟩ := List.mem_map.mp hi
    obtain ⟨u, hu, heq⟩ := List.mem_map.mp hlisted
    exact hfresh.listed u hu ((congrArg Outpoint.txid heq).trans (hspends.own_txid v hv))
  · rw [hledger, hledger₁]
    exact hrest₀.recordSpend demands hin hspends.own_txid hfresh₀ hconfirms

/-- **Maintenance quiesces.** In a closed system of mature coins, whatever the configuration, there
are no more consecutive passes that split or merge than the wallet is worth in duffs. And unless
collateral coins are kept that have the size of pool coins, there are no more than the wallet has
coins, and twice the pool coins it misses. Assumed of `dashtx`: signing changes nothing, and a
transaction has a fee. -/
theorem maintenance_quiesces (hd : f.dash.Faithful) (hfee : ∀ i o, 0 < f.dash.appraiseMax i o)
    (hpool : 1 ≤ f.cfg.poolUtxoSats) (hw : (w.map Utxo.outpoint).Nodup)
    (hrest : AtRest s.ledger w) {n : ℕ} (h : f.Passes n w s w' s') :
    n + sumSats w' ≤ sumSats w ∧ (f.PoolApart → n + f.effort w' ≤ f.effort w) := by
  -- each pass lowers both measures, and leaves what the next one begins with
  induction h with
  | nil w s => exact ⟨by omega, fun _ => by omega⟩
  | @cons n w w₁ w' s s₁ s' hpass _ ih =>
    obtain ⟨hw₁, hrest₁, view, built, rfl, hreshapes, hconfirms⟩ := hpass.reshapes hd hpool hw hrest
    obtain ⟨hworth, heffort⟩ := ih hw₁ hrest₁
    have hless := hreshapes.worth hd hfee hw hconfirms
    refine ⟨by omega, fun hapart => ?_⟩
    have hlower := hreshapes.effort hd hpool hapart hw hconfirms
    have hlater := heffort hapart
    omega

/-- The small deployment with a pool of three coins, of which two must be there. -/
def pooling : Faucet where
  __ := small
  cfg := { small.cfg with poolMin := 2, poolTarget := 3 }

/-- Its wallet: one coin, too large for the pool. -/
def poolingCoins : List Utxo := [⟨"a", 0, 10 * coin, "faucet", some 1⟩]

/-- The split of that coin. -/
def poolingSplit : BuiltTx :=
  ⟨"a", "id of a", [⟨"a", 0⟩],
    [⟨"id of a", 0, 2 * coin⟩, ⟨"id of a", 1, 2 * coin⟩, ⟨"id of a", 2, 6 * coin - 261⟩],
      261, 10 * coin⟩

/-- The wallet afterwards. -/
def poolingAfter : List Utxo :=
  [⟨"id of a", 0, 2 * coin, "faucet", some 1001⟩, ⟨"id of a", 1, 2 * coin, "faucet", some 1001⟩,
    ⟨"id of a", 2, 6 * coin - 261, "faucet", some 1001⟩]

theorem maintenance_quiesces_pooling :
    ∃ s', pooling.Passes 1 poolingCoins (.initial 0) poolingAfter s' ∧
    1 + sumSats poolingAfter ≤ sumSats poolingCoins ∧
    1 + pooling.effort poolingAfter ≤ pooling.effort poolingCoins := by
  -- the world lists the coin to be split and settles every broadcast
  let o : ℕ → (q : Query) → Answer q := fun _ q =>
    match q with
    | .listing .. => .ok poolingCoins
    | q => smallWorld (.ok "sent") q
  let s' := (Async.run alone.emit o (pooling.maintain 1000) 0 (.initial 0)).2.2
  have hran : Ran o (pooling.maintain 1000) (.initial 0)
      (.ok ⟨.split, "split into 2 coins of 200000000 duffs", some "id of a"⟩) s' :=
    ⟨0, by decide +kernel, rfl⟩
  have hlists : Lists o poolingCoins := by
    intro n p address listed h
    cases h
    rfl
  have hfloor : Floor o 1000 := by
    refine ⟨by decide +kernel, fun n providers i h heq => ?_⟩
    cases heq
    exact JsNumber.refl _
  have hripe : ∀ u ∈ poolingCoins,
      Ripe ((State.initial 0).ledger.prune pooling.cfg 1000) 1000 u := by
    intro u hu
    rw [List.mem_singleton.mp hu]
    exact .inl ⟨1, rfl, by decide +kernel⟩
  have hbuilt : recordings s'.trace = recordings (State.initial 0).trace ++ [poolingSplit] := by
    decide +kernel
  have hconfirms : Confirms poolingSplit poolingCoins poolingAfter := by
    unfold Confirms
    decide
  -- the pass splits, and the chain confirms what it split
  have hpass : pooling.Pass poolingCoins (.initial 0) poolingAfter s' :=
    .mk hlists hfloor hripe hran (.inl rfl) hbuilt ⟨by decide, by decide, by decide⟩ hconfirms
  have hpasses := Passes.cons hpass (.nil _ _)
  obtain ⟨hworth, heffort⟩ := maintenance_quiesces (f := pooling) smallTx_faithful
    (fun i o => by show 0 < 10 + 149 * i + 34 * o; omega) (by decide) (by decide)
    ⟨by decide, by decide⟩ hpasses
  exact ⟨s', hpasses, hworth, heffort (.inl rfl)⟩

/-! ### A cycle -/

/-- The small deployment with a pool of two coins that are as large as a collateral coin, of which
it keeps one. -/
def churning : Faucet where
  __ := small
  cfg :=
    { small.cfg with
      poolMin := 1, poolTarget := 2, poolUtxoSats := 1001 * coin, collateralCoins := 1 }

/-- Its wallet. -/
def churningCoins : List Utxo := ["a", "b", "c", "d", "e", "f"].map collateralCoin

/-- The wallet once a transaction of ours is confirmed. -/
def walletAfter (built : BuiltTx) (w : List Utxo) : List Utxo :=
  (w.filter fun u => !built.inputs.contains u.outpoint) ++
    built.ownOutputs.map fun o => ⟨o.txid, o.outputIndex, o.satoshis, "faucet", some 1000⟩

theorem confirms_walletAfter (built : BuiltTx) (w : List Utxo) :
    Confirms built w (walletAfter built w) := by
  unfold Confirms walletAfter
  rw [List.map_append, List.map_map]
  exact List.Perm.refl _

/-- The world in which this wallet is listed and every broadcast is taken. -/
def takingWorld (w : List Utxo) (_ : ℕ) : (q : Query) → Answer q
  | .listing .. => .ok w
  | q => smallWorld (.ok "sent") q

/-- One pass in that world, and the wallet and the state after it if it put a transaction on the
network. -/
def pass (f : Faucet) (w : List Utxo) (s : State) : Option (List Utxo × State) :=
  let (r, _, s') := Async.run alone.emit (takingWorld w) (f.maintain (s.now + 1000)) 0 s
  match r, (recordings s'.trace).getLast? with
  | .ok result, some built =>
    if (result.action = .split ∨ result.action = .consolidate) ∧
        recordings s'.trace = recordings s.trace ++ [built] ∧
        (∀ u ∈ w, u.height = some 1 ∨
          ((s.ledger.prune f.cfg (s.now + 1000)).coinbaseChecks.find? u.txid).map
            CoinbaseCheck.isCoinbase = some false) ∧
        (∀ u ∈ w, u.txid ≠ built.txid) ∧
        (∀ r ∈ s.ledger.pending.rows, r.outpoint.txid ≠ built.txid) ∧
        ∀ r ∈ s.ledger.spent.rows, r.outpoint.txid ≠ built.txid then
      some (walletAfter built w, s')
    else none
  | _, _ => none

/-- So many passes, one after the other. -/
def passes (f : Faucet) : ℕ → List Utxo → State → Option (List Utxo × State)
  | 0, w, s => some (w, s)
  | n + 1, w, s => (f.pass w s).bind fun next => f.passes n next.1 next.2

/-- What is computed is a pass, -/
theorem pass_of_eq_some (h : f.pass w s = some (w', s')) : f.Pass w s w' s' := by
  unfold pass at h
  rcases hrun : Async.run alone.emit (takingWorld w) (f.maintain (s.now + 1000)) 0 s with ⟨r, m, t⟩
  rw [hrun] at h
  dsimp only at h
  split at h
  · next result built hlast =>
    split at h
    · next hchecks =>
      obtain ⟨hact, hbuilt, hknown, hlisted, hpending, hspent⟩ := hchecks
      cases h
      -- the world of the run lists the wallet at height 1000
      have hlists : Lists (takingWorld w) w := by
        intro n p address listed hanswer
        cases hanswer
        rfl
      have hfloor : Floor (takingWorld w) 1000 := by
        refine ⟨by decide +kernel, fun n providers i height hanswer => ?_⟩
        cases hanswer
        exact JsNumber.refl _
      have hripe : ∀ u ∈ w, Ripe (s.ledger.prune f.cfg (s.now + 1000)) 1000 u := fun u hu =>
        (hknown u hu).imp_left fun hheight => ⟨1, hheight, by decide +kernel⟩
      exact .mk hlists hfloor hripe ⟨0, by rw [hrun], by rw [hrun]⟩ hact hbuilt
        ⟨hlisted, hpending, hspent⟩ (confirms_walletAfter built w)
    · cases h
  · cases h

/-- and so for all of them. -/
theorem passes_of_eq_some {n : ℕ} {w : List Utxo} {s : State}
    (h : f.passes n w s = some (w', s')) : f.Passes n w s w' s' := by
  induction n generalizing w s with
  | zero =>
    cases h
    exact .nil _ _
  | succ n ih =>
    obtain ⟨⟨w₁, s₁⟩, hpass, hrest⟩ := Option.bind_eq_some_iff.mp h
    exact .cons (pass_of_eq_some hpass) (ih hrest)

/-- **Splits and merges in turn.** Six coins as large as pool and collateral coins: none counts for
the pool, so three are merged; the merged coin is split into two pool coins and a rest; and the next
pass finds six coins again. After eight passes, more than the wallet has coins and misses pool
coins, it is where it was, but for the fees. -/
theorem maintenance_cycles :
    1 ≤ churning.cfg.poolUtxoSats ∧ (churningCoins.map Utxo.outpoint).Nodup ∧
    AtRest (State.initial 0).ledger churningCoins ∧
    ∃ w' s', churning.Passes 8 churningCoins (.initial 0) w' s' ∧
      w'.map Utxo.satoshis = List.replicate 5 (1001 * coin) ++ [1001 * coin - 4 * 752] ∧
      churning.effort w' = churning.effort churningCoins ∧ churning.effort churningCoins < 8 := by
  have hrun : (churning.passes 8 churningCoins (.initial 0)).map (fun next =>
      (next.1.map Utxo.satoshis, churning.effort next.1)) =
        some (List.replicate 5 (1001 * coin) ++ [1001 * coin - 4 * 752], 6) := by
    decide +kernel
  obtain ⟨⟨w', s'⟩, hpasses, hsummary⟩ := Option.map_eq_some_iff.mp hrun
  obtain ⟨hcoins, heffort⟩ := Prod.mk.inj hsummary
  exact ⟨by decide, by decide, ⟨by decide, by decide⟩, w', s', passes_of_eq_some hpasses, hcoins,
    heffort.trans (by decide), by decide⟩

end Faucet

end DashFaucet

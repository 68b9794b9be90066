import DashFaucet.Treasury.Runs

/-!
# The balance

The spendable view merges three sources: what an explorer lists, the faucet's own unconfirmed
outputs, and the locks that mask either. When a transaction is recorded, its inputs are masked and
its outputs to the faucet join the view, so the balance moves by what left the faucet and the fee.

* `Ledger.view`: the view of a listing of mature coins, as `spendableUtxos` computes it
  (`Faucet.spendableUtxos_ran`).
* `Ledger.view_recordSpend`: recording swaps the inputs for the outputs, coin by coin.
* `Faucet.Builds`: what the four spenders build from a view.
* `Faucet.balance_conserved`: the balance after a payout, a split, a merge or an asset lock.
-/

namespace DashFaucet

open Async List

/-! ### The ledger -/

namespace Ledger

/-- `recordSpend`, on the ledger. -/
def recordSpend (built : BuiltTx) (now : ℤ) (l : Ledger) : Ledger :=
  ((l.lockInputs built now).recordVerdict built.txid false now).recordOutputs built now

/-- The view of a listing without immature coins. -/
def view (script : String) (utxos : List Utxo) (now : ℤ) (l : Ledger) : List Utxo :=
  (l.reconcile (utxos.map Utxo.outpoint) now).spendable script utxos []

/-- Nothing listed or recorded comes from this transaction. -/
structure Fresh (txid : String) (utxos : List Utxo) (l : Ledger) : Prop where
  listed : ∀ u ∈ utxos, u.txid ≠ txid
  pending : ∀ r ∈ l.pending.rows, r.outpoint.txid ≠ txid
  spent : ∀ r ∈ l.spent.rows, r.outpoint.txid ≠ txid

variable {script txid : String} {utxos : List Utxo} {now : ℤ} {l : Ledger} {built : BuiltTx}

/-- No row of a reconciled ledger is due. -/
theorem not_due_of_reconcile {confirmed : List Outpoint} {r : SpentRow}
    (hr : r ∈ (l.reconcile confirmed now).spent.rows) :
    ¬Settled confirmed now r ∧ ¬Stale confirmed now r := (mem_spent_reconcile.mp hr).2

/-- After recording in a reconciled ledger, reconciling again at the same instant releases
nothing. -/
theorem not_due_of_recordSpend {confirmed : List Outpoint} {r : SpentRow}
    (hr : r ∈ ((l.reconcile confirmed now).recordSpend built now).spent.rows) :
    ¬Settled confirmed now r ∧ ¬Stale confirmed now r := by
  rcases mem_spent_lockInputs.mp hr with ⟨hr, -⟩ | ⟨-, hnow⟩
  · exact not_due_of_reconcile hr
  · -- a lock just taken has no age
    have hage : now - r.createdAt = 0 := by omega
    constructor
    · intro h
      have := h.2
      rw [hage] at this
      exact absurd this (by decide)
    · intro h
      have := h.2
      rw [hage] at this
      exact absurd this (by decide)

/-- An output of ours as a coin of the view. -/
def ownCoin (script : String) (o : OwnOutput) : Utxo :=
  ⟨o.txid, o.outputIndex, o.satoshis, script, none⟩

section Recorded

variable (hfresh : Fresh built.txid utxos l) (hown : ∀ o ∈ built.ownOutputs, o.txid = built.txid)
  (hnodup : (built.ownOutputs.map OwnOutput.outputIndex).Nodup)

/-- The recorded locks are the old ones and the inputs. -/
theorem isSpent_recordSpend (confirmed : List Outpoint) (o : Outpoint) :
    (((l.reconcile confirmed now).recordSpend built now).reconcile confirmed now).isSpent o = true ↔
      (l.reconcile confirmed now).isSpent o = true ∨ o ∈ built.inputs := by
  rw [isSpent_iff, isSpent_iff]
  constructor
  · rintro ⟨r, hr, rfl⟩
    rcases mem_spent_lockInputs.mp (mem_spent_reconcile.mp hr).1 with ⟨hr, -⟩ | ⟨hin, -⟩
    · exact .inl ⟨r, hr, rfl⟩
    · exact .inr hin
  · intro h
    by_cases hin : o ∈ built.inputs
    · have hrow : (⟨o, now⟩ : SpentRow) ∈
          ((l.reconcile confirmed now).recordSpend built now).spent.rows :=
        mem_spent_lockInputs.mpr (.inr ⟨hin, rfl⟩)
      exact ⟨_, mem_spent_reconcile.mpr ⟨hrow, not_due_of_recordSpend hrow⟩, rfl⟩
    · obtain ⟨r, hr, rfl⟩ := h.resolve_right hin
      have hrow : r ∈ ((l.reconcile confirmed now).recordSpend built now).spent.rows :=
        mem_spent_lockInputs.mpr (.inl ⟨hr, hin⟩)
      exact ⟨r, mem_spent_reconcile.mpr ⟨hrow, not_due_of_recordSpend hrow⟩, rfl⟩

include hnodup in
/-- The outputs to the faucet have distinct outpoints. -/
theorem ownOutputs_nodup : (built.ownOutputs.map OwnOutput.outpoint).Nodup := by
  refine List.Nodup.of_map Outpoint.outputIndex ?_
  rw [List.map_map]
  exact hnodup

include hfresh hown hnodup in
/-- The recorded outputs are the old ones and those of the transaction. -/
theorem mem_pending_recordSpend {r : PendingRow} :
    r ∈ (((l.reconcile (utxos.map Utxo.outpoint) now).recordSpend built now).reconcile
        (utxos.map Utxo.outpoint) now).pending.rows ↔
      r ∈ (l.reconcile (utxos.map Utxo.outpoint) now).pending.rows ∨
        ∃ o ∈ built.ownOutputs, r = ⟨o.outpoint, o.satoshis, now⟩ := by
  rw [mem_pending_reconcile, recordSpend, mem_pending_recordOutputs (ownOutputs_nodup hnodup)]
  change (r ∈ (l.reconcile _ now).pending.rows ∧ _ ∨ _) ∧ _ ↔ _
  constructor
  · rintro ⟨⟨hr, -⟩ | hnew, -⟩
    · exact .inl hr
    · exact .inr hnew
  -- the rows the new transaction locks are neither settled nor stale, so they mask nothing
  · intro h
    have hmasked : ¬∃ row ∈ ((l.reconcile (utxos.map Utxo.outpoint) now).recordSpend
        built now).spent.rows, Settled (utxos.map Utxo.outpoint) now row ∧
          r.outpoint = row.outpoint := by
      rintro ⟨row, hrow, hsettled, -⟩
      exact (not_due_of_recordSpend hrow).1 hsettled
    rcases h with hr | ⟨o, ho, rfl⟩
    -- an old row is no output of a fresh transaction
    · obtain ⟨hold, hout, -⟩ := mem_pending_reconcile.mp hr
      refine ⟨.inl ⟨hr, fun hin => ?_⟩, hout, hmasked⟩
      obtain ⟨o, ho, heq⟩ := List.mem_map.mp hin
      refine hfresh.pending r hold ?_
      rw [← heq]
      exact hown o ho
    -- a fresh output is not listed yet
    · refine ⟨.inr ⟨o, ho, rfl⟩, fun hin => ?_, hmasked⟩
      obtain ⟨u, hu, heq⟩ := List.mem_map.mp hin
      refine hfresh.listed u hu ?_
      exact (congrArg Outpoint.txid heq).trans (hown o ho)

include hfresh hown hnodup in
/-- **Recording swaps the inputs for the outputs.** -/
theorem mem_view_recordSpend (hin : ∀ o ∈ built.inputs, ∃ u ∈ l.view script utxos now,
    u.outpoint = o) {u : Utxo} :
    u ∈ ((l.reconcile (utxos.map Utxo.outpoint) now).recordSpend built now).view script utxos now ↔
      (u ∈ l.view script utxos now ∧ u.outpoint ∉ built.inputs) ∨
        ∃ o ∈ built.ownOutputs, u = ownCoin script o := by
  have hpending : ∀ r, r ∈ (((l.reconcile (utxos.map Utxo.outpoint) now).recordSpend built
      now).reconcile (utxos.map Utxo.outpoint) now).pending.rows ↔ _ :=
    fun r => mem_pending_recordSpend hfresh hown hnodup
  have hspent : ∀ o, (((l.reconcile (utxos.map Utxo.outpoint) now).recordSpend built
      now).reconcile (utxos.map Utxo.outpoint) now).isSpent o = true ↔ _ :=
    fun o => isSpent_recordSpend (utxos.map Utxo.outpoint) o
  -- membership in the view is: known, not locked before, and no input of the new transaction
  have hfree : ∀ {L : Ledger} {o : Outpoint}, L.isSpent o = false ↔ ¬L.isSpent o = true := by
    intro L o
    rw [Bool.not_eq_true]
  rw [view, mem_spendable, hfree, hspent, not_or, ← hfree, view, mem_spendable]
  simp only [hpending]
  constructor
  · rintro ⟨hu, hlive, hkept⟩
    rcases hu with hu | ⟨r, hr | ⟨o, ho, rfl⟩, hout, rfl⟩
    · exact .inl ⟨⟨.inl hu, hlive⟩, hkept⟩
    · exact .inl ⟨⟨.inr ⟨r, hr, hout, rfl⟩, hlive⟩, hkept⟩
    · exact .inr ⟨o, ho, rfl⟩
  · rintro (⟨⟨hu, hlive⟩, hkept⟩ | ⟨o, ho, rfl⟩)
    · refine ⟨hu.imp_right fun ⟨r, hr, hout, heq⟩ => ⟨r, .inl hr, hout, heq⟩, hlive, hkept⟩
    · -- an output of a fresh transaction is not listed, not locked and no input
      have htxid : (ownCoin script o).txid = built.txid := hown o ho
      have hlisted : o.outpoint ∉ utxos.map Utxo.outpoint := by
        intro hmem
        obtain ⟨u, hu, heq⟩ := List.mem_map.mp hmem
        exact hfresh.listed u hu ((congrArg Outpoint.txid heq).trans (hown o ho))
      refine ⟨.inr ⟨_, .inr ⟨o, ho, rfl⟩, hlisted, rfl⟩, ?_, fun hmem => ?_⟩
      · rw [hfree, isSpent_iff]
        rintro ⟨r, hr, heq⟩
        refine hfresh.spent r (mem_spent_reconcile.mp hr).1 ?_
        rw [heq]
        exact htxid
      · -- an input is in the view, where nothing of a fresh transaction is
        obtain ⟨u, hu, heq⟩ := hin _ hmem
        have hu' : u.txid = built.txid := (congrArg Outpoint.txid heq).trans htxid
        rw [view, mem_spendable] at hu
        rcases hu.1 with hu | ⟨r, hr, -, rfl⟩
        · exact hfresh.listed u ((byOutpoint_spec utxos).2.1 u hu) hu'
        · exact hfresh.pending r (mem_pending_reconcile.mp hr).1 hu'

end Recorded

/-- The views offer distinct coins. -/
theorem view_nodup : (l.view script utxos now).Nodup :=
  List.Nodup.of_map Utxo.outpoint (spendable_nodup ..)

/-- **The balance of the ledger.** Recording a transaction built from the view lowers the balance
by the amount that left and the fee. -/
theorem balance_recordSpend {amount : ℕ}
    (hspends : DashTx.Spends (l.view script utxos now) amount built)
    (hfresh : Fresh built.txid utxos l) :
    (sumSats (((l.reconcile (utxos.map Utxo.outpoint) now).recordSpend built now).view script utxos
      now) : ℤ) = sumSats (l.view script utxos now) - amount - built.fee := by
  obtain ⟨coins, hsub, hin, hsum⟩ := hspends.selected
  set before := l.view script utxos now with hbefore
  have hnodup := ownOutputs_nodup hspends.own_nodup
  -- after: what is not an input, and the outputs
  have hafter : ((l.reconcile (utxos.map Utxo.outpoint) now).recordSpend built now).view script
      utxos now ~ before.filter (fun u => !built.inputs.contains u.outpoint) ++
        built.ownOutputs.map (ownCoin script) := by
    have hmem : ∀ u, u ∈ ((l.reconcile (utxos.map Utxo.outpoint) now).recordSpend built now).view
        script utxos now ↔ _ := fun u =>
      mem_view_recordSpend hfresh hspends.own_txid hspends.own_nodup fun o ho =>
        hspends.exists_of_mem ho
    refine (List.perm_ext_iff_of_nodup view_nodup ?_).mpr fun u => ?_
    · have hnew : (built.ownOutputs.map (ownCoin script)).Nodup := by
        refine List.Nodup.of_map Utxo.outpoint ?_
        rw [List.map_map]
        exact hnodup
      refine List.nodup_append.mpr ⟨view_nodup.filter _, hnew, ?_⟩
      rintro u hu _ hu' rfl
      obtain ⟨o, ho, rfl⟩ := List.mem_map.mp hu'
      have htxid : (ownCoin script o).txid = built.txid := hspends.own_txid o ho
      have hview := List.mem_of_mem_filter hu
      rw [hbefore, view, mem_spendable] at hview
      rcases hview.1 with hu | ⟨r, hr, -, heq⟩
      · exact hfresh.listed _ ((byOutpoint_spec utxos).2.1 _ hu) htxid
      · refine hfresh.pending r (mem_pending_reconcile.mp hr).1 ?_
        rw [heq] at htxid
        exact htxid
    · rw [hmem, List.mem_append, List.mem_filter, List.mem_map]
      refine or_congr (and_congr_right fun _ => ?_) ?_
      · rw [Bool.not_eq_true', ← Bool.not_eq_true, List.contains_iff_mem]
      · exact exists_congr fun o => and_congr_right fun _ => eq_comm
  -- before: the inputs and the rest
  have hsplit : sumSats before = sumSats coins +
      sumSats (before.filter fun u => !built.inputs.contains u.outpoint) := by
    exact DashTx.sumSats_split (spendable_nodup ..) hsub hin
  have hown : sumSats (built.ownOutputs.map (ownCoin script)) = built.ownSats := by
    rw [sumSats, List.map_map]
    rfl
  rw [DashTx.sumSats_perm hafter, DashTx.sumSats_append, hown, hsplit]
  push_cast
  omega

end Ledger

/-! ### The programs -/

namespace Faucet

variable {f : Faucet} {o : ℕ → (q : Query) → Answer q} {utxos : List Utxo} {key : FaucetKey}
  {now : ℤ} {s s' : State}

/-- Run alone against the answers of `o`, `p` leads from `s` to `s'` with the result `r`. -/
def Ran {α : Type} (o : ℕ → (q : Query) → Answer q) (p : Prog α) (s : State) (r : Except Thrown α)
    (s' : State) : Prop :=
  ∃ n, (Async.run alone.emit o p n s).1 = r ∧ (Async.run alone.emit o p n s).2.2 = s'

/-- Every explorer that lists coins lists these. -/
def Lists (o : ℕ → (q : Query) → Answer q) (utxos : List Utxo) : Prop :=
  ∀ n p address listed, o n (.listing p address) = .ok listed → listed = utxos

/-- Answers leave the ledger alone. -/
theorem ledger_foldl_emit (es : List Answered) (s : State) :
    (es.foldl (fun s e => alone.emit e.1 e.2 s) s).ledger = s.ledger := by
  induction es generalizing s with
  | nil => rfl
  | cons e es ih =>
    rw [List.foldl_cons, ih]
    rfl

/-- A coin that is not held back: it is deep enough, or known to be no coinbase. -/
def Ripe (l : Ledger) (tip : JsNumber) (u : Utxo) : Prop :=
  Mature tip u ∨ (l.coinbaseChecks.find? u.txid).map CoinbaseCheck.isCoinbase = some false

/-- The transactions of young coins that are not held back are known to be no coinbases. -/
theorem verdict_of_young {l : Ledger} {snapshot : UtxoSnapshot}
    (h : ∀ u ∈ snapshot.utxos, Ripe l snapshot.tipHeight u) {txid : String}
    (hyoung : txid ∈ young snapshot) :
    (l.coinbaseChecks.find? txid).map CoinbaseCheck.isCoinbase = some false := by
  rw [young, List.mem_eraseDups] at hyoung
  obtain ⟨u, hu, rfl⟩ := List.mem_map.mp hyoung
  obtain ⟨hu, hshallow⟩ := List.mem_filter.mp hu
  rcases h u hu with ⟨height, heq, hdeep⟩ | hknown
  · simp only [heq, decide_eq_true_eq] at hshallow
    exact absurd hshallow (JsNumber.not_lt_of_le hdeep)
  · exact hknown

/-- With nothing to hold back there is nothing to look up. -/
theorem immatureTxids_run {snapshot : UtxoSnapshot} {n : ℕ}
    (h : ∀ u ∈ snapshot.utxos, Ripe s.ledger snapshot.tipHeight u) :
    Async.run alone.emit o (f.immatureTxids snapshot now) n s = (.ok [], n, s) := by
  have hunknown : (young snapshot).filter (fun txid =>
      (s.ledger.coinbaseChecks.find? txid).isNone) = [] := by
    refine List.filter_eq_nil_iff.mpr fun txid hyoung hnone => ?_
    have hverdict := verdict_of_young h hyoung
    rw [Option.isNone_iff_eq_none.mp hnone] at hverdict
    cases hverdict
  have hheld : (young snapshot).filter (fun txid =>
      (((fulfilled [] []).lookup txid).or ((s.ledger.coinbaseChecks.find? txid).map
        CoinbaseCheck.isCoinbase)).getD true) = [] := by
    refine List.filter_eq_nil_iff.mpr fun txid hyoung => ?_
    rw [verdict_of_young h hyoung]
    exact Bool.false_ne_true
  unfold immatureTxids
  change Async.run alone.emit o (forEach _ (List.take _ _) >>= _) n s = _
  rw [hunknown]
  exact congrArg (fun held => (Except.ok held, n, s)) hheld

/-- **The program computes the view**, and leaves the ledger reconciled. -/
theorem spendableUtxos_ran {view : UtxoSnapshot}
    (hran : Ran o (f.spendableUtxos key now) s (.ok view) s') (hlists : Lists o utxos)
    (hripe : ∀ u ∈ utxos, Ripe s.ledger view.tipHeight u) :
    view.utxos = s.ledger.view (f.createPkhScript key.pubKeyHash) utxos now ∧
      s'.ledger = s.ledger.reconcile (utxos.map Utxo.outpoint) now := by
  obtain ⟨n, hres, rfl⟩ := hran
  rw [spendableUtxos, run_bind] at hres ⊢
  obtain ⟨es, hes, hans, hstore⟩ := run_quiet alone.emit o
    -- the chain's answer is the listing the oracle gives, and the ledger does not move
    (f.chain.reads_getUtxos key.address) n s
  generalize Async.run alone.emit o (f.chain.getUtxos key.address) n s = x at hres hes hstore ⊢
  obtain ⟨r, m, t⟩ := x
  cases r with
  | error e => cases hres
  | ok snapshot =>
    have hledger : t.ledger = s.ledger := by
      rw [show t = _ from hstore, ledger_foldl_emit]
    have hlisted : snapshot.utxos = utxos := by
      obtain ⟨p, hp⟩ := ChainClient.getUtxos_ok hes
      obtain ⟨k, hk⟩ := hans _ hp
      exact hlists k p key.address _ hk.symm
    dsimp only at hres ⊢
    rw [run_bind] at hres ⊢
    -- ripe outputs need no lookup
    have himmature : (∀ u ∈ utxos, Ripe s.ledger snapshot.tipHeight u) →
        Async.run alone.emit o (f.immatureTxids snapshot now) m t = (.ok [], m, t) := by
      intro h
      rw [← hlisted, ← hledger] at h
      exact immatureTxids_run h
    rcases hlook : Async.run alone.emit o (f.immatureTxids snapshot now) m t with ⟨r, k, u⟩
    rw [hlook] at hres
    cases r with
    | error e => cases hres
    | ok immature =>
      cases hres
      rw [himmature hripe] at hlook
      cases hlook
      subst hlisted
      refine ⟨?_, ?_⟩
      · rw [Ledger.view, ← hledger]
        rfl
      · rw [← hledger]
        rfl

/-- What the four spenders build from a view, and the amount that leaves the faucet with it. -/
inductive Builds (f : Faucet) (o : ℕ → (q : Query) → Answer q) (key : FaucetKey)
    (view : UtxoSnapshot) (s s' : State) : ℕ → BuiltTx → Prop where
  | payout {recipient : String} {satoshis : ℕ} {forCollateral : Bool} {built : BuiltTx}
      (h : Ran o (f.buildPayoutSparingCollateral key view.utxos recipient satoshis forCollateral)
        s (.ok built) s') : Builds f o key view s s' satoshis built
  | split {coin : Utxo} {count perOutputSats : ℕ} {built : BuiltTx} (hcoin : coin ∈ view.utxos)
      (h : Ran o (f.dash.buildSplit key [coin] count perOutputSats) s (.ok built) s') :
      Builds f o key view s s' 0 built
  | merge {goal : ℕ} {inputs : List Utxo} {reaches : Bool} {built : BuiltTx}
      (hplan : f.planMerge view goal = .merge inputs reaches ∨
        f.cfg.planTidy view = some (.merge inputs reaches))
      (h : Ran o (f.dash.buildConsolidation key inputs) s (.ok built) s') :
      Builds f o key view s s' 0 built
  | assetLock {publicKeyHash : String} {satoshis : ℕ} {built : BuiltTx}
      (h : Ran o (f.dash.buildInvitationAssetLock key view.utxos publicKeyHash satoshis)
        s (.ok built) s') : Builds f o key view s s' satoshis built

/-- A program that only asks ran on a transcript, and left the ledger alone. -/
theorem transcript_of_ran {α : Type} {p : Prog α} (hp : p.Quiet Reads) {r : Except Thrown α}
    (h : Ran o p s r s') : (∃ es, Transcript p es r) ∧ s'.ledger = s.ledger := by
  obtain ⟨n, rfl, rfl⟩ := h
  obtain ⟨es, hes, -, hstore⟩ := run_quiet alone.emit o hp n s
  exact ⟨⟨es, hes⟩, by rw [hstore, ledger_foldl_emit]⟩

theorem Builds.spends (hd : f.dash.Faithful) {view : UtxoSnapshot} {amount : ℕ} {built : BuiltTx}
    (h : f.Builds o key view s s' amount built) :
    DashTx.Spends view.utxos amount built ∧ s'.ledger = s.ledger := by
  cases h with
  | payout h =>
    obtain ⟨⟨es, hes⟩, hledger⟩ := transcript_of_ran reads_buildPayoutSparingCollateral h
    exact ⟨buildPayoutSparingCollateral_spends hd hes, hledger⟩
  | split hcoin h =>
    obtain ⟨⟨es, hes⟩, hledger⟩ := transcript_of_ran DashTx.reads_buildSplit h
    exact ⟨(DashTx.buildSplit_spends hd hes).mono (List.singleton_sublist.mpr hcoin).subperm,
      hledger⟩
  | @merge goal inputs reaches built hplan h =>
    obtain ⟨⟨es, hes⟩, hledger⟩ := transcript_of_ran DashTx.reads_buildConsolidation h
    refine ⟨(DashTx.buildConsolidation_spends hd hes).mono ?_, hledger⟩
    -- either plan takes its inputs from the view
    rcases hplan with hplan | hplan
    · have hfrom := planMerge_mergesFrom (f := f) view goal
      rw [hplan] at hfrom
      exact hfrom
    · exact planTidy_mergesFrom hplan
  | assetLock h =>
    obtain ⟨⟨es, hes⟩, hledger⟩ := transcript_of_ran DashTx.reads_buildInvitationAssetLock h
    exact ⟨DashTx.buildInvitationAssetLock_spends hd hes, hledger⟩

/-- An accepted broadcast leaves the ledger alone. -/
theorem ledger_of_accepted {built : BuiltTx} {accepted : List String}
    (h : Ran o (f.settleBroadcast built now) s (.ok (.ok accepted)) s') : s'.ledger = s.ledger := by
  obtain ⟨n, hres, rfl⟩ := h
  have hwp : wp alone (fun r _ t => ∀ accepted, r = .ok (.ok accepted) → t.ledger = s.ledger)
      (f.settleBroadcast built now) s s := by
    refine wp_settleBroadcast recording_alone trivial (fun _ _ _ => trivial)
      (fun es e t₀ t _ _ _ accepted hr => (by cases hr))
      fun es outcome locks t₀ t hset hh _ accepted hr => ?_
    cases hr
    obtain ⟨hledger, -, -⟩ := recording_alone.heard hh
    -- only a failure locks
    cases hset <;> exact hledger
  obtain ⟨t₀, h⟩ := wp_run (fun s => rfl) o hwp n
  exact h accepted hres

/-- **The balance is conserved.** Take any ledger and explorers that keep listing the same mature
coins. Whatever a payout, a split, a merge or an asset lock builds from the view: once it is
accepted and recorded, the view computed at the same instant is worth what it was, less the amount
that left the faucet and less the fee. -/
theorem balance_conserved (hd : f.dash.Faithful) (hlists : Lists o utxos)
    {view view' : UtxoSnapshot} {amount : ℕ} {built : BuiltTx} {accepted : List String}
    {s₁ s₂ s₃ s₄ : State} (hview : Ran o (f.spendableUtxos key now) s (.ok view) s₁)
    (hmature : ∀ u ∈ utxos, Mature view.tipHeight u)
    (hbuilds : f.Builds o key view s₁ s₂ amount built)
    (hfresh : Ledger.Fresh built.txid utxos s.ledger)
    (haccepted : Ran o (f.settleBroadcast built now) s₂ (.ok (.ok accepted)) s₃)
    (hview' : Ran o (f.spendableUtxos key now) (s₃.recordSpend built now) (.ok view') s₄)
    (hmature' : ∀ u ∈ utxos, Mature view'.tipHeight u) :
    (sumSats view'.utxos : ℤ) = sumSats view.utxos - amount - built.fee := by
  obtain ⟨hcoins, hledger⟩ := spendableUtxos_ran hview hlists fun u hu => .inl (hmature u hu)
  obtain ⟨hcoins', -⟩ := spendableUtxos_ran hview' hlists fun u hu => .inl (hmature' u hu)
  obtain ⟨hspends, hledger₂⟩ := hbuilds.spends hd
  have hledger₃ := ledger_of_accepted haccepted
  -- between the views the ledger is reconciled and the spend recorded, nothing else
  have hrecorded : (s₃.recordSpend built now).ledger =
      (s.ledger.reconcile (utxos.map Utxo.outpoint) now).recordSpend built now := by
    rw [← hledger, ← hledger₂, ← hledger₃]
    rfl
  rw [hcoins] at hspends
  rw [hcoins', hcoins, hrecorded]
  exact Ledger.balance_recordSpend hspends hfresh

/-- The coins of the small deployment. -/
def smallCoins : List Utxo :=
  [⟨"a", 0, 3 * coin, "faucet", some 1⟩, ⟨"b", 0, 3 * coin, "faucet", some 1⟩]

/-- What its first payout of one coin builds. -/
def smallBuilt : BuiltTx :=
  ⟨"a", "id of a", [⟨"a", 0⟩], [⟨"id of a", 1, 2 * coin - 227⟩], 227, 3 * coin⟩

/-- The first payout of the small deployment: one coin left, and a fee of 227. -/
theorem balance_conserved_small : ∃ (view view' : UtxoSnapshot) (s₃ s₄ : State),
    Ran (fun _ => smallWorld (.ok "sent")) (small.spendableUtxos ⟨"faucet", "Xfaucet"⟩ 1000)
      (s₃.recordSpend smallBuilt 1000) (.ok view') s₄ ∧
    (sumSats view'.utxos : ℤ) = sumSats view.utxos - coin - 227 := by
  -- each program begins where the one before it ended
  let o : ℕ → (q : Query) → Answer q := fun _ => smallWorld (.ok "sent")
  let key : FaucetKey := ⟨"faucet", "Xfaucet"⟩
  let view : UtxoSnapshot := ⟨smallCoins, "dashrpc", 1000, [⟨"dashrpc", true, some 1000, none⟩]⟩
  let view' : UtxoSnapshot :=
    { view with utxos := [⟨"b", 0, 3 * coin, "faucet", some 1⟩,
                          ⟨"id of a", 1, 2 * coin - 227, "faucet", none⟩] }
  let s₁ := (Async.run alone.emit o (small.spendableUtxos key 1000) 0 (.initial 0)).2.2
  let s₂ := (Async.run alone.emit o
    (small.buildPayoutSparingCollateral key smallCoins "alice" coin false) 0 s₁).2.2
  let s₃ := (Async.run alone.emit o (small.settleBroadcast smallBuilt 1000) 0 s₂).2.2
  let s₄ := (Async.run alone.emit o (small.spendableUtxos key 1000) 0
    (s₃.recordSpend smallBuilt 1000)).2.2
  have hview : Ran o (small.spendableUtxos key 1000) (.initial 0) (.ok view) s₁ :=
    ⟨0, by decide +kernel, rfl⟩
  have hbuilt : Ran o (small.buildPayoutSparingCollateral key smallCoins "alice" coin false) s₁
      (.ok smallBuilt) s₂ := ⟨0, by decide +kernel, rfl⟩
  have haccepted : Ran o (small.settleBroadcast smallBuilt 1000) s₂ (.ok (.ok ["dashrpc"])) s₃ :=
    ⟨0, by decide +kernel, rfl⟩
  have hview' : Ran o (small.spendableUtxos key 1000) (s₃.recordSpend smallBuilt 1000)
      (.ok view') s₄ := ⟨0, by decide +kernel, rfl⟩
  have hlists : Lists o smallCoins := by
    intro n p address listed h
    cases h
    rfl
  have hmature : ∀ u ∈ smallCoins, Mature 1000 u := by
    intro u hu
    refine ⟨1, ?_, by decide +kernel⟩
    simp only [smallCoins, List.mem_cons, List.not_mem_nil, or_false] at hu
    rcases hu with rfl | rfl <;> rfl
  have hfresh : Ledger.Fresh smallBuilt.txid smallCoins (State.initial 0).ledger :=
    ⟨by decide, by decide, by decide⟩
  have hbalance := balance_conserved smallTx_faithful hlists hview hmature (.payout hbuilt) hfresh
    haccepted hview' hmature
  have hfee : smallBuilt.fee = 227 := rfl
  rw [hfee] at hbalance
  exact ⟨view, view', s₃, s₄, hview', hbalance⟩

end Faucet

end DashFaucet

import DashFaucet.Treasury.State

/-!
# The coin ledger

The synchronous part of `treasury.ts` that keeps the coin ledger: `prune`, `reconcile`, the
spendable view, `lockInputs`, `recordSpend`, the daily budget.

* `Ledger.mem_spent_reconcile`, `Ledger.mem_pending_reconcile`: what `reconcile` keeps, row by
  row, although the source deletes in a loop.
* `Ledger.spendable_nodup`, `Ledger.isSpent_of_mem_spendable`: the view offers distinct coins, and
  none that is spent.
* `Ledger.spentToday_addToBudget`, `Ledger.spentToday_prune`: the budget as a function of the day.
-/

namespace DashFaucet

/-- `FaucetConfig.invitations`. -/
structure InvitationConfig where
  enabled : Bool
  amountSats : ℕ
  inventoryTarget : ℕ
  maxPerRequest : ℕ
  ttlMs : ℤ
  rateWindowMs : ℤ

/-- What the Treasury reads of `FaucetConfig`. -/
structure FaucetConfig where
  payoutSats : ℕ
  rateLimits : ProofTier → ℕ
  dailyBudgetSats : ℕ
  poolMin : ℕ
  poolTarget : ℕ
  poolUtxoSats : ℕ
  dryRun : Bool
  maxPayoutInputs : ℕ
  collateralCoins : ℕ
  /-- `auth.keyTtlMs`. -/
  keyTtlMs : ℤ
  /-- `apiKeys.enabled`. -/
  keysEnabled : Bool
  /-- `apiKeys.maxPerRequestSats`. -/
  keyMaxPerRequestSats : ℕ
  /-- `apiKeys.reserveSats`. -/
  keyReserveSats : ℕ
  invitations : InvitationConfig

namespace Ledger

/-! ### Pruning -/

/-- Time-based cleanup of the ledger's tables. -/
def prune (cfg : FaucetConfig) (now : ℤ) (l : Ledger) : Ledger :=
  { l with
    ipHits := l.ipHits.filter fun h => !(h.createdAt < now - hourMs)
    claims := l.claims.deleteWhere fun r => r.createdAt < now - 7 * dayMs
    budget := l.budget.deleteWhere fun r => r.day < utcDay (now - 7 * dayMs)
    coinbaseChecks := l.coinbaseChecks.deleteWhere fun r => r.checkedAt < now - dayMs
    mergeDemand := l.mergeDemand.filter fun r => !(r.createdAt < now - mergeDemandTtlMs)
    invitationHits := l.invitationHits.filter fun h =>
      !(h.createdAt < now - cfg.invitations.rateWindowMs)
    pending := l.pending.deleteWhere fun r => r.createdAt < now - pendingTtlMs }

/-! ### The daily budget -/

def spentToday (day : ℤ) (l : Ledger) : ℕ := ((l.budget.find? day).map BudgetRow.satoshis).getD 0

/-- `INSERT … ON CONFLICT(day) DO UPDATE SET satoshis = satoshis + excluded.satoshis`. -/
def addToBudget (day : ℤ) (satoshis : ℕ) (t : Table BudgetRow) : Table BudgetRow :=
  if t.rows.any fun r => r.day = day then
    t.update (fun r => r.day = day) fun r => { r with satoshis := r.satoshis + satoshis }
  else t.insertOrReplace ⟨day, satoshis⟩

/-- The budget of a day is the amount of the one row it can have. -/
theorem spentToday_eq {l : Ledger} {row : BudgetRow} (h : row ∈ l.budget.rows) :
    l.spentToday row.day = row.satoshis := by
  have hfind : l.budget.find? row.day = some row := Table.find?_eq_some.mpr ⟨h, rfl⟩
  simp [spentToday, hfind]

theorem spentToday_eq_zero {l : Ledger} {day : ℤ} (h : ∀ row ∈ l.budget.rows, row.day ≠ day) :
    l.spentToday day = 0 := by
  have hfind : l.budget.find? day = none := Table.find?_eq_none.mpr h
  simp [spentToday, hfind]

/-- A payment adds to its own day and leaves the others. -/
theorem spentToday_addToBudget (l : Ledger) (day d : ℤ) (satoshis : ℕ) :
    spentToday d { l with budget := addToBudget day satoshis l.budget } =
      l.spentToday d + if d = day then satoshis else 0 := by
  by_cases hrow : ∃ row ∈ l.budget.rows, row.day = d
  · obtain ⟨row, hrow, rfl⟩ := hrow
    rw [spentToday_eq hrow]
    by_cases hday : row.day = day
    · -- the day's row is there and grows
      have hany : (l.budget.rows.any fun r => decide (r.day = day)) = true := by
        simpa using ⟨row, hrow, hday⟩
      have hgrown : { row with satoshis := row.satoshis + if row.day = day then satoshis else 0 } ∈
          (addToBudget day satoshis l.budget).rows := by
        simp only [addToBudget, hany, if_true, Table.mem_update]
        exact ⟨row, hrow, by simp [hday]⟩
      exact spentToday_eq (l := { l with budget := addToBudget day satoshis l.budget }) hgrown
    · -- another day's row survives both statements
      have hkept : row ∈ (addToBudget day satoshis l.budget).rows := by
        rw [addToBudget]
        split
        · exact Table.mem_update.mpr ⟨row, hrow, by simp [hday]⟩
        · exact Table.mem_insertOrReplace.mpr (Or.inl ⟨hrow, hday, hday⟩)
      rw [if_neg hday, Nat.add_zero]
      exact spentToday_eq hkept
  · simp only [not_exists, not_and] at hrow
    rw [spentToday_eq_zero hrow, Nat.zero_add]
    by_cases hday : d = day
    · -- the first payment of the day inserts its row
      subst hday
      have hany : (l.budget.rows.any fun r => decide (r.day = d)) = false := by
        simpa using hrow
      rw [if_pos rfl]
      have hnew : (⟨d, satoshis⟩ : BudgetRow) ∈ (addToBudget d satoshis l.budget).rows := by
        simp [addToBudget, hany]
      exact spentToday_eq (l := { l with budget := addToBudget d satoshis l.budget }) hnew
    -- the payment adds to another day's row
    · rw [if_neg hday]
      refine spentToday_eq_zero fun row hmem => ?_
      simp only [addToBudget] at hmem
      split at hmem
      · obtain ⟨row₀, hrow₀, rfl⟩ := Table.mem_update.mp hmem
        have hne := hrow row₀ hrow₀
        split <;> simpa using hne
      · rcases Table.mem_insertOrReplace.mp hmem with ⟨hmem', -, -⟩ | rfl
        · exact hrow row hmem'
        · exact fun h => hday h.symm

/-- Pruning keeps the budget of every day in the last seven, and only drops whole days. -/
theorem spentToday_prune (cfg : FaucetConfig) (now : ℤ) (l : Ledger) (d : ℤ) :
    (l.prune cfg now).spentToday d =
      if d < utcDay (now - 7 * dayMs) then 0 else l.spentToday d := by
  by_cases hold : d < utcDay (now - 7 * dayMs)
  · rw [if_pos hold]
    refine spentToday_eq_zero fun row hrow hday => ?_
    subst hday
    simp [prune, hold] at hrow
  · rw [if_neg hold]
    by_cases hrow : ∃ row ∈ l.budget.rows, row.day = d
    · obtain ⟨row, hrow, rfl⟩ := hrow
      rw [spentToday_eq hrow]
      refine spentToday_eq ?_
      simpa [prune, hrow] using not_lt.mp hold
    · simp only [not_exists, not_and] at hrow
      rw [spentToday_eq_zero hrow]
      exact spentToday_eq_zero fun row hmem => hrow row (by simp [prune] at hmem; exact hmem.1)

/-! ### Reconciling with the explorers -/

/-- One round of the loop over the `spent` rows. -/
def reconcileRow (confirmed : List Outpoint) (now : ℤ) (l : Ledger) (row : SpentRow) : Ledger :=
  let age := now - row.createdAt
  let stillUnspent := confirmed.contains row.outpoint
  if !stillUnspent && age > spentSettledMs then
    -- the spend landed; a `pending` row it was masking goes with it
    { l with
      spent := l.spent.deleteWhere fun r => r.outpoint = row.outpoint
      pending := l.pending.deleteWhere fun r => r.outpoint = row.outpoint }
  else if stillUnspent && age > spentStaleMs then
    -- our transaction never made it: release the coin
    { l with spent := l.spent.deleteWhere fun r => r.outpoint = row.outpoint }
  else l

/-- Reconcile the in-flight ledger against the outpoints the explorers list. -/
def reconcile (confirmed : List Outpoint) (now : ℤ) (l : Ledger) : Ledger :=
  let l' := l.spent.rows.foldl (reconcileRow confirmed now) l
  { l' with pending := l'.pending.deleteWhere fun r => confirmed.contains r.outpoint }

/-- The spend of this row landed and the row is old enough to go. -/
def Settled (confirmed : List Outpoint) (now : ℤ) (row : SpentRow) : Prop :=
  row.outpoint ∉ confirmed ∧ spentSettledMs < now - row.createdAt

/-- The coin of this row is listed long after it was spent. -/
def Stale (confirmed : List Outpoint) (now : ℤ) (row : SpentRow) : Prop :=
  row.outpoint ∈ confirmed ∧ spentStaleMs < now - row.createdAt

section Reconcile

variable (confirmed : List Outpoint) (now : ℤ) (l : Ledger)

/-- What one round does: the tables other than `spent` and `pending` stay, and these lose the
rows of the round's outpoint, `spent` when the row is settled or stale, `pending` when it is
settled. -/
theorem reconcileRow_eq (row : SpentRow) :
    ∃ sp pe, reconcileRow confirmed now l row = { l with spent := sp, pending := pe } ∧
      (∀ r, r ∈ sp.rows ↔ r ∈ l.spent.rows ∧
        ¬((Settled confirmed now row ∨ Stale confirmed now row) ∧ r.outpoint = row.outpoint)) ∧
      (∀ r, r ∈ pe.rows ↔ r ∈ l.pending.rows ∧
        ¬(Settled confirmed now row ∧ r.outpoint = row.outpoint)) := by
  -- confirmed for too long, or gone for long enough: the row goes
  by_cases hin : row.outpoint ∈ confirmed
  · by_cases hage : spentStaleMs < now - row.createdAt
    · refine ⟨_, l.pending, by simp [reconcileRow, hin, hage]; rfl, fun r => ?_, fun r => ?_⟩
      · simp [Settled, Stale, hin, hage]
      · simp [Settled, hin]
    · refine ⟨l.spent, l.pending, by simp [reconcileRow, hin, hage], fun r => ?_, fun r => ?_⟩
      · simp [Settled, Stale, hin, hage]
      · simp [Settled, hin]
  · by_cases hage : spentSettledMs < now - row.createdAt
    · refine ⟨_, _, by simp [reconcileRow, hin, hage]; exact ⟨rfl, rfl⟩, fun r => ?_, fun r => ?_⟩
      · simp [Settled, hin, hage]
      · simp [Settled, hin, hage]
    · refine ⟨l.spent, l.pending, by simp [reconcileRow, hin, hage], fun r => ?_, fun r => ?_⟩
      · simp [Settled, Stale, hin, hage]
      · simp [Settled, hage]

/-- What the loop over some rows does. -/
theorem foldl_reconcileRow_eq (rows : List SpentRow) (l : Ledger) :
    ∃ sp pe, rows.foldl (reconcileRow confirmed now) l = { l with spent := sp, pending := pe } ∧
      (∀ r, r ∈ sp.rows ↔ r ∈ l.spent.rows ∧ ¬∃ row ∈ rows,
        (Settled confirmed now row ∨ Stale confirmed now row) ∧ r.outpoint = row.outpoint) ∧
      (∀ r, r ∈ pe.rows ↔ r ∈ l.pending.rows ∧ ¬∃ row ∈ rows,
        Settled confirmed now row ∧ r.outpoint = row.outpoint) := by
  induction rows generalizing l with
  | nil => exact ⟨l.spent, l.pending, rfl, by simp, by simp⟩
  | cons row rows ih =>
    obtain ⟨sp, pe, heq, hsp, hpe⟩ := reconcileRow_eq confirmed now l row
    obtain ⟨sp', pe', heq', hsp', hpe'⟩ := ih { l with spent := sp, pending := pe }
    refine ⟨sp', pe', by rw [List.foldl_cons, heq, heq'], fun r => ?_, fun r => ?_⟩
    · rw [hsp', hsp]
      simp only [List.mem_cons, exists_eq_or_imp, not_or, and_assoc]
    · rw [hpe', hpe]
      simp only [List.mem_cons, exists_eq_or_imp, not_or, and_assoc]

/-- `reconcile` changes `spent` and `pending` only. -/
theorem reconcile_eq :
    ∃ sp pe, l.reconcile confirmed now = { l with spent := sp, pending := pe } := by
  obtain ⟨sp, pe, heq, -, -⟩ := foldl_reconcileRow_eq confirmed now
    l.spent.rows l
  exact ⟨sp, _, by rw [reconcile, heq]⟩

variable {confirmed now l}

/-- **What stays locked.** A `spent` row survives exactly when it is neither settled nor stale. -/
theorem mem_spent_reconcile {r : SpentRow} :
    r ∈ (l.reconcile confirmed now).spent.rows ↔
      r ∈ l.spent.rows ∧ ¬Settled confirmed now r ∧ ¬Stale confirmed now r := by
  obtain ⟨sp, pe, heq, hsp, -⟩ := foldl_reconcileRow_eq confirmed now
    l.spent.rows l
  simp only [reconcile, heq]
  rw [hsp]
  refine and_congr_right fun hr => ?_
  constructor
  · intro h
    exact ⟨fun hs => h ⟨r, hr, .inl hs, rfl⟩, fun hs => h ⟨r, hr, .inr hs, rfl⟩⟩
  · -- the only row of this outpoint is `r` itself
    rintro ⟨hset, hst⟩ ⟨row, hrow, hgone, hout⟩
    obtain rfl : r = row := Table.eq_of_key hr hrow hout
    exact hgone.elim hset hst

/-- A `pending` row survives unless the explorers list it or its own spend has settled. -/
theorem mem_pending_reconcile {r : PendingRow} :
    r ∈ (l.reconcile confirmed now).pending.rows ↔
      r ∈ l.pending.rows ∧ r.outpoint ∉ confirmed ∧
        ¬∃ row ∈ l.spent.rows, Settled confirmed now row ∧ r.outpoint = row.outpoint := by
  obtain ⟨sp, pe, heq, -, hpe⟩ := foldl_reconcileRow_eq confirmed now
    l.spent.rows l
  simp only [reconcile, heq, Table.mem_deleteWhere]
  rw [hpe]
  simp only [List.contains_eq_mem, decide_eq_false_iff_not]
  tauto

end Reconcile

/-! ### The spendable view -/

/-- `new Map(utxos.map(u => [outpoint, u]))`: the first position of an outpoint, its last value. -/
def byOutpoint (utxos : List Utxo) : List Utxo :=
  utxos.foldl (fun m u =>
    if m.any fun v => v.outpoint = u.outpoint then
      m.map fun v => if v.outpoint = u.outpoint then u else v
    else m ++ [u]) []

/-- A pending output as an unconfirmed coin. -/
def PendingRow.toUtxo (script : String) (r : PendingRow) : Utxo :=
  ⟨r.outpoint.txid, r.outpoint.outputIndex, r.satoshis, script, none⟩

/-- Whether an outpoint is locked. -/
def isSpent (l : Ledger) (o : Outpoint) : Bool := l.spent.rows.any fun r => r.outpoint = o

/-- The listed coins and our own in-flight outputs, without the spent ones and those of an
immature transaction. -/
def spendable (script : String) (utxos : List Utxo) (immature : List String) (l : Ledger) :
    List Utxo :=
  let listed := byOutpoint utxos
  let pending := l.pending.rows.filter fun r => !listed.any fun u => u.outpoint = r.outpoint
  let merged := listed ++ pending.map (PendingRow.toUtxo script)
  let live := merged.filter fun u => !l.isSpent u.outpoint
  live.filter fun u => !immature.contains u.txid

/-- One insertion into the map keeps its keys distinct and adds one key. -/
theorem byOutpoint_step {m : List Utxo} {u : Utxo} (hm : (m.map Utxo.outpoint).Nodup) :
    let m' := if m.any fun v => v.outpoint = u.outpoint then
        m.map fun v => if v.outpoint = u.outpoint then u else v
      else m ++ [u]
    (m'.map Utxo.outpoint).Nodup ∧ (∀ v ∈ m', v ∈ m ∨ v = u) ∧
      ∀ o, o ∈ m'.map Utxo.outpoint ↔ o ∈ m.map Utxo.outpoint ∨ o = u.outpoint := by
  by_cases hany : (m.any fun v => decide (v.outpoint = u.outpoint)) = true
  · -- the key is there: its value is replaced in place
    simp only [hany, if_true]
    have hkeys : (m.map fun v => if v.outpoint = u.outpoint then u else v).map Utxo.outpoint =
        m.map Utxo.outpoint := by
      rw [List.map_map]
      refine List.map_congr_left fun v _ => ?_
      by_cases hv : v.outpoint = u.outpoint <;> simp [hv]
    refine ⟨hkeys ▸ hm, fun v hv => ?_, fun o => ?_⟩
    · obtain ⟨w, hw, rfl⟩ := List.mem_map.mp hv
      by_cases hwu : w.outpoint = u.outpoint
      · exact .inr (if_pos hwu)
      · rw [if_neg hwu]
        exact .inl hw
    · rw [hkeys]
      -- the outpoint of `u` was a key before
      refine ⟨.inl, fun h => h.elim id ?_⟩
      rintro rfl
      obtain ⟨v, hv, heq⟩ := List.any_eq_true.mp hany
      exact List.mem_map.mpr ⟨v, hv, of_decide_eq_true heq⟩
  -- the key is new: the value goes to the end
  · simp only [hany, Bool.false_eq_true, if_false]
    refine ⟨?_, fun v hv => ?_, fun o => ?_⟩
    · rw [List.map_append, List.nodup_append]
      refine ⟨hm, List.nodup_singleton _, fun a ha b hb => ?_⟩
      obtain ⟨v, hv, rfl⟩ := List.mem_map.mp ha
      obtain rfl : b = u.outpoint := by simpa using hb
      intro heq
      exact hany (List.any_eq_true.mpr ⟨v, hv, by simpa using heq⟩)
    · simpa using hv
    · simp

/-- The map of a listing has distinct keys, those of the listing, and values of the listing. -/
theorem byOutpoint_spec (utxos : List Utxo) :
    ((byOutpoint utxos).map Utxo.outpoint).Nodup ∧ (∀ v ∈ byOutpoint utxos, v ∈ utxos) ∧
      ∀ o, o ∈ (byOutpoint utxos).map Utxo.outpoint ↔ o ∈ utxos.map Utxo.outpoint := by
  suffices h : ∀ (us m : List Utxo), (m.map Utxo.outpoint).Nodup →
      let m' := us.foldl (fun m u =>
        if m.any fun v => v.outpoint = u.outpoint then
          m.map fun v => if v.outpoint = u.outpoint then u else v
        else m ++ [u]) m
      (m'.map Utxo.outpoint).Nodup ∧ (∀ v ∈ m', v ∈ m ∨ v ∈ us) ∧
        ∀ o, o ∈ m'.map Utxo.outpoint ↔ o ∈ m.map Utxo.outpoint ∨ o ∈ us.map Utxo.outpoint by
    obtain ⟨hnodup, hmem, hkeys⟩ := h utxos [] List.nodup_nil
    exact ⟨hnodup, fun v hv => (hmem v hv).resolve_left List.not_mem_nil,
      fun o => (hkeys o).trans (by simp)⟩
  intro us
  -- along the coins, from any map built so far
  induction us with
  | nil => exact fun m hm => ⟨hm, fun v hv => .inl hv, fun o => by simp⟩
  | cons u us ih =>
    intro m hm
    obtain ⟨hnodup, hmem, hkeys⟩ := byOutpoint_step (u := u) hm
    obtain ⟨hnodup', hmem', hkeys'⟩ := ih _ hnodup
    rw [List.foldl_cons]
    refine ⟨hnodup', fun v hv => ?_, fun o => ?_⟩
    · rcases hmem' v hv with hv | hv
      · rcases hmem v hv with hv | rfl
        · exact .inl hv
        · exact .inr List.mem_cons_self
      · exact .inr (List.mem_cons_of_mem _ hv)
    · rw [hkeys' o, hkeys o, List.map_cons, List.mem_cons]
      tauto

/-- The coins before spent and immature ones are left out have distinct outpoints. -/
theorem merged_nodup (script : String) (utxos : List Utxo) (l : Ledger) :
    ((byOutpoint utxos ++ (l.pending.rows.filter fun r =>
      !(byOutpoint utxos).any fun u => u.outpoint = r.outpoint).map
        (PendingRow.toUtxo script)).map Utxo.outpoint).Nodup := by
  rw [List.map_append, List.map_map, List.nodup_append]
  refine ⟨(byOutpoint_spec utxos).1, ?_, ?_⟩
  · exact l.pending.key_nodup.sublist (List.filter_sublist.map _)
  · rintro a ha b hb rfl
    obtain ⟨u, hu, rfl⟩ := List.mem_map.mp ha
    obtain ⟨r, hr, heq⟩ := List.mem_map.mp hb
    obtain ⟨-, hnone⟩ := List.mem_filter.mp hr
    simp only [Bool.not_eq_true', List.any_eq_false, decide_eq_true_eq] at hnone
    exact hnone u hu heq.symm

/-- **The view offers distinct coins, none of them spent.** -/
theorem spendable_nodup (script : String) (utxos : List Utxo) (immature : List String)
    (l : Ledger) : ((l.spendable script utxos immature).map Utxo.outpoint).Nodup :=
  (l.merged_nodup script utxos).sublist ((List.filter_sublist.trans List.filter_sublist).map _)

theorem isSpent_of_mem_spendable {script : String} {utxos : List Utxo} {immature : List String}
    {l : Ledger} {u : Utxo} (h : u ∈ l.spendable script utxos immature) :
    l.isSpent u.outpoint = false := by
  simpa using (List.mem_filter.mp (List.mem_filter.mp h).1).2

theorem mature_of_mem_spendable {script : String} {utxos : List Utxo} {immature : List String}
    {l : Ledger} {u : Utxo} (h : u ∈ l.spendable script utxos immature) : u.txid ∉ immature := by
  simpa using (List.mem_filter.mp h).2

/-- Leaving out immature coins only makes the view smaller. -/
theorem spendable_mature {script : String} {utxos : List Utxo} {immature : List String}
    {l : Ledger} {u : Utxo} (h : u ∈ l.spendable script utxos immature) :
    u ∈ l.spendable script utxos [] :=
  List.mem_filter.mpr ⟨(List.mem_filter.mp h).1, rfl⟩

/-- A coin of the view, when nothing listed is immature, is listed or our own, and not spent. -/
theorem mem_spendable {script : String} {utxos : List Utxo} {l : Ledger} {u : Utxo} :
    u ∈ l.spendable script utxos [] ↔
      (u ∈ byOutpoint utxos ∨ ∃ r ∈ l.pending.rows, r.outpoint ∉ utxos.map Utxo.outpoint ∧
        u = PendingRow.toUtxo script r) ∧ l.isSpent u.outpoint = false := by
  have hlisted : ∀ r : PendingRow,
    (!(byOutpoint utxos).any fun u => u.outpoint = r.outpoint) = true ↔
      r.outpoint ∉ utxos.map Utxo.outpoint := by
    intro r
    rw [← (byOutpoint_spec utxos).2.2 r.outpoint]
    simp [List.mem_map]
  simp only [spendable, List.mem_filter, List.mem_append, List.mem_map, hlisted]
  simp only [List.contains_nil, Bool.not_false, and_true, Bool.not_eq_true']
  refine and_congr_left fun _ => or_congr_right ?_
  constructor
  · rintro ⟨r, ⟨hr, hout⟩, rfl⟩
    exact ⟨r, hr, hout, rfl⟩
  · rintro ⟨r, hr, hout, rfl⟩
    exact ⟨r, ⟨hr, hout⟩, rfl⟩

/-! ### Recording a transaction -/

/-- `INSERT OR REPLACE INTO spent` for every input. -/
def lockInputs (built : BuiltTx) (now : ℤ) (l : Ledger) : Ledger :=
  { l with spent := built.inputs.foldl (fun t o => t.insertOrReplace ⟨o, now⟩) l.spent }

/-- Locking refreshes the rows of the inputs and keeps the others. -/
theorem mem_spent_lockInputs {built : BuiltTx} {now : ℤ} {l : Ledger} {r : SpentRow} :
    r ∈ (l.lockInputs built now).spent.rows ↔
      (r ∈ l.spent.rows ∧ r.outpoint ∉ built.inputs) ∨
        (r.outpoint ∈ built.inputs ∧ r.createdAt = now) := by
  suffices key : ∀ (os : List Outpoint) (t : Table SpentRow),
      r ∈ (os.foldl (fun t o => t.insertOrReplace ⟨o, now⟩) t).rows ↔
        (r ∈ t.rows ∧ r.outpoint ∉ os) ∨ (r.outpoint ∈ os ∧ r.createdAt = now) from
    key built.inputs l.spent
  intro os
  -- along the inputs, from any table
  induction os with
  | nil => simp
  | cons o os ih =>
    intro t
    rw [List.foldl_cons, ih, Table.mem_insertOrReplace]
    have hnew : r = ⟨o, now⟩ ↔ r.outpoint = o ∧ r.createdAt = now := by
      cases r
      simp
    rw [hnew]
    change ((r ∈ t.rows ∧ r.outpoint ≠ o ∧ r.outpoint ≠ o ∨ _) ∧ _ ∨ _) ↔ _
    rw [List.mem_cons]
    tauto

theorem isSpent_iff {l : Ledger} {o : Outpoint} :
    l.isSpent o = true ↔ ∃ r ∈ l.spent.rows, r.outpoint = o := by
  simp [isSpent]

/-- Every input is locked. -/
theorem isSpent_lockInputs {built : BuiltTx} {now : ℤ} {l : Ledger} {o : Outpoint}
    (h : o ∈ built.inputs) : (l.lockInputs built now).isSpent o = true :=
  isSpent_iff.mpr ⟨⟨o, now⟩, mem_spent_lockInputs.mpr (.inr ⟨h, rfl⟩), rfl⟩

def recordVerdict (txid : String) (isCoinbase : Bool) (now : ℤ) (l : Ledger) : Ledger :=
  { l with coinbaseChecks := l.coinbaseChecks.insertOrIgnore ⟨txid, isCoinbase, now⟩ }

/-- `INSERT OR REPLACE INTO pending` for every output of ours. -/
def recordOutputs (built : BuiltTx) (now : ℤ) (l : Ledger) : Ledger :=
  { l with
    pending := built.ownOutputs.foldl
      (fun t o => t.insertOrReplace ⟨⟨o.txid, o.outputIndex⟩, o.satoshis, now⟩) l.pending }

/-- Recording the outputs adds rows of these outputs only. -/
theorem of_mem_pending_recordOutputs {built : BuiltTx} {now : ℤ} {l : Ledger} {r : PendingRow}
    (h : r ∈ (l.recordOutputs built now).pending.rows) :
    r ∈ l.pending.rows ∨ r.outpoint ∈ built.ownOutputs.map OwnOutput.outpoint := by
  suffices key : ∀ (os : List OwnOutput) (t : Table PendingRow),
      r ∈ (os.foldl (fun t o => t.insertOrReplace ⟨o.outpoint, o.satoshis, now⟩) t).rows →
        r ∈ t.rows ∨ r.outpoint ∈ os.map OwnOutput.outpoint from
    key built.ownOutputs l.pending h
  intro os
  induction os with
  | nil => exact fun t hr => .inl hr
  | cons o os ih =>
    intro t hr
    rw [List.map_cons, List.mem_cons]
    rcases ih _ hr with hr | hr
    · rcases Table.mem_insertOrReplace.mp hr with ⟨hr, -⟩ | rfl
      · exact .inl hr
      · exact .inr (.inl rfl)
    · exact .inr (.inr hr)

/-- Recording the outputs adds a row for each and keeps the rows of other outpoints. -/
theorem mem_pending_recordOutputs {built : BuiltTx} {now : ℤ} {l : Ledger} {r : PendingRow}
    (hnodup : (built.ownOutputs.map OwnOutput.outpoint).Nodup) :
    r ∈ (l.recordOutputs built now).pending.rows ↔
      (r ∈ l.pending.rows ∧ r.outpoint ∉ built.ownOutputs.map OwnOutput.outpoint) ∨
        ∃ o ∈ built.ownOutputs, r = ⟨o.outpoint, o.satoshis, now⟩ := by
  suffices key : ∀ (os : List OwnOutput) (t : Table PendingRow),
      (os.map OwnOutput.outpoint).Nodup →
      (r ∈ (os.foldl (fun t o => t.insertOrReplace ⟨o.outpoint, o.satoshis, now⟩) t).rows ↔
        (r ∈ t.rows ∧ r.outpoint ∉ os.map OwnOutput.outpoint) ∨
          ∃ o ∈ os, r = ⟨o.outpoint, o.satoshis, now⟩) from
    key built.ownOutputs l.pending hnodup
  intro os
  -- along the outputs, from any table
  induction os with
  | nil => simp
  | cons o os ih =>
    intro t hnodup
    obtain ⟨hnew, hrest⟩ := List.nodup_cons.mp hnodup
    rw [List.foldl_cons, ih _ hrest, Table.mem_insertOrReplace, List.map_cons, List.mem_cons,
      List.exists_mem_cons_iff]
    change ((r ∈ t.rows ∧ r.outpoint ≠ o.outpoint ∧ r.outpoint ≠ o.outpoint ∨ _) ∧ _ ∨ _) ↔ _
    constructor
    · rintro (⟨⟨hr, hne, -⟩ | rfl, hout⟩ | hold)
      · exact .inl ⟨hr, not_or.mpr ⟨hne, hout⟩⟩
      · exact .inr (.inl rfl)
      · exact .inr (.inr hold)
    · rintro (⟨hr, hout⟩ | rfl | hold)
      · obtain ⟨hne, hout⟩ := not_or.mp hout
        exact .inl ⟨.inl ⟨hr, hne, hne⟩, hout⟩
      · -- the later outputs have other outpoints
        exact .inl ⟨.inr rfl, hnew⟩
      · exact .inr hold

end Ledger

end DashFaucet

import Mathlib.Data.Set.Basic
import Mathlib.Data.Set.Operations
import DashFaucet.Treasury.Ledger

/-!
# Reconciling is invisible

The faucet may spend what the explorers list and what it is waiting for, without what it has spent.
`reconcile` forgets rows of the ledger that say nothing any more, so this set should not notice; the
one thing it may notice is a coin that is given back because its spend never landed.

* `Ledger.spentOutpoints`, `Ledger.pendingOutpoints`, `Ledger.available`: the sets.
* `Ledger.available_spendable`: `available` is what the view offers.
* `Ledger.available_reconcile`, `Ledger.reconcile_reconcile`: what reconciling does to it, once and
  twice.
-/

namespace DashFaucet

namespace Ledger

variable (confirmed : List Outpoint) (now : ℤ) (l : Ledger)

def spentOutpoints : Set Outpoint := {o | ∃ r ∈ l.spent.rows, r.outpoint = o}

def pendingOutpoints : Set Outpoint := {o | ∃ r ∈ l.pending.rows, r.outpoint = o}

/-- What can be spent when the explorers list `confirmed`. -/
def available : Set Outpoint := ({o | o ∈ confirmed} ∪ l.pendingOutpoints) \ l.spentOutpoints

/-- The listed coins that were spent more than a day ago. -/
def released : Set Outpoint :=
  {o | o ∈ confirmed ∧ ∃ r ∈ l.spent.rows, r.outpoint = o ∧ 24 * hourMs < now - r.createdAt}

theorem isSpent_eq_false {o : Outpoint} : l.isSpent o = false ↔ o ∉ l.spentOutpoints := by
  rw [isSpent, List.any_eq_false]
  constructor
  · rintro hnone ⟨r, hr, hout⟩
    exact hnone r hr (decide_eq_true hout)
  · intro hnone r hr hout
    exact hnone ⟨r, hr, of_decide_eq_true hout⟩

/-- **The view offers what is available**, as long as nothing listed is immature. -/
theorem available_spendable (script : String) (utxos : List Utxo) :
    {o | ∃ u ∈ l.spendable script utxos [], u.outpoint = o} =
      l.available (utxos.map Utxo.outpoint) := by
  ext o
  constructor
  · rintro ⟨u, hu, rfl⟩
    obtain ⟨hfrom, hspent⟩ := mem_spendable.mp hu
    refine ⟨?_, l.isSpent_eq_false.mp hspent⟩
    -- the first listing of an outpoint counts, so each listed coin is there once
    obtain hlisted | ⟨r, hr, -, rfl⟩ := hfrom
    · exact .inl (((byOutpoint_spec utxos).2.2 _).mp (List.mem_map_of_mem hlisted))
    · exact .inr ⟨r, hr, rfl⟩
  · rintro ⟨hfrom, hspent⟩
    have hspent : l.isSpent o = false := l.isSpent_eq_false.mpr hspent
    by_cases hlisted : o ∈ utxos.map Utxo.outpoint
    · obtain ⟨u, hu, rfl⟩ := List.mem_map.mp (((byOutpoint_spec utxos).2.2 o).mpr hlisted)
      exact ⟨u, mem_spendable.mpr ⟨.inl hu, hspent⟩, rfl⟩
    · -- our own output, which the explorers have not seen
      obtain ⟨r, hr, rfl⟩ := hfrom.resolve_left hlisted
      have hview : PendingRow.toUtxo script r ∈ l.spendable script utxos [] :=
        mem_spendable.mpr ⟨.inr ⟨r, hr, hlisted, rfl⟩, hspent⟩
      exact ⟨_, hview, rfl⟩

/-! ### Once -/

/-- An outpoint that is locked no more was settled or is released. -/
theorem mem_spentOutpoints_reconcile {o : Outpoint} :
    o ∈ (l.reconcile confirmed now).spentOutpoints ↔
      ∃ r ∈ l.spent.rows, r.outpoint = o ∧ ¬Settled confirmed now r ∧ ¬Stale confirmed now r := by
  constructor
  · rintro ⟨r, hr, rfl⟩
    obtain ⟨hr, hkept⟩ := mem_spent_reconcile.mp hr
    exact ⟨r, hr, rfl, hkept⟩
  · rintro ⟨r, hr, rfl, hkept⟩
    exact ⟨r, mem_spent_reconcile.mpr ⟨hr, hkept⟩, rfl⟩

/-- A coin that the explorers list is locked until it is released. -/
theorem mem_available_reconcile_of_mem {o : Outpoint} (ho : o ∈ confirmed) :
    o ∈ (l.reconcile confirmed now).available confirmed ↔
      o ∈ l.available confirmed ∪ l.released confirmed now := by
  have hlocked : o ∈ (l.reconcile confirmed now).spentOutpoints ↔
      o ∈ l.spentOutpoints ∧ o ∉ l.released confirmed now := by
    rw [mem_spentOutpoints_reconcile]
    constructor
    · rintro ⟨r, hr, rfl, -, hfresh⟩
      refine ⟨⟨r, hr, rfl⟩, ?_⟩
      -- the row of an outpoint is one, so another cannot be the stale one
      rintro ⟨-, r', hr', hout, hage⟩
      obtain rfl : r' = r := Table.eq_of_key hr' hr hout
      exact hfresh ⟨ho, hage⟩
    · rintro ⟨⟨r, hr, rfl⟩, hkept⟩
      exact ⟨r, hr, rfl, fun h => h.1 ho, fun h => hkept ⟨ho, r, hr, rfl, h.2⟩⟩
  constructor
  · rintro ⟨-, hfree⟩
    by_cases hreleased : o ∈ l.released confirmed now
    · exact .inr hreleased
    · exact .inl ⟨.inl ho, fun hspent => hfree (hlocked.mpr ⟨hspent, hreleased⟩)⟩
  · rintro (⟨-, hfree⟩ | hreleased)
    · exact ⟨.inl ho, fun hspent => hfree (hlocked.mp hspent).1⟩
    · exact ⟨.inl ho, fun hspent => (hlocked.mp hspent).2 hreleased⟩

/-- An output only we know of stays what it was: when the row that locks it goes, it goes too. -/
theorem mem_available_reconcile_of_not_mem {o : Outpoint} (ho : o ∉ confirmed) :
    o ∈ (l.reconcile confirmed now).available confirmed ↔ o ∈ l.available confirmed := by
  constructor
  · rintro ⟨hfrom, hfree⟩
    obtain ⟨r, hr, rfl⟩ := hfrom.resolve_left ho
    obtain ⟨hr, -, hunsettled⟩ := mem_pending_reconcile.mp hr
    refine ⟨.inr ⟨r, hr, rfl⟩, ?_⟩
    rintro ⟨row, hrow, hout⟩
    -- a row that locks it would have to stay: it is not settled, and nothing unlisted is stale
    refine hfree ((mem_spentOutpoints_reconcile confirmed now l).mpr ⟨row, hrow, hout, ?_, ?_⟩)
    · exact fun hsettled => hunsettled ⟨row, hrow, hsettled, hout.symm⟩
    · exact fun hstale => ho (hout ▸ hstale.1)
  · rintro ⟨hfrom, hfree⟩
    obtain ⟨r, hr, rfl⟩ := hfrom.resolve_left ho
    refine ⟨.inr ⟨r, mem_pending_reconcile.mpr ⟨hr, ho, ?_⟩, rfl⟩, ?_⟩
    · rintro ⟨row, hrow, -, hout⟩
      exact hfree ⟨row, hrow, hout.symm⟩
    · intro hspent
      obtain ⟨row, hrow, hout, -⟩ := (mem_spentOutpoints_reconcile confirmed now l).mp hspent
      exact hfree ⟨row, hrow, hout⟩

/-- **Only stale spends are released.** -/
theorem available_reconcile : (l.reconcile confirmed now).available confirmed =
    l.available confirmed ∪ l.released confirmed now := by
  ext o
  by_cases ho : o ∈ confirmed
  · exact mem_available_reconcile_of_mem confirmed now l ho
  · rw [mem_available_reconcile_of_not_mem confirmed now l ho]
    constructor
    · exact .inl
    · rintro (h | h)
      · exact h
      · exact absurd h.1 ho

/-! ### Twice -/

/-- A row that is neither settled nor stale goes through a round untouched. -/
theorem reconcileRow_eq_self {row : SpentRow}
    (h : ¬Settled confirmed now row ∧ ¬Stale confirmed now row) :
    reconcileRow confirmed now l row = l := by
  obtain ⟨hsettled, hstale⟩ := h
  unfold reconcileRow
  by_cases ho : row.outpoint ∈ confirmed
  · have hage : ¬now - row.createdAt > spentStaleMs := fun hage => hstale ⟨ho, hage⟩
    simp [ho, hage]
  · have hage : ¬now - row.createdAt > spentSettledMs := fun hage => hsettled ⟨ho, hage⟩
    simp [ho, hage]

/-- The loop over such rows does nothing. -/
theorem foldl_reconcileRow_eq_self {rows : List SpentRow}
    (h : ∀ row ∈ rows, ¬Settled confirmed now row ∧ ¬Stale confirmed now row) :
    rows.foldl (reconcileRow confirmed now) l = l := by
  induction rows with
  | nil => rfl
  | cons row rows ih =>
    rw [List.foldl_cons, reconcileRow_eq_self confirmed now l (h row List.mem_cons_self)]
    exact ih fun row' hrow' => h row' (List.mem_cons_of_mem _ hrow')

/-- **Reconciling again changes nothing.** -/
theorem reconcile_reconcile : (l.reconcile confirmed now).reconcile confirmed now =
    l.reconcile confirmed now := by
  have hspent : ∀ row ∈ (l.reconcile confirmed now).spent.rows,
      ¬Settled confirmed now row ∧ ¬Stale confirmed now row := fun row hrow =>
    (mem_spent_reconcile.mp hrow).2
  have hpending : (l.reconcile confirmed now).pending.deleteWhere
      (fun r => confirmed.contains r.outpoint) = (l.reconcile confirmed now).pending := by
    apply Table.ext
    refine List.filter_eq_self.mpr fun r hr => ?_
    have hunlisted : r.outpoint ∉ confirmed := (mem_pending_reconcile.mp hr).2.1
    simp [hunlisted]
  -- both passes of the second round find nothing to do
  generalize l.reconcile confirmed now = l' at hspent hpending ⊢
  rw [reconcile, foldl_reconcileRow_eq_self confirmed now l' hspent, hpending]

/-- **Reconciling is invisible except for stale release.** What can be spent after it is what could
be spent before, and the listed coins spent more than a day ago; it is what the view offers; and
doing it again changes nothing. -/
theorem reconcile_invisible :
    (l.reconcile confirmed now).available confirmed =
      l.available confirmed ∪ l.released confirmed now ∧
    (∀ script utxos, {o | ∃ u ∈ l.spendable script utxos [], u.outpoint = o} =
      l.available (utxos.map Utxo.outpoint)) ∧
    (l.reconcile confirmed now).reconcile confirmed now = l.reconcile confirmed now :=
  ⟨l.available_reconcile confirmed now, l.available_spendable, l.reconcile_reconcile confirmed now⟩

end Ledger

end DashFaucet

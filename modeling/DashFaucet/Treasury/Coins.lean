import DashFaucet.Treasury.Runs

/-!
# The faucet's own coins

A transaction that was recorded has its outputs to the faucet in `pending`, as coins the explorers
do not list yet, and its inputs in `spent`. Rows leave either table by rules of their own, so that
an output may come back after it was spent, unless the two tables keep in step.

* `CoinEdits`, `Step.coins`: what the steps do to the two tables, and the events that tell it.
* `locksAfter`: the locks as the log alone tells them.
* `Careful`: no transaction is recorded when an output of it was spent and is no longer locked.
* `Sound`: the two tables are in step, and so was every view; kept in every careful run
  (`Faucet.sound_kept`).
-/

namespace DashFaucet

open Async

/-! ### What steps do to coins -/

/-- An event that moves no coins. -/
def Event.Still : Event → Prop
  | .viewed .. | .locked _ | .recorded _ => False
  | _ => True

/-- One change of `spent` and `pending` at `now`, and its events. -/
inductive CoinEdit (now : ℤ) (l : Ledger) : List Event → Ledger → Prop where
  | still {es : List Event} {l' : Ledger} (hspent : l'.spent = l.spent)
      (hpending : l'.pending.rows ⊆ l.pending.rows) (hes : ∀ e ∈ es, e.Still) :
      CoinEdit now l es l'
  | lock {l' : Ledger} (tx : BuiltTx) (hspent : l'.spent = (l.lockInputs tx now).spent)
      (hpending : l'.pending = l.pending) : CoinEdit now l [.locked tx] l'
  | spend {l' : Ledger} (tx : BuiltTx) (hspent : l'.spent = (l.lockInputs tx now).spent)
      (hpending : l'.pending = (l.recordOutputs tx now).pending) :
      CoinEdit now l [.locked tx, .recorded tx] l'
  | view (script : String) (snapshot : UtxoSnapshot) (immature : List String) :
      CoinEdit now l
        [.viewed snapshot { snapshot with
          utxos := (l.reconcile (snapshot.utxos.map Utxo.outpoint) now).spendable script
            snapshot.utxos immature }]
        (l.reconcile (snapshot.utxos.map Utxo.outpoint) now)

/-- Some changes, one after the other. -/
inductive CoinEdits (now : ℤ) : Ledger → List Event → Ledger → Prop where
  | nil (l : Ledger) : CoinEdits now l [] l
  | cons {l l' l'' : Ledger} {es es' : List Event} (h : CoinEdit now l es l')
      (h' : CoinEdits now l' es' l'') : CoinEdits now l (es ++ es') l''

namespace CoinEdits

variable {now : ℤ} {l l' l'' : Ledger} {es es' : List Event}

theorem single (h : CoinEdit now l es l') : CoinEdits now l es l' :=
  List.append_nil es ▸ .cons h (.nil l')

theorem trans (h : CoinEdits now l es l') (h' : CoinEdits now l' es' l'') :
    CoinEdits now l (es ++ es') l'' := by
  induction h with
  | nil l => exact h'
  | cons hedit _ ih =>
    rw [List.append_assoc]
    exact .cons hedit (ih h')

/-- A change that moves no coins, told by `es`. -/
theorem still (hspent : l'.spent = l.spent) (hpending : l'.pending.rows ⊆ l.pending.rows)
    (hes : ∀ e ∈ es, e.Still) : CoinEdits now l es l' := single (.still hspent hpending hes)

end CoinEdits

/-- A part of an operation, begun at `now`, as the coins see it. -/
def MovesCoins (now : ℤ) (s s' : State) : Prop :=
  ∃ es, s'.trace = s.trace ++ es ∧ CoinEdits now s.ledger es s'.ledger

namespace MovesCoins

variable {now : ℤ} {s t u : State}

theorem trans (h : MovesCoins now s t) (h' : MovesCoins now t u) : MovesCoins now s u := by
  obtain ⟨es, htrace, hedits⟩ := h
  obtain ⟨es', htrace', hedits'⟩ := h'
  exact ⟨es ++ es', by rw [htrace', htrace, List.append_assoc], hedits.trans hedits'⟩

/-- Nothing but other tables changed. -/
theorem quiet (htrace : t.trace = s.trace) (hspent : t.ledger.spent = s.ledger.spent)
    (hpending : t.ledger.pending.rows ⊆ s.ledger.pending.rows) : MovesCoins now s t :=
  ⟨[], by rw [htrace, List.append_nil], .still hspent hpending (by simp)⟩

/-- One event was added that moves no coins. -/
theorem note {e : Event} (htrace : t.trace = s.trace ++ [e]) (he : e.Still)
    (hspent : t.ledger.spent = s.ledger.spent)
    (hpending : t.ledger.pending.rows ⊆ s.ledger.pending.rows) : MovesCoins now s t := by
  refine ⟨[e], htrace, .still hspent hpending fun e' he' => ?_⟩
  rwa [List.mem_singleton.mp he']

theorem recordSpend (tx : BuiltTx) (now : ℤ) (s : State) :
    MovesCoins now s (s.recordSpend tx now) :=
  ⟨[.locked tx, .recorded tx], List.append_assoc .., .single (.spend tx rfl rfl)⟩

theorem conclude (tx : BuiltTx) (outcome : BroadcastSettlement) (locks : Bool) (now : ℤ)
    (s : State) : MovesCoins now s (s.conclude tx outcome locks now) := by
  have hnote : ∀ t : State, MovesCoins now t (t.note (.settled tx outcome)) :=
    fun t => note rfl trivial rfl (List.Subset.refl _)
  cases locks with
  | false => exact hnote s
  | true =>
    have hlock : MovesCoins now s (s.lockInputs tx now) := ⟨_, rfl, .single (.lock tx rfl rfl)⟩
    exact hlock.trans (hnote _)

end MovesCoins

/-- The bookkeeping of a settlement, as the coins see it. -/
theorem Books.coins {op : Op} {now : ℤ} {tx : BuiltTx} {outcome : BroadcastSettlement}
    {s s' : State} (h : Books op now tx outcome s s') : MovesCoins now s s' := by
  have hquiet : ∀ {t t' : State}, t'.trace = t.trace → t'.ledger.spent = t.ledger.spent →
      t'.ledger.pending = t.ledger.pending → MovesCoins now t t' := fun htrace hspent hpending =>
    .quiet htrace hspent (hpending ▸ List.Subset.refl _)
  cases h with
  | @paid input payer satoshis accepted _ hop hadm =>
    refine (MovesCoins.recordSpend tx now s).trans ?_
    cases payer <;> exact hquiet rfl rfl rfl
  | @doubtful input payer satoshis result _ hop hadm => cases payer <;> exact hquiet rfl rfl rfl
  | unpaid | unmaintained | kept => exact hquiet rfl rfl rfl
  | maintained => exact .recordSpend tx now s
  | awaited => exact (MovesCoins.recordSpend tx now s).trans (hquiet rfl rfl rfl)
  | discarded => exact hquiet rfl rfl rfl

/-- **The steps, as the coins see them.** -/
theorem Step.coins {f : Faucet} {op : Op} {now : ℤ} {s s' : State} (h : Step f op now s s') :
    MovesCoins now s s' := by
  have hsame : ∀ {l l' : Ledger}, l'.pending = l.pending → l'.pending.rows ⊆ l.pending.rows :=
    fun heq => heq ▸ List.Subset.refl _
  cases h with
  | prune hstart =>
    exact .quiet rfl rfl fun r hr => (Table.mem_deleteWhere.mp hr).1
  | verdict | demand | backfill | claim | recycle | spoil | count =>
    exact .quiet rfl rfl (hsame rfl)
  | admits | build | mint | issue => exact .note rfl trivial rfl (hsame rfl)
  | @view p address script snapshot immature =>
    exact ⟨_, rfl, .single (.view script snapshot immature)⟩
  | @settle tx outcome locks es pre _ _ hset hans honce hbooks =>
    exact (MovesCoins.conclude tx outcome locks now s).trans hbooks.coins
  -- a voucher in doubt till now records its spend
  | @confirm row p status height =>
    have hspent : MovesCoins now s
      (if row.state = .broadcastUnknown then s.recordSpend row.built now
        else s) := by
      split
      · exact .recordSpend ..
      · exact .quiet rfl rfl (hsame rfl)
    exact hspent.trans (.quiet rfl rfl (hsame rfl))

/-! ### The locks, told from the log -/

/-- What an entry does to the locks. -/
def relock (l : Ledger) : Entry → Ledger
  | (_, t, .locked tx) => l.lockInputs tx t
  | (_, t, .viewed snapshot _) => l.reconcile (snapshot.utxos.map Utxo.outpoint) t
  | _ => l

/-- The locks after a log. Only `spent` is filled. -/
def locksAfter (log : List Entry) : Ledger := log.foldl relock .empty

/-- The ledger has the locks that the log tells. -/
def Mirrors (l : Ledger) (log : List Entry) : Prop :=
  ∀ r, r ∈ l.spent.rows ↔ r ∈ (locksAfter log).spent.rows

theorem Mirrors.isSpent {l : Ledger} {log : List Entry} (h : Mirrors l log) (o : Outpoint) :
    (locksAfter log).isSpent o = true ↔ l.isSpent o = true := by
  rw [Ledger.isSpent_iff, Ledger.isSpent_iff]
  exact exists_congr fun r => and_congr_left fun _ => (h r).symm

/-- An event that moves no coins leaves the locks alone. -/
theorem foldl_relock_still {es : List Event} (h : ∀ e ∈ es, e.Still) (op : Op) (t : ℤ)
    (l : Ledger) : (entries op t es).foldl relock l = l := by
  induction es generalizing l with
  | nil => rfl
  | cons e es ih =>
    obtain ⟨he, hes⟩ := List.forall_mem_cons.mp h
    have hnone : relock l (op, t, e) = l := by
      cases e <;> first | rfl | exact he.elim
    change (entries op t es).foldl relock (relock l (op, t, e)) = l
    rw [hnone, ih hes]

theorem Mirrors.edit {op : Op} {now : ℤ} {l l' : Ledger} {es : List Event} {log : List Entry}
    (h : Mirrors l log) (hedit : CoinEdit now l es l') :
    Mirrors l' (log ++ entries op now es) := by
  -- locking the same inputs in ledgers of the same locks
  have hlock : ∀ {tx : BuiltTx}, l'.spent = (l.lockInputs tx now).spent →
      ∀ r, r ∈ l'.spent.rows ↔ r ∈ ((locksAfter log).lockInputs tx now).spent.rows := by
    intro tx hspent r
    rw [hspent, Ledger.mem_spent_lockInputs, Ledger.mem_spent_lockInputs, h r]
  intro r
  rw [locksAfter, List.foldl_append]
  change _ ↔ r ∈ ((entries op now es).foldl relock (locksAfter log)).spent.rows
  cases hedit with
  | still hspent hpending hes =>
    rw [foldl_relock_still hes, hspent]
    exact h r
  | lock tx hspent => exact hlock hspent r
  | spend tx hspent => exact hlock hspent r
  | view script snapshot immature =>
    change _ ↔ r ∈ ((locksAfter log).reconcile _ now).spent.rows
    rw [Ledger.mem_spent_reconcile, Ledger.mem_spent_reconcile, h r]

/-! ### Outputs that were made and consumed -/

/-- A recorded transaction made this coin. -/
def Made (log : List Entry) (o : Outpoint) : Prop :=
  ∃ op t tx, (op, t, .recorded tx) ∈ log ∧ o ∈ tx.ownOutputs.map OwnOutput.outpoint

/-- A recorded transaction consumed this coin. -/
def Consumed (log : List Entry) (o : Outpoint) : Prop :=
  ∃ op t tx, (op, t, .recorded tx) ∈ log ∧ o ∈ tx.inputs

theorem Made.mono {log log' : List Entry} {o : Outpoint} (h : Made log o) (hsub : log ⊆ log') :
    Made log' o := by
  obtain ⟨op, t, tx, hmem, ho⟩ := h
  exact ⟨op, t, tx, hsub hmem, ho⟩

/-- Only what is recorded consumes. -/
theorem consumed_append {log : List Entry} {op : Op} {t : ℤ} {es : List Event} {o : Outpoint} :
    Consumed (log ++ entries op t es) o ↔
      Consumed log o ∨ ∃ tx, .recorded tx ∈ es ∧ o ∈ tx.inputs := by
  constructor
  · rintro ⟨op', t', tx, hmem, ho⟩
    rcases List.mem_append.mp hmem with hmem | hmem
    · exact .inl ⟨op', t', tx, hmem, ho⟩
    · obtain ⟨e, he, heq⟩ := List.mem_map.mp hmem
      cases heq
      exact .inr ⟨tx, he, ho⟩
  · rintro (⟨op', t', tx, hmem, ho⟩ | ⟨tx, he, ho⟩)
    · exact ⟨op', t', tx, List.mem_append_left _ hmem, ho⟩
    · exact ⟨op, t, tx, List.mem_append_right _ (List.mem_map_of_mem he), ho⟩

/-- Whenever a transaction was recorded, the outputs of it that a recorded transaction had consumed
were locked. -/
def Careful (log : List Entry) : Prop :=
  ∀ hist op t tx, hist ++ [(op, t, .recorded tx)] <+: log →
    ∀ o ∈ tx.ownOutputs.map OwnOutput.outpoint, Consumed hist o → (locksAfter hist).isSpent o = true

theorem Careful.of_prefix {log log' : List Entry} (h : Careful log') (hpre : log <+: log') :
    Careful log := fun hist op t tx hhist => h hist op t tx (hhist.trans hpre)

/-- The two tables are in step, and so they were in every view. -/
structure Sound (l : Ledger) (log : List Entry) : Prop where
  /-- A consumed output that is still pending is locked. -/
  masked : ∀ r ∈ l.pending.rows, Consumed log r.outpoint → l.isSpent r.outpoint = true
  made : ∀ r ∈ l.pending.rows, Made log r.outpoint
  /-- What a view offered beyond the listing was made by the faucet and not consumed. -/
  viewed : ∀ hist op t snapshot view, hist ++ [(op, t, .viewed snapshot view)] <+: log →
    ∀ u ∈ view.utxos, u.outpoint ∉ snapshot.utxos.map Utxo.outpoint →
      Made hist u.outpoint ∧ ¬Consumed hist u.outpoint

namespace Sound

variable {op : Op} {now : ℤ} {l l' : Ledger} {es : List Event} {log : List Entry}

/-- A view is on record only where it was computed. -/
theorem viewed_append (h : Sound l log) (hes : ∀ snapshot view, .viewed snapshot view ∉ es) :
    ∀ hist op' t snapshot view,
      hist ++ [(op', t, .viewed snapshot view)] <+: log ++ entries op now es →
      ∀ u ∈ view.utxos, u.outpoint ∉ snapshot.utxos.map Utxo.outpoint →
        Made hist u.outpoint ∧ ¬Consumed hist u.outpoint := by
  intro hist op' t snapshot view hhist
  refine h.viewed hist op' t snapshot view (prefix_of_not_mem hhist fun hx => ?_)
  obtain ⟨e, he, heq⟩ := List.mem_map.mp hx
  cases heq
  exact hes snapshot view he

/-- Pending rows and locks stay, and nothing is recorded. -/
theorem keep (h : Sound l log) (hpending : l'.pending.rows ⊆ l.pending.rows)
    (hspent : ∀ o, l.isSpent o = true → l'.isSpent o = true)
    (hrecorded : ∀ tx, .recorded tx ∉ es) (hviewed : ∀ snapshot view, .viewed snapshot view ∉ es) :
    Sound l' (log ++ entries op now es) where
  masked r hr hused := by
    rcases consumed_append.mp hused with hused | ⟨tx, he, -⟩
    · exact hspent _ (h.masked r (hpending hr) hused)
    · exact absurd he (hrecorded tx)
  made r hr := (h.made r (hpending hr)).mono (List.subset_append_left _ _)
  viewed := h.viewed_append hviewed

/-- Locking keeps the locks there are. -/
theorem isSpent_of_lockInputs {tx : BuiltTx} (hspent : l'.spent = (l.lockInputs tx now).spent)
    {o : Outpoint} (h : l.isSpent o = true ∨ o ∈ tx.inputs) : l'.isSpent o = true := by
  have hlocked : (l.lockInputs tx now).isSpent o = true := by
    by_cases ho : o ∈ tx.inputs
    · exact Ledger.isSpent_lockInputs ho
    · obtain ⟨r, hr, rfl⟩ := Ledger.isSpent_iff.mp (h.resolve_right ho)
      exact Ledger.isSpent_iff.mpr ⟨r, Ledger.mem_spent_lockInputs.mpr (.inl ⟨hr, ho⟩), rfl⟩
  rw [Ledger.isSpent] at hlocked ⊢
  rwa [hspent]

/-- Recording masks the inputs; a new output that was consumed before is locked, if the record is
careful. -/
theorem spend (h : Sound l log) (hmirror : Mirrors l log) {tx : BuiltTx}
    (hspent : l'.spent = (l.lockInputs tx now).spent)
    (hpending : l'.pending = (l.recordOutputs tx now).pending)
    (hcareful : Careful (log ++ entries op now [.locked tx, .recorded tx])) :
    Sound l' (log ++ entries op now [.locked tx, .recorded tx]) where
  masked r hr hused := by
    -- used before, or an input of the new transaction
    rcases consumed_append.mp hused with hused | ⟨tx', he, hin⟩
    · rw [hpending] at hr
      rcases Ledger.of_mem_pending_recordOutputs hr with hr | hown
      · exact isSpent_of_lockInputs hspent (.inl (h.masked r hr hused))
      · -- an output of the new transaction: what was consumed before it was recorded is locked
        have hlocked : Mirrors (l.lockInputs tx now) (log ++ entries op now [.locked tx]) :=
          hmirror.edit (.lock tx rfl rfl)
        have hhist : log ++ entries op now [.locked tx] ++ [(op, now, .recorded tx)] <+:
            log ++ entries op now [.locked tx, .recorded tx] := by
          rw [List.append_assoc]
          exact List.prefix_rfl
        have hbefore := hcareful _ op now tx hhist r.outpoint hown
          (consumed_append.mpr (.inl hused))
        rw [hlocked.isSpent] at hbefore
        rw [Ledger.isSpent] at hbefore ⊢
        rwa [hspent]
    · simp only [List.mem_cons, reduceCtorEq, Event.recorded.injEq, List.not_mem_nil, or_false,
        false_or] at he
      subst he
      exact isSpent_of_lockInputs hspent (.inr hin)
  made r hr := by
    rw [hpending] at hr
    rcases Ledger.of_mem_pending_recordOutputs hr with hr | hown
    · exact (h.made r hr).mono (List.subset_append_left _ _)
    · exact ⟨op, now, tx, List.mem_append_right _ (by simp), hown⟩
  viewed := h.viewed_append fun _ _ he => by simp at he

/-- Reconciling forgets a pending output no later than its lock, so that a view of what is left
offers nothing consumed. -/
theorem view (h : Sound l log) (script : String) (snapshot : UtxoSnapshot)
    (immature : List String) :
    Sound (l.reconcile (snapshot.utxos.map Utxo.outpoint) now)
      (log ++ entries op now [.viewed snapshot { snapshot with
        utxos := (l.reconcile (snapshot.utxos.map Utxo.outpoint) now).spendable script
          snapshot.utxos immature }]) := by
  -- a row that leaves the spent table leaves no pending row behind
  have hmasked : ∀ r ∈ (l.reconcile (snapshot.utxos.map Utxo.outpoint) now).pending.rows,
      Consumed log r.outpoint →
        (l.reconcile (snapshot.utxos.map Utxo.outpoint) now).isSpent r.outpoint = true := by
    intro r hr hused
    obtain ⟨hold, hout, hkept⟩ := Ledger.mem_pending_reconcile.mp hr
    obtain ⟨row, hrow, heq⟩ := Ledger.isSpent_iff.mp (h.masked r hold hused)
    refine Ledger.isSpent_iff.mpr ⟨row, Ledger.mem_spent_reconcile.mpr ⟨hrow, ?_, ?_⟩, heq⟩
    · exact fun hsettled => hkept ⟨row, hrow, hsettled, heq.symm⟩
    · exact fun hstale => hout (heq ▸ hstale.1)
  refine ⟨fun r hr hused => ?_, fun r hr => ?_, fun hist op' t snapshot' view hhist => ?_⟩
  · refine hmasked r hr ((consumed_append.mp hused).resolve_right ?_)
    rintro ⟨tx, he, -⟩
    cases List.mem_singleton.mp he
  · exact (h.made r (Ledger.mem_pending_reconcile.mp hr).1).mono (List.subset_append_left _ _)
  -- the view is an earlier one or the new one
  · rcases List.prefix_concat_iff.mp hhist with heq | hhist
    · -- the new view
      obtain ⟨rfl, hlast⟩ := List.append_inj' heq rfl
      cases hlast
      intro u hu hout
      obtain ⟨hfrom, hfree⟩ := Ledger.mem_spendable.mp (Ledger.spendable_mature hu)
      rcases hfrom with hu | ⟨r, hr, -, rfl⟩
      · exact absurd ((Ledger.byOutpoint_spec _).2.2 _ |>.mp (List.mem_map_of_mem hu)) hout
      · refine ⟨h.made r (Ledger.mem_pending_reconcile.mp hr).1, fun hused => ?_⟩
        have hlocked := hmasked r hr hused
        rw [show (Ledger.PendingRow.toUtxo script r).outpoint = r.outpoint from rfl,
          hlocked] at hfree
        cases hfree
    · exact h.viewed hist op' t snapshot' view hhist

/-- **The step of the invariant.** -/
theorem edit (h : Sound l log) (hmirror : Mirrors l log) (hedit : CoinEdit now l es l')
    (hcareful : Careful (log ++ entries op now es)) : Sound l' (log ++ entries op now es) := by
  cases hedit with
  | still hspent hpending hes =>
    refine h.keep hpending (fun o ho => ?_) (fun tx he => hes _ he) fun snapshot view he => hes _ he
    rw [Ledger.isSpent] at ho ⊢
    rwa [hspent]
  | lock tx hspent hpending =>
    exact h.keep (hpending ▸ List.Subset.refl _)
      (fun o ho => isSpent_of_lockInputs hspent (.inl ho)) (fun _ he => by simp at he)
      fun _ _ he => by simp at he
  | spend tx hspent hpending => exact h.spend hmirror hspent hpending hcareful
  | view script snapshot immature => exact h.view script snapshot immature

/-- And of a whole step. -/
theorem edits {log : List Entry} (hedits : CoinEdits now l es l') (hmirror : Mirrors l log)
    (h : Careful log → Sound l log) :
    Mirrors l' (log ++ entries op now es) ∧
      (Careful (log ++ entries op now es) → Sound l' (log ++ entries op now es)) := by
  induction hedits generalizing log with
  | nil l => exact ⟨by simpa using hmirror, by simpa using h⟩
  | @cons l l₁ l₂ es es' hedit _ ih =>
    have hmirror' : Mirrors l₁ (log ++ entries op now es) := hmirror.edit hedit
    have hsound : Careful (log ++ entries op now es) → Sound l₁ (log ++ entries op now es) :=
      fun hcareful => (h (hcareful.of_prefix (List.prefix_append _ _))).edit hmirror hedit hcareful
    have hall := ih hmirror' hsound
    rwa [List.append_assoc, ← List.map_append] at hall

end Sound

namespace Faucet

variable {f : Faucet}

/-- The invariant about the faucet's own coins, as one of states. -/
abbrev SoundOf (s : State) : Prop :=
  Mirrors s.ledger s.log ∧ (Careful s.log → Sound s.ledger s.log)

theorem sound_kept : f.Kept SoundOf where
  step op s s' hrun hstep _ h := by
    obtain ⟨es, htrace, hedits⟩ := hstep.coins
    unfold SoundOf
    rw [State.log_append hrun hstep.continues htrace]
    exact Sound.edits hedits h.1 h.2
  answer op q a s hrun _ _ h := by
    unfold SoundOf
    rw [State.log_note hrun]
    -- an answer moves no coin
    have hstill : ∀ e ∈ [Event.io q a], e.Still := by simp [Event.Still]
    exact Sound.edits (.still rfl (List.Subset.refl _) hstill) h.1 h.2
  call c t s _ _ h := h
  enter op t s hrun _ _ _ h := by
    unfold SoundOf
    rw [State.log_enter hrun]
    exact h
  leave op r s hrun _ _ h := by
    unfold SoundOf
    rw [State.log_leave hrun]
    exact h

/-- In every careful run the coins are sound. -/
theorem sound_reached {c : Actor.Config f.treasury} (hc : f.Reached c)
    (hcareful : Careful c.store.log) : Sound c.store.ledger c.store.log := by
  refine (sound_kept.reached (fun clock => ⟨fun r => Iff.rfl, fun _ => ⟨?_, ?_, ?_⟩⟩)
    hc).2.2 hcareful
  · exact fun r hr => by cases hr
  · exact fun r hr => by cases hr
  · exact fun hist _ _ _ _ hhist => by simpa using List.prefix_nil.mp hhist

end Faucet

end DashFaucet

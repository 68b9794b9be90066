import DashFaucet.Treasury.Charges

/-!
# Locked coins

The inputs of a transaction that was accepted, or may be live, are locked by a row in `spent`. Every
later view reconciles these rows with whatever the explorers list, and every kind of spender builds
from such a view. A lock is released in two ways only: a listing lacks the coin half an hour after
the lock was last taken, or a day has passed.

* `Released`: when a lock may be gone, told from the record of the run alone.
* `Locks`: the invariant; a lock still holds or may be gone, and what was built kept to the locks.
* `Sealed`: whatever was accepted or left in doubt is locked.
* `Faucet.no_double_spend`: no transaction spends a coin that an earlier one locked, within half an
  hour, nor within a day while every listing shows the coin.
-/

namespace DashFaucet

open Async

/-- Some listing lacks the coin. -/
def Unlisted (o : Outpoint) (es : List Entry) : Prop :=
  ∃ op t p address utxos, (op, t, .io (.listing p address) (.ok utxos)) ∈ es ∧
    o ∉ utxos.map Utxo.outpoint

/-- A lock taken at `t` may be gone at `now`, after the entries `es`. -/
def Released (t now : ℤ) (o : Outpoint) (es : List Entry) : Prop :=
  t + spentStaleMs < now ∨ (t + spentSettledMs < now ∧ Unlisted o es)

theorem Released.mono {t now now' : ℤ} {o : Outpoint} {es es' : List Entry}
    (h : Released t now o es) (hnow : now ≤ now') (hes : es ⊆ es') : Released t now' o es' := by
  rcases h with hstale | ⟨hsettled, op, t', p, address, utxos, hmem, hout⟩
  · exact .inl (by omega)
  · exact .inr ⟨by omega, op, t', p, address, utxos, hes hmem, hout⟩

/-! ### The invariant -/

/-- `spent` keeps its locks: every row is there, or another of its outpoint taken at `now`. -/
def KeepsLocks (now : ℤ) (l l' : Ledger) : Prop :=
  ∀ r ∈ l.spent.rows, ∃ r' ∈ l'.spent.rows, r'.outpoint = r.outpoint ∧
    (r'.createdAt = r.createdAt ∨ r'.createdAt = now)

theorem KeepsLocks.of_eq {now : ℤ} {l l' : Ledger} (h : l'.spent = l.spent) :
    KeepsLocks now l l' := fun r hr => ⟨r, h ▸ hr, rfl, .inl rfl⟩

/-- What the log says of locks, and what the ledger still knows of them. -/
structure Locks (now : ℤ) (l : Ledger) (log : List Entry) : Prop where
  timely : ∀ x ∈ log, x.2.1 ≤ now
  /-- A lock holds or may be gone. -/
  held : ∀ op t tx post, (op, t, .locked tx) :: post <:+ log → ∀ o ∈ tx.inputs,
    (∃ r ∈ l.spent.rows, r.outpoint = o ∧ t ≤ r.createdAt) ∨ Released t now o post
  /-- What was built spends a locked coin only when the lock may have been gone. -/
  apart : ∀ hist op' t' tx', hist ++ [(op', t', .built tx')] <+: log →
    ∀ op t tx mid, (op, t, .locked tx) :: mid <:+ hist → ∀ o ∈ tx.inputs, o ∈ tx'.inputs →
      Released t t' o mid
  distinct : ∀ op t tx, (op, t, .built tx) ∈ log → tx.inputs.Nodup

namespace Locks

variable {now now' : ℤ} {l l' : Ledger} {log : List Entry}

/-- A lock that is kept goes on as before. -/
theorem held_of_keeps (h : Locks now l log) (hkeep : KeepsLocks now l l') {op : Op} {t : ℤ}
    {tx : BuiltTx} {post : List Entry} (hpost : (op, t, .locked tx) :: post <:+ log) {o : Outpoint}
    (ho : o ∈ tx.inputs) :
    (∃ r ∈ l'.spent.rows, r.outpoint = o ∧ t ≤ r.createdAt) ∨ Released t now o post := by
  rcases h.held op t tx post hpost o ho with ⟨r, hr, hout, hage⟩ | hgone
  · obtain ⟨r', hr', hout', hsame⟩ := hkeep r hr
    refine .inl ⟨r', hr', hout'.trans hout, ?_⟩
    have htime : t ≤ now := h.timely _ (hpost.subset List.mem_cons_self)
    omega
  · exact .inr hgone

/-- Nothing happens but that time goes on. -/
theorem later (h : Locks now l log) (hle : now ≤ now') : Locks now' l log where
  timely x hx := (h.timely x hx).trans hle
  held op t tx post hpost o ho :=
    (h.held op t tx post hpost o ho).imp_right fun hgone => hgone.mono hle (List.Subset.refl _)
  apart := h.apart
  distinct := h.distinct

/-- The ledger changes and keeps its locks. -/
theorem keep (h : Locks now l log) (hkeep : KeepsLocks now l l') : Locks now l' log where
  timely := h.timely
  held _ _ _ _ hpost _ ho := h.held_of_keeps hkeep hpost ho
  apart := h.apart
  distinct := h.distinct

/-- An entry is added, and a lock is taken with it if it says so. -/
theorem snoc (h : Locks now l log) (op : Op) (e : Event) (hkeep : KeepsLocks now l l')
    (hlock : ∀ tx, e = .locked tx → ∀ o ∈ tx.inputs, (⟨o, now⟩ : SpentRow) ∈ l'.spent.rows)
    (hbuilt : ∀ tx, e = .built tx → tx.inputs.Nodup ∧ ∀ o ∈ tx.inputs, l.isSpent o = false) :
    Locks now l' (log ++ [(op, now, e)]) where
  timely x hx := by
    rcases List.mem_append.mp hx with hx | hx
    · exact h.timely x hx
    · rw [List.mem_singleton.mp hx]
  held op' t tx post hpost o ho := by
    rcases List.suffix_concat_iff.mp hpost with hnil | ⟨front, heq, hfront⟩
    · cases hnil
    · cases front with
      | nil =>
        -- the lock is the new entry
        obtain ⟨hhead, -⟩ := List.cons_eq_cons.mp heq
        cases hhead
        exact .inl ⟨_, hlock tx rfl o ho, rfl, le_refl now⟩
      | cons x mid =>
        -- an older lock is kept, or let go for a reason that stays on record
        obtain ⟨rfl, rfl⟩ := List.cons_eq_cons.mp heq
        refine (h.held_of_keeps hkeep hfront ho).imp_right fun hgone => ?_
        exact hgone.mono (le_refl now) (List.subset_append_left _ _)
  apart hist op' t' tx' hhist op₀ t tx mid hmid o ho ho' := by
    rcases List.prefix_concat_iff.mp hhist with heq | hhist
    · -- the transaction is built now, from coins that are not spent
      obtain ⟨rfl, hlast⟩ := List.append_inj' heq rfl
      cases hlast
      rcases h.held op₀ t tx mid hmid o ho with ⟨r, hr, hout, -⟩ | hgone
      · have hspent : l.isSpent o = true := Ledger.isSpent_iff.mpr ⟨r, hr, hout⟩
        rw [(hbuilt tx' rfl).2 o ho'] at hspent
        cases hspent
      · exact hgone
    · exact h.apart hist op' t' tx' hhist op₀ t tx mid hmid o ho ho'
  distinct op' t tx hx := by
    rcases List.mem_append.mp hx with hx | hx
    · exact h.distinct op' t tx hx
    · cases List.mem_singleton.mp hx
      exact (hbuilt tx rfl).1

/-- Reconciling releases a lock in the two ways only. `cur` are the entries of the operation that
runs, the listing among them. -/
theorem reconcile (h : Locks now l log) {cur : List Entry} (hsuffix : cur <:+ log)
    (hcur : ∀ x ∈ cur, x.2.1 = now) {op : Op} {p : Provider} {address : String} {utxos : List Utxo}
    (hans : (op, now, .io (.listing p address) (.ok utxos)) ∈ cur) :
    Locks now (l.reconcile (utxos.map Utxo.outpoint) now) log where
  timely := h.timely
  held op' t tx post hpost o ho := by
    rcases h.held op' t tx post hpost o ho with ⟨r, hr, rfl, hage⟩ | hgone
    -- a reconciliation drops a lock that is stale, or that is settled and no longer listed
    · by_cases hstale : Ledger.Stale (utxos.map Utxo.outpoint) now r
      · refine .inr (.inl ?_)
        have := hstale.2
        omega
      by_cases hsettled : Ledger.Settled (utxos.map Utxo.outpoint) now r
      · -- the lock is older than this operation, so the listing comes after it
        obtain ⟨hout, hold⟩ := hsettled
        refine .inr (.inr ⟨by omega, op, now, p, address, utxos, ?_, hout⟩)
        have hearlier : t ≠ now := by
          have : 0 < spentSettledMs := by decide
          omega
        have hnot : ((op', t, .locked tx) : Entry) ∉ cur := fun hx => hearlier (hcur _ hx)
        rcases List.suffix_or_suffix_of_suffix hpost hsuffix with hin | hin
        · exact absurd (hin.subset List.mem_cons_self) hnot
        · rcases List.suffix_cons_iff.mp hin with heq | hin
          · rw [heq] at hnot
            exact absurd List.mem_cons_self hnot
          · exact hin.subset hans
      · exact .inl ⟨r, Ledger.mem_spent_reconcile.mpr ⟨hr, hsettled, hstale⟩, rfl, hage⟩
    · exact .inr hgone
  apart := h.apart
  distinct := h.distinct

end Locks

/-! ### The operations keep to the locks -/

namespace Faucet

variable {f : Faucet}

/-- The invariant about the locks, as one of states. -/
abbrev LocksOf (s : State) : Prop := Locks s.now s.ledger s.log

section Pieces

variable {s s' : State} {op : Op} (hrun : s.running = some op)

include hrun

/-- An event that neither locks nor builds. -/
theorem locks_note (h : LocksOf s) (e : Event) (hlock : ∀ tx, e ≠ .locked tx)
    (hbuilt : ∀ tx, e ≠ .built tx) : LocksOf (s.note e) := by
  unfold LocksOf
  rw [State.log_note hrun]
  exact h.snoc op e (.of_eq rfl) (fun tx he => absurd he (hlock tx))
    fun tx he => absurd he (hbuilt tx)

theorem locks_lockInputs (h : LocksOf s) (tx : BuiltTx) : LocksOf (s.lockInputs tx s.now) := by
  have hrun' : (s.withLedger (Ledger.lockInputs tx s.now)).running = some op := hrun
  have hlog : (s.lockInputs tx s.now).log = s.log ++ [(op, s.now, .locked tx)] := by
    rw [State.lockInputs, State.log_note hrun', State.log_running hrun', State.log_running hrun]
    rfl
  unfold LocksOf
  rw [hlog]
  refine h.snoc op _ (fun r hr => ?_) (fun tx' he o ho => ?_) (fun tx' he => (by cases he))
  · -- the rows of the inputs are taken anew
    by_cases hin : r.outpoint ∈ tx.inputs
    · exact ⟨⟨r.outpoint, s.now⟩, Ledger.mem_spent_lockInputs.mpr (.inr ⟨hin, rfl⟩), rfl, .inr rfl⟩
    · exact ⟨r, Ledger.mem_spent_lockInputs.mpr (.inl ⟨hr, hin⟩), rfl, .inl rfl⟩
  · cases he
    exact Ledger.mem_spent_lockInputs.mpr (.inr ⟨ho, rfl⟩)

theorem locks_recordSpend (h : LocksOf s) (tx : BuiltTx) : LocksOf (s.recordSpend tx s.now) := by
  have hlocked := locks_lockInputs hrun h tx
  have hbooked : LocksOf (((s.lockInputs tx s.now).recordVerdict tx.txid false s.now).withLedger
      (Ledger.recordOutputs tx s.now)) := hlocked.keep (.of_eq rfl)
  have hrun' : (((s.lockInputs tx s.now).recordVerdict tx.txid false s.now).withLedger
      (Ledger.recordOutputs tx s.now)).running = some op := hrun
  exact locks_note hrun' hbooked (.recorded tx) (fun _ he => (by cases he))
    fun _ he => (by cases he)

theorem locks_conclude (h : LocksOf s) (tx : BuiltTx) (outcome : BroadcastSettlement)
    (locks : Bool) : LocksOf (s.conclude tx outcome locks s.now) := by
  have hnote : ∀ {t : State}, t.running = some op → LocksOf t →
      LocksOf (t.note (.settled tx outcome)) := fun ht hl =>
    locks_note ht hl _ (fun _ he => (by cases he)) fun _ he => (by cases he)
  cases locks with
  | false => exact hnote hrun h
  | true => exact hnote hrun (locks_lockInputs hrun h tx)

end Pieces

/-- The bookkeeping of a settlement. -/
theorem locks_books {s s' : State} {op : Op} {now : ℤ} {tx : BuiltTx}
    {outcome : BroadcastSettlement} (hrun : s.running = some op) (hnow : s.now = now)
    (h : LocksOf s) (hbooks : Books op now tx outcome s s') : LocksOf s' := by
  subst hnow
  cases hbooks with
  | @paid input payer satoshis accepted hop hadm =>
    have hspent := locks_recordSpend hrun h tx
    cases payer <;> exact hspent.keep (.of_eq rfl)
  | @doubtful input payer satoshis result hop hadm => cases payer <;> exact h.keep (.of_eq rfl)
  | unpaid | unmaintained | kept => exact h
  | maintained => exact locks_recordSpend hrun h tx
  | awaited => exact (locks_recordSpend hrun h tx).keep (.of_eq rfl)
  | discarded => exact h.keep (.of_eq rfl)

/-- Every step keeps to the locks. -/
theorem locks_step (hd : f.dash.Faithful) {s s' : State} {op : Op} (hrun : s.running = some op)
    (hstep : Step f op s.now s s') (h : LocksOf s) : LocksOf s' := by
  cases hstep with
  | prune | verdict | demand | backfill | claim | recycle | spoil | count =>
    exact h.keep (.of_eq rfl)
  -- only a lock and a built transaction are looked for in the log
  | admits => exact locks_note hrun h _ (fun _ he => (by cases he)) fun _ he => (by cases he)
  | @view p address script snapshot immature _ hans hmature =>
    have hlog := State.log_running hrun
    have hcur : ((op, s.now, .io (.listing p address) (.ok snapshot.utxos)) : Entry) ∈
        s.trace.map fun e => (op, s.now, e) := List.mem_map_of_mem hans
    have hview : LocksOf (s.withLedger
        (Ledger.reconcile (snapshot.utxos.map Utxo.outpoint) s.now)) := by
      refine h.reconcile (hlog ▸ List.suffix_append _ _) (fun x hx => ?_) hcur
      obtain ⟨e, -, rfl⟩ := List.mem_map.mp hx
      rfl
    have hrun' : (s.withLedger
        (Ledger.reconcile (snapshot.utxos.map Utxo.outpoint) s.now)).running = some op := hrun
    exact locks_note hrun' hview _ (fun _ he => (by cases he)) fun _ he => (by cases he)
  -- a built transaction spends offered coins, and these are not locked
  | @build tx _ hbuilt honce =>
    unfold LocksOf
    rw [State.log_note hrun]
    refine h.snoc op _ (.of_eq rfl) (fun _ he => (by cases he)) fun tx' he => ?_
    cases he
    exact ⟨(hbuilt hd).distinct, (hbuilt hd).free⟩
  -- the conclusion locks first, the bookkeeping after it
  | @settle tx outcome locks es pre _ _ hset hans honce hbooks =>
    have hconclude := locks_conclude hrun h tx outcome locks
    have hcont := Continues.conclude tx outcome locks s.now s
    exact locks_books (hcont.running.trans hrun) hcont.now hconclude hbooks
  | @mint row inventory =>
    have hbooked : LocksOf (s.withLedger fun l => { l with inventory }) := h.keep (.of_eq rfl)
    have hrun' : (s.withLedger fun l => { l with inventory }).running = some op := hrun
    exact locks_note hrun' hbooked _ (fun _ he => (by cases he)) fun _ he => (by cases he)
  | @issue input row =>
    have hbooked : LocksOf (s.issueVoucher row.id input.deviceHash s.now) := h.keep (.of_eq rfl)
    have hrun' : (s.issueVoucher row.id input.deviceHash s.now).running = some op := hrun
    exact locks_note hrun' hbooked _ (fun _ he => (by cases he)) fun _ he => (by cases he)
  | @confirm row =>
    have hspent : LocksOf (if row.state = .broadcastUnknown then s.recordSpend row.built s.now
        else s) := by
      split
      · exact locks_recordSpend hrun h row.built
      · exact h
    exact hspent.keep (.of_eq rfl)

theorem locks_kept (hd : f.dash.Faithful) : f.Kept LocksOf where
  step op s s' hrun hstep _ h := locks_step hd hrun hstep h
  answer op q a s hrun _ _ h :=
    locks_note hrun h _ (fun _ he => (by cases he)) fun _ he => (by cases he)
  call c t s _ _ h := h
  enter op t s hrun _ hle _ h := by
    unfold LocksOf
    rw [State.log_enter hrun]
    exact h.later hle
  leave op r s hrun _ _ h := by
    unfold LocksOf
    rw [State.log_leave hrun]
    exact h

/-! ### Whatever may be live is locked -/

/-- Every broadcast that may be live has its inputs locked. -/
def Sealed (trace : List Event) : Prop :=
  ∀ tx outcome, .settled tx outcome ∈ trace → outcome.accepted? ≠ none → .locked tx ∈ trace

theorem Sealed.append {trace es : List Event} (h : Sealed trace)
    (hes : ∀ tx outcome, .settled tx outcome ∈ es → outcome.accepted? ≠ none →
      .locked tx ∈ trace ++ es) : Sealed (trace ++ es) := by
  intro tx outcome he hlive
  rcases List.mem_append.mp he with he | he
  · exact List.mem_append_left _ (h tx outcome he hlive)
  · exact hes tx outcome he hlive

/-- An event that settles nothing. -/
theorem Sealed.snoc {trace : List Event} (h : Sealed trace) {e : Event}
    (hset : ∀ tx outcome, e ≠ .settled tx outcome) : Sealed (trace ++ [e]) := by
  refine h.append fun tx outcome he => ?_
  exact absurd (List.mem_singleton.mp he).symm (hset tx outcome)

theorem sealed_step {s s' : State} {op : Op} {now : ℤ} (hstep : Step f op now s s')
    (h : Sealed s.trace) : Sealed s'.trace := by
  cases hstep with
  | prune | verdict | demand | backfill | claim | recycle | spoil | count => exact h
  | admits | view | build | mint | issue => exact h.snoc fun _ _ he => by cases he
  | @settle tx outcome locks es pre _ _ hset hans honce hbooks =>
    rw [hbooks.trace_eq, trace_conclude, List.append_assoc, List.append_assoc]
    refine h.append fun tx' outcome' he hlive => List.mem_append_right _ ?_
    have hnew : tx' = tx ∧ outcome' = outcome := by
      rcases List.mem_append.mp he with he | he
      · cases locks <;> simp at he
      · rcases List.mem_append.mp he with he | he
        · cases List.mem_singleton.mp he
          exact ⟨rfl, rfl⟩
        · cases outcome <;> simp [BroadcastSettlement.booked] at he
    obtain ⟨rfl, rfl⟩ := hnew
    cases outcome' with
    | ok accepted =>
      -- the bookkeeping of an acceptance takes the locks
      exact List.mem_append_right _ (List.mem_append_right _ List.mem_cons_self)
    | failed result uncertain =>
      cases uncertain with
      | false => exact absurd rfl hlive
      | true =>
        obtain rfl := hset.locks_of_uncertain
        exact List.mem_append_left _ List.mem_cons_self
  | @confirm row =>
    split
    · have hnone : ∀ e : Event, e = .locked row.built ∨ e = .recorded row.built →
          ∀ tx outcome, e ≠ .settled tx outcome := by
        rintro e (rfl | rfl) tx outcome he <;> cases he
      exact (h.snoc (hnone _ (.inl rfl))).snoc (hnone _ (.inr rfl))
    · exact h

theorem sealed_kept : f.Kept fun s => (∀ r ∈ s.past, Sealed r.1.trace) ∧ Sealed s.trace where
  step op s s' _ hstep _ h := by
    refine ⟨?_, sealed_step hstep h.2⟩
    rw [hstep.continues.past]
    exact h.1
  answer op q a s _ _ _ h := ⟨h.1, h.2.snoc fun _ _ he => by cases he⟩
  call c t s _ _ h := h
  enter op t s _ _ _ _ h := ⟨h.1, fun _ _ he => by cases he⟩
  leave op r s _ _ _ h := by
    refine ⟨fun x hx => ?_, fun _ _ he => by cases he⟩
    rcases List.mem_append.mp hx with hx | hx
    · exact h.1 x hx
    · rw [List.mem_singleton.mp hx]
      exact h.2

/-- **No double spend**, whatever the explorers list. In every run: a transaction built within half
an hour after an earlier one's inputs were locked spends none of them, and within a day it spends
none that every listing in between shows; every transaction built spends distinct coins; and the
inputs of every broadcast that was accepted or left in doubt are locked by its operation. -/
theorem no_double_spend (hd : f.dash.Faithful) {c : Actor.Config f.treasury} (hc : f.Reached c) :
    (∀ pre op t tx mid op' t' tx' post,
      c.store.log = pre ++ (op, t, .locked tx) :: mid ++ (op', t', .built tx') :: post →
      ∀ o ∈ tx.inputs,
        (t' ≤ t + spentSettledMs → o ∉ tx'.inputs) ∧
        (t' ≤ t + spentStaleMs →
          (∀ op₀ t₀ p address utxos, (op₀, t₀, .io (.listing p address) (.ok utxos)) ∈ mid →
            o ∈ utxos.map Utxo.outpoint) → o ∉ tx'.inputs)) ∧
    (∀ op t tx, (op, t, .built tx) ∈ c.store.log → tx.inputs.Nodup) ∧
    ∀ op t tx outcome, (op, t, .settled tx outcome) ∈ c.store.log → outcome.accepted? ≠ none →
      (op, t, .locked tx) ∈ c.store.log := by
  obtain ⟨-, h⟩ := (locks_kept hd).reached (fun clock => ⟨fun _ hx => (by cases hx),
    fun _ _ _ _ hpost => (by cases List.suffix_nil.mp hpost),
    fun hist _ _ _ hhist => (by simpa using List.prefix_nil.mp hhist),
    fun _ _ _ hx => (by cases hx)⟩) hc
  obtain ⟨halign, hpast, hnow⟩ := sealed_kept.reached
    (fun clock => ⟨fun _ hr => (by cases hr), fun _ _ he => (by cases he)⟩) hc
  refine ⟨fun pre op t tx mid op' t' tx' post hlog o ho => ?_, h.distinct, ?_⟩
  -- the lock is the one the log shows before the second transaction was built
  · have hgone : o ∈ tx'.inputs → Released t t' o mid := by
      refine h.apart (pre ++ (op, t, .locked tx) :: mid) op' t' tx' ?_ op t tx mid
        (List.suffix_append _ _) o ho
      rw [hlog]
      exact ⟨post, by simp⟩
    have hshort : spentSettledMs ≤ spentStaleMs := by decide
    refine ⟨fun hle hin => ?_, fun hle hlisted hin => ?_⟩
    · rcases hgone hin with hstale | ⟨hsettled, -⟩ <;> omega
    · rcases hgone hin with hstale | ⟨-, op₀, t₀, p, address, utxos, hmem, hout⟩
      · omega
      · exact hout (hlisted op₀ t₀ p address utxos hmem)
  · intro op t tx outcome hx hlive
    obtain ⟨r, hr, hx⟩ := List.mem_flatMap.mp hx
    obtain ⟨e, he, heq⟩ := List.mem_map.mp hx
    cases heq
    refine List.mem_flatMap.mpr ⟨r, hr, List.mem_map.mpr ⟨.locked tx, ?_, rfl⟩⟩
    -- the settlement is a past operation's or that of the operation under way
    rcases List.mem_append.mp hr with hr | hr
    · obtain ⟨r', hr', rfl⟩ := List.mem_map.mp hr
      exact hpast r' hr' tx outcome he hlive
    · cases hrun : c.store.running with
      | none =>
        rw [hrun] at hr
        cases hr
      | some op =>
        rw [hrun] at hr
        cases List.mem_singleton.mp hr
        exact hnow tx outcome he hlive

/-- The instant of an entry that locks (`true`) or builds, and how many inputs it is about. -/
def spending : Entry → Option (Bool × ℤ × ℕ)
  | (_, t, .locked tx) => some (true, t, tx.inputs.length)
  | (_, t, .built tx) => some (false, t, tx.inputs.length)
  | _ => none

/-- Two payouts a second apart. -/
theorem no_double_spend_small : ∃ c, small.Reached c ∧
    ∃ pre op t tx mid op' tx' post, c.store.log =
      pre ++ (op, t, .locked tx) :: mid ++ (op', t + 1000, .built tx') :: post ∧
      tx.inputs.length = 1 ∧ tx'.inputs.length = 1 ∧ ∀ o ∈ tx.inputs, o ∉ tx'.inputs := by
  have hrun : (smallAfter
      (smallRun (.payout { address := "Xalice", pubKeyHash := "alice", ip := "192.0.2.1" }) 1000 5
        (.ok "sent") ++
      smallRun (.payout { address := "Xbob", pubKeyHash := "bob", ip := "192.0.2.2" }) 2000 5
        (.ok "sent"))).map (fun c => c.store.log.filterMap spending) =
        some [(false, 1000, 1), (true, 1000, 1), (false, 2000, 1), (true, 2000, 1)] := by
    decide +kernel
  obtain ⟨c, hc, hspending⟩ := Option.map_eq_some_iff.mp hrun
  have hreached := smallAfter_reached hc
  obtain ⟨l₁, x, l₂, hlog, -, -, hrest⟩ := List.filterMap_eq_cons_iff.mp hspending
  obtain ⟨l₃, ⟨op, t, e⟩, l₄, rfl, -, hlock, hrest⟩ := List.filterMap_eq_cons_iff.mp hrest
  obtain ⟨mid, ⟨op', t', e'⟩, post, rfl, -, hbuild, -⟩ := List.filterMap_eq_cons_iff.mp hrest
  cases e with
  -- the entries that count are a lock and, after it, a built transaction
  | locked tx =>
    cases e' with
    | built tx' =>
      simp only [spending, Option.some.injEq, Prod.mk.injEq, true_and] at hlock hbuild
      obtain ⟨rfl, hone⟩ := hlock
      obtain ⟨rfl, hone'⟩ := hbuild
      have hsplit : c.store.log = (l₁ ++ x :: l₃) ++ (op, 1000, .locked tx) :: mid ++
          (op', 1000 + 1000, .built tx') :: post := by
        rw [hlog]
        simp
      refine ⟨c, hreached, _, op, 1000, tx, mid, op', tx', post, hsplit, hone, hone', ?_⟩
      intro o ho
      refine ((no_double_spend smallTx_faithful hreached).1 _ _ _ _ _ _ _ _ _ hsplit o ho).1 ?_
      decide
    | _ => simp [spending] at hbuild
  | _ => simp [spending] at hlock

end Faucet

end DashFaucet

import DashFaucet.Treasury.Vouchers

/-!
# Immature coinbases are never offered

A coinbase output can be spent once it is deep enough. The view holds back the transactions of young
coins, all but those known to be no coinbases. What is known is cached, and two parts of the program
write the cache: lookups, with a provider's answer, and the bookkeeping of an accepted broadcast,
with a transaction the Treasury built.

* `Cleared`: what the log says against a transaction being a coinbase.
* `Step.verdict`: what a step adds to the cache.
* `Seasoned`: the invariant; every cached verdict has its reason in the log.
* `Faucet.immature_never_offered`: so has every young coin that a view offered, unless its depth is
  NaN.
-/

namespace DashFaucet

open Async

/-! ### What is known of a transaction -/

/-- A provider answered that the transaction is no coinbase, or the Treasury built it. -/
def Cleared (log : List Entry) (txid : String) : Prop :=
  (∃ op t p, (op, t, .io (.isCoinbase p txid) (.ok false)) ∈ log) ∨
    ∃ op t tx, (op, t, .built tx) ∈ log ∧ tx.txid = txid

theorem Cleared.mono {log log' : List Entry} {txid : String} (h : Cleared log txid)
    (hsub : log ⊆ log') : Cleared log' txid := by
  rcases h with ⟨op, t, p, hans⟩ | ⟨op, t, tx, hbuilt, htxid⟩
  · exact .inl ⟨op, t, p, hsub hans⟩
  · exact .inr ⟨op, t, tx, hsub hbuilt, htxid⟩

/-! ### What a step adds to the cache -/

theorem Edit.built {f : Faucet} {op : Op} {now : ℤ} {trace : List Event} {row row' : InvitationRow}
    (h : Edit f op now trace row row') : row'.built = row.built := by
  cases h <;> rfl

/-- The bookkeeping of an accepted broadcast caches its transaction, and nothing else does. -/
theorem Books.verdict {op : Op} {now : ℤ} {tx : BuiltTx} {outcome : BroadcastSettlement}
    {s s' : State} (h : Books op now tx outcome s s') {row : CoinbaseCheck}
    (hrow : row ∈ s'.ledger.coinbaseChecks.rows) :
    row ∈ s.ledger.coinbaseChecks.rows ∨ row.txid = tx.txid := by
  have hrecord : ∀ {row}, row ∈ (s.recordSpend tx now).ledger.coinbaseChecks.rows →
      row ∈ s.ledger.coinbaseChecks.rows ∨ row.txid = tx.txid := by
    intro row hrow
    exact (Table.of_mem_insertOrIgnore hrow).imp_right (congrArg CoinbaseCheck.txid)
  cases h with
  | @paid input payer => cases payer <;> exact hrecord hrow
  | maintained | awaited => exact hrecord hrow
  | @doubtful input payer => cases payer <;> exact .inl hrow
  | unpaid | unmaintained | kept | discarded => exact .inl hrow

/-- The books of a voucher pass are about an asset lock of the inventory. -/
theorem Books.voucher {op : Op} {now : ℤ} {tx : BuiltTx} {outcome : BroadcastSettlement}
    {s s' : State} (h : Books op now tx outcome s s') (hop : op = .maintainInvitations) :
    ∃ row ∈ s.ledger.inventory.rows, row.built = tx := by
  cases h with
  | awaited _ hrow _ htx | kept _ hrow _ htx | discarded _ hrow _ htx => exact ⟨_, hrow, htx⟩
  | paid hop' | doubtful hop' | unpaid hop' | maintained hop' | unmaintained hop' =>
    rw [hop'] at hop
    cases hop

/-- **What a step caches** was answered, or is about a transaction that was built: by this
operation, or for a voucher. -/
theorem Step.verdict_of_mem {f : Faucet} {op : Op} {now : ℤ} {s s' : State} (h : Step f op now s s')
    {row : CoinbaseCheck} (hrow : row ∈ s'.ledger.coinbaseChecks.rows)
    (hfalse : row.isCoinbase = false) :
    row ∈ s.ledger.coinbaseChecks.rows ∨
      (∃ p, .io (.isCoinbase p row.txid) (.ok false) ∈ s.trace) ∨
      (∃ tx, .built tx ∈ s.trace ∧ tx.txid = row.txid) ∨
      ∃ voucher ∈ s.ledger.inventory.rows, voucher.built.txid = row.txid := by
  cases h with
  | prune => exact .inl (Table.mem_deleteWhere.mp hrow).1
  | @verdict p txid isCoinbase _ hans =>
    rcases Table.of_mem_insertOrIgnore hrow with hold | rfl
    · exact .inl hold
    · cases hfalse
      exact .inr (.inl ⟨p, hans⟩)
  | @view p address script snapshot immature =>
    refine .inl ?_
    obtain ⟨sp, pe, heq⟩ := Ledger.reconcile_eq (snapshot.utxos.map Utxo.outpoint) now s.ledger
    simp only [State.note, State.withLedger, heq] at hrow
    exact hrow
  | @settle tx outcome locks es pre _ _ hset hans honce hbooks =>
    have hinventory := inventory_conclude tx outcome locks now s
    rcases hbooks.verdict hrow with hold | htxid
    · refine .inl ?_
      cases locks <;> exact hold
    · -- recorded now: a voucher's asset lock, or a transaction this operation built
      refine .inr (.inr ?_)
      by_cases hop : op = .maintainInvitations
      · obtain ⟨voucher, hvoucher, rfl⟩ := hbooks.voucher hop
        exact .inr ⟨voucher, hinventory ▸ hvoucher, htxid.symm⟩
      · exact .inl ⟨tx, (honce hop).2, htxid.symm⟩
  | @confirm voucher p status height _ hop hvoucher =>
    split at hrow
    · -- in doubt till now: the asset lock is recorded
      rcases Table.of_mem_insertOrIgnore hrow with hold | rfl
      · exact .inl hold
      · exact .inr (.inr (.inr ⟨voucher, hvoucher, rfl⟩))
    · exact .inl hrow
  | admits | demand | build | backfill | mint | claim | recycle | spoil | issue | count =>
    exact .inl hrow

/-- What a step adds to the record, as far as views go: one view, without immature coins. -/
theorem Step.views {f : Faucet} {op : Op} {now : ℤ} {s s' : State} (h : Step f op now s s') :
    ∃ es, s'.trace = s.trace ++ es ∧ ((∀ snapshot view, .viewed snapshot view ∉ es) ∨
      ∃ snapshot view, es = [.viewed snapshot view] ∧ ∀ u ∈ view.utxos, u ∈ snapshot.utxos →
        Faucet.NotYoung snapshot.tipHeight u ∨ Classified s u.txid) := by
  have hnone : ∀ snapshot view : UtxoSnapshot, .viewed snapshot view ∉ ([] : List Event) :=
    fun _ _ => List.not_mem_nil
  cases h with
  | prune | verdict | demand | backfill | claim | recycle | spoil | count =>
    exact ⟨[], (List.append_nil _).symm, .inl hnone⟩
  | admits | build | mint | issue => exact ⟨_, rfl, .inl fun _ _ h => by simp at h⟩
  -- the one step that offers
  | @view p address script snapshot immature _ hans hmature =>
    refine ⟨_, rfl, .inr ⟨_, _, rfl, fun u hu hlisted => ?_⟩⟩
    exact hmature u hlisted (Ledger.mature_of_mem_spendable hu)
  | @settle tx outcome locks es pre _ _ hset hans honce hbooks =>
    refine ⟨(if locks then [.locked tx] else []) ++ .settled tx outcome :: outcome.booked tx, ?_,
      .inl fun snapshot view he => ?_⟩
    · rw [hbooks.trace_eq, trace_conclude, List.append_assoc, List.append_assoc]
      rfl
    · cases locks <;> cases outcome <;> simp [BroadcastSettlement.booked] at he
  | @confirm voucher =>
    split
    · exact ⟨[.locked voucher.built, .recorded voucher.built], List.append_assoc ..,
        .inl fun _ _ he => by simp at he⟩
    · exact ⟨[], (List.append_nil _).symm, .inl hnone⟩

/-! ### The invariant -/

/-- Every verdict in the cache has its reason in the log, and every young coin that was listed and
offered had one by then. -/
structure Seasoned (l : Ledger) (log : List Entry) : Prop where
  verdicts : ∀ row ∈ l.coinbaseChecks.rows, row.isCoinbase = false → Cleared log row.txid
  vouchers : ∀ row ∈ l.inventory.rows, ∃ op t, (op, t, .built row.built) ∈ log
  viewed : ∀ hist op t snapshot view, hist ++ [(op, t, .viewed snapshot view)] <+: log →
    ∀ u ∈ view.utxos, u ∈ snapshot.utxos →
      Faucet.NotYoung snapshot.tipHeight u ∨ Cleared hist u.txid

/-- The views so far, when events without a view are added. -/
theorem Seasoned.viewed_append {l : Ledger} {log : List Entry} (h : Seasoned l log)
    {op : Op} {t : ℤ}
    {es : List Event} (hnone : ∀ snapshot view, .viewed snapshot view ∉ es) :
    ∀ hist op' t' snapshot view, hist ++ [(op', t', .viewed snapshot view)] <+:
      log ++ entries op t es →
      ∀ u ∈ view.utxos, u ∈ snapshot.utxos →
        Faucet.NotYoung snapshot.tipHeight u ∨ Cleared hist u.txid := by
  intro hist op' t' snapshot view hhist
  refine h.viewed hist op' t' snapshot view (prefix_of_not_mem hhist fun hx => ?_)
  obtain ⟨e, he, heq⟩ := List.mem_map.mp hx
  cases heq
  exact hnone snapshot view he

namespace Faucet

variable {f : Faucet}

/-- The invariant as one of states. -/
abbrev SeasonedOf (s : State) : Prop := Seasoned s.ledger s.log

/-- What is classified has its reason in the log. -/
theorem cleared_of_classified {s : State} {op : Op} (hrun : s.running = some op)
    (h : SeasonedOf s) {txid : String} (hclass : Classified s txid) : Cleared s.log txid := by
  rcases hclass with ⟨row, hrow, rfl, hfalse⟩ | ⟨p, hans⟩
  · exact h.verdicts row hrow hfalse
  · exact .inl ⟨op, s.now, p, State.mem_log hrun hans⟩

theorem seasoned_step {op : Op} {s s' : State} (hrun : s.running = some op)
    (hstep : Step f op s.now s s') (h : SeasonedOf s) : SeasonedOf s' := by
  have hpre := State.log_prefix hrun hstep.continues
  refine ⟨fun row hrow hfalse => ?_, fun row hrow => ?_, ?_⟩
  · rcases hstep.verdict_of_mem hrow hfalse with hold | ⟨p, hans⟩ | ⟨tx, hbuilt, htxid⟩ |
      ⟨voucher, hvoucher, htxid⟩
    · exact (h.verdicts row hold hfalse).mono hpre.subset
    · exact .inl ⟨op, s.now, p, hpre.subset (State.mem_log hrun hans)⟩
    · exact .inr ⟨op, s.now, tx, hpre.subset (State.mem_log hrun hbuilt), htxid⟩
    · obtain ⟨op', t', hbuilt⟩ := h.vouchers voucher hvoucher
      exact .inr ⟨op', t', voucher.built, hpre.subset hbuilt, htxid⟩
  · -- a voucher keeps its asset lock from when it is minted
    have hkept : ∀ row ∈ s.ledger.inventory.rows, ∃ op t, (op, t, .built row.built) ∈ s'.log := by
      intro row hrow
      obtain ⟨op', t', hbuilt⟩ := h.vouchers row hrow
      exact ⟨op', t', hpre.subset hbuilt⟩
    rcases hstep.vouchers with htouch | ⟨minted, hmint⟩
    · obtain ⟨old, hold, hedit⟩ := htouch.edits.source row hrow
      rw [hedit.built]
      exact hkept old hold
    · rw [hmint.rows] at hrow
      rcases List.mem_append.mp hrow with hold | hnew
      · exact hkept row hold
      · rw [List.mem_singleton.mp hnew]
        exact ⟨op, s.now, hpre.subset (State.mem_log hrun hmint.built)⟩
  · obtain ⟨es, htrace, hviews⟩ := hstep.views
    have hlog := State.log_append hrun hstep.continues htrace
    rw [hlog]
    rcases hviews with hnone | ⟨snapshot, view, rfl, hmature⟩
    · exact h.viewed_append hnone
    · -- the new view is the last entry
      intro hist op' t' snapshot' view' hhist u hu hlisted
      rcases List.prefix_concat_iff.mp hhist with heq | hhist
      · obtain ⟨rfl, hlast⟩ := List.append_inj' heq rfl
        cases hlast
        exact (hmature u hu hlisted).imp_right (cleared_of_classified hrun h)
      · exact h.viewed hist op' t' snapshot' view' hhist u hu hlisted

theorem seasoned_kept : f.Kept SeasonedOf where
  step op s s' hrun hstep _ h := seasoned_step hrun hstep h
  answer op q a s hrun _ _ h := by
    have hlog := State.log_note hrun (.io q a)
    have hpre := State.log_prefix hrun (.note (.io q a) s)
    refine ⟨fun row hrow hfalse => ?_, fun row hrow => ?_, ?_⟩
    · exact (h.verdicts row hrow hfalse).mono hpre.subset
    · obtain ⟨op', t', hbuilt⟩ := h.vouchers row hrow
      exact ⟨op', t', hpre.subset hbuilt⟩
    · -- an answer is no view
      have hnone : ∀ snapshot view, .viewed snapshot view ∉ [Event.io q a] := by simp
      rw [hlog]
      exact h.viewed_append hnone
  call c t s _ _ h := h
  enter op t s hrun _ _ _ h := by
    show Seasoned s.ledger (s.enter op t).log
    rw [State.log_enter hrun]
    exact h
  leave op r s hrun _ _ h := by
    show Seasoned s.ledger (s.leave op s.now r).log
    rw [State.log_leave hrun]
    exact h

/-- **Immature coinbases are never offered** while depths are numbers. In every run, when providers
that answer tell the truth: a listed coin that a view offers, and whose depth at the tip of its
survey is not NaN, is deep enough, or its transaction is no coinbase: a lookup said so before, or
the Treasury built it. So a young coin whose transaction nobody classified is left out. A view looks
up no more transactions than the limit, none of them with a verdict in the cache. -/
theorem immature_never_offered {c : Actor.Config f.treasury} (hc : f.Reached c)
    {coinbase : String → Prop}
    (htrue : ∀ op t p txid answer, (op, t, .io (.isCoinbase p txid) (.ok answer)) ∈ c.store.log →
      (answer = true ↔ coinbase txid)) :
    (∀ hist op t snapshot view, hist ++ [(op, t, .viewed snapshot view)] <+: c.store.log →
      ∀ u ∈ view.utxos, u ∈ snapshot.utxos → Measured snapshot.tipHeight u →
        Mature snapshot.tipHeight u ∨
        (¬coinbase u.txid ∧
          ∃ op' t' p, (op', t', .io (.isCoinbase p u.txid) (.ok false)) ∈ hist) ∨
        ∃ op' t' tx, (op', t', .built tx) ∈ hist ∧ tx.txid = u.txid) ∧
    ∀ op now key, Triple (f.contract op now) (f.spendableUtxos key now) fun s _ t =>
      LooksUp s t := by
  obtain ⟨-, h⟩ := seasoned_kept.reached (fun clock => ⟨fun row hrow => (by cases hrow),
    fun row hrow => (by cases hrow),
    fun hist _ _ _ _ hhist => (by simpa using List.prefix_nil.mp hhist)⟩) hc
  refine ⟨fun hist op t snapshot view hhist u hu hlisted hnum => ?_, fun op now key s₀ s hs => ?_⟩
  · refine Or.imp (fun hdeep => NotYoung.mature hdeep hnum) (Or.imp_left ?_)
      (h.viewed hist op t snapshot view hhist u hu hlisted)
    -- the answer came before the view, and it was truthful
    rintro ⟨op', t', p, hans⟩
    have hmem := ((List.prefix_append _ _).trans hhist).subset hans
    refine ⟨fun hcoinbase => ?_, op', t', p, hans⟩
    cases (htrue op' t' p u.txid false hmem).mpr hcoinbase
  · exact (spendableUtxos_triple key).wp hs fun r t₀ t hg ⟨_, hup, _⟩ => ⟨hg, hup⟩

/-- Two young coins. -/
def youngCoins : List Utxo :=
  [⟨"a", 0, 3 * coin, "faucet", some 990⟩, ⟨"b", 0, 3 * coin, "faucet", some 990⟩]

/-- The small world with those coins, and a node that knows one of their transactions. -/
def youngWorld : (q : Query) → Answer q
  | .listing .. => .ok youngCoins
  | .isCoinbase _ txid => if txid = "a" then .ok false else .error "timeout"
  | q => smallWorld (.ok "sent") q

/-- The views of a log: the tip, and the coins that were listed and offered. -/
def viewOf : Entry → Option (JsNumber × List Utxo × List Utxo)
  | (_, _, .viewed snapshot view) => some (snapshot.tipHeight, snapshot.utxos, view.utxos)
  | _ => none

/-- The verdicts of a log. -/
def verdictOf : Entry → Option (String × Bool)
  | (_, _, .io (.isCoinbase _ txid) (.ok answer)) => some (txid, answer)
  | _ => none

theorem immature_never_offered_young : ∃ c, small.Reached c ∧ ∃ hist op t snapshot view,
    hist ++ [(op, t, .viewed snapshot view)] <+: c.store.log ∧ view.utxos.map Utxo.txid = ["a"] ∧
      ∀ u ∈ view.utxos, u ∈ snapshot.utxos → Measured snapshot.tipHeight u →
        Mature snapshot.tipHeight u ∨
        (u.txid ≠ "b" ∧
          ∃ op' t' p, (op', t', .io (.isCoinbase p u.txid) (.ok false)) ∈ hist) ∨
        ∃ op' t' tx, (op', t', .built tx) ∈ hist ∧ tx.txid = u.txid := by
  have hrun : (smallAfter (.begin .snapshot 1000 :: List.replicate 4 (.resume youngWorld))).map
      (fun c => (c.store.log.filterMap viewOf, c.store.log.filterMap verdictOf)) =
      some ([(1000, youngCoins, [⟨"a", 0, 3 * coin, "faucet", some 990⟩])], [("a", false)]) := by
    decide +kernel
  obtain ⟨c, hc, hsummary⟩ := Option.map_eq_some_iff.mp hrun
  obtain ⟨hviews, hverdicts⟩ := by simpa only [Prod.mk.injEq] using hsummary
  have htrue : ∀ op t p txid answer,
      (op, t, .io (.isCoinbase p txid) (.ok answer)) ∈ c.store.log →
        (answer = true ↔ txid = "b") := by
    intro op t p txid answer hans
    have hmem : (txid, answer) ∈ c.store.log.filterMap verdictOf :=
      List.mem_filterMap.mpr ⟨_, hans, rfl⟩
    rw [hverdicts, List.mem_singleton] at hmem
    cases hmem
    decide
  have hreached := smallAfter_reached hc
  obtain ⟨hist, ⟨op, t, e⟩, rest, hlog, -, hoffered, -⟩ := List.filterMap_eq_cons_iff.mp hviews
  -- the one view of the run
  cases e with
  | viewed snapshot view =>
    have hhist : hist ++ [(op, t, .viewed snapshot view)] <+: c.store.log :=
      ⟨rest, by rw [hlog, List.append_assoc]; rfl⟩
    have hsummary := Option.some.inj hoffered
    simp only [Prod.mk.injEq] at hsummary
    exact ⟨c, hreached, hist, op, t, snapshot, view, hhist, by rw [hsummary.2.2]; rfl,
      (immature_never_offered hreached htrue).1 hist op t snapshot view hhist⟩
  | _ => cases hoffered

/-- A coin with one confirmation. -/
def newborn : Utxo := ⟨"a", 0, 3 * coin, "faucet", some 1000⟩

/-- One evonode is drawn and answers NaN, and that coin is listed. -/
def nanWorld : (q : Query) → Answer q
  | .sample _ => ["https://1.2.3.4:443"]
  | .heights _ => fun i => .ok (if i = 0 then 1000 else .nan)
  | .listing .. => .ok [newborn]
  | q => smallWorld (.ok "sent") q

/-- An entry that says something about a transaction: a lookup, or that it was built. -/
def speaks : Entry → Bool
  | (_, _, .io (.isCoinbase ..) _) => true
  | (_, _, .built _) => true
  | _ => false

/-- **A coinbase with one confirmation** is offered at a tip that is NaN, though nobody was asked
what it is and nothing was built. -/
theorem immature_offered : ∃ c, sampling.Reached c ∧
    (∀ op t p txid answer, (op, t, .io (.isCoinbase p txid) (.ok answer)) ∈ c.store.log →
      (answer = true ↔ txid = newborn.txid)) ∧
    ∃ hist op t snapshot view, hist ++ [(op, t, .viewed snapshot view)] <+: c.store.log ∧
      newborn ∈ view.utxos ∧ newborn ∈ snapshot.utxos ∧ ¬Mature snapshot.tipHeight newborn ∧
        (∀ op' t' p a, (op', t', .io (.isCoinbase p newborn.txid) a) ∉ hist) ∧
        ∀ op' t' tx, (op', t', .built tx) ∉ hist := by
  have hrun : (samplingAfter (.begin .snapshot 1000 :: List.replicate 3 (.resume nanWorld))).map
      (fun c => (c.store.log.filterMap viewOf, c.store.log.any speaks)) =
      some ([(.nan, [newborn], [newborn])], false) := by
    decide +kernel
  obtain ⟨c, hc, hsummary⟩ := Option.map_eq_some_iff.mp hrun
  obtain ⟨hviews, hsilent⟩ := by simpa only [Prod.mk.injEq] using hsummary
  have hnobody : ∀ e ∈ c.store.log, speaks e ≠ true := List.any_eq_false.mp hsilent
  obtain ⟨hist, ⟨op, t, e⟩, rest, hlog, -, hoffered, -⟩ := List.filterMap_eq_cons_iff.mp hviews
  -- nobody is asked about the coin before it is offered
  have hearlier : ∀ e ∈ hist, speaks e ≠ true :=
    fun e he => hnobody e (hlog ▸ List.mem_append_left _ he)
  refine ⟨c, samplingAfter_reached hc,
    fun _ _ _ _ _ hans => absurd rfl (hnobody _ hans), hist, op, t, ?_⟩
  cases e with
  | viewed snapshot view =>
    have hsame := Option.some.inj hoffered
    simp only [Prod.mk.injEq] at hsame
    obtain ⟨htip, hlisted, hgiven⟩ := hsame
    refine ⟨snapshot, view, ⟨rest, by rw [hlog, List.append_assoc]; rfl⟩, ?_, ?_, ?_,
      fun _ _ _ _ hans => hearlier _ hans rfl, fun _ _ _ hbuilt => hearlier _ hbuilt rfl⟩
    · rw [hgiven]
      exact List.mem_singleton_self _
    · rw [hlisted]
      exact List.mem_singleton_self _
    · -- no depth at all is at least the maturity
      rw [htip]
      rintro ⟨height, hheight, hdeep⟩
      cases hheight
      exact hdeep
  | _ => cases hoffered

end Faucet

end DashFaucet

import DashFaucet.Treasury.Charges

/-!
# The life of a voucher

A voucher is minted before its asset lock is broadcast, waits for a ChainLock, is offered, given
out, claimed or taken back. Three operations rewrite its row, a few columns at a time.

* `Edit`: what becomes of one row, with what the record says for it; `Step.vouchers` derives it
  from the steps.
* `Lifecycle`: what every row satisfies.
* `Faucet.voucher_lifecycle`: so it does in every run, and no final state is left.
-/

namespace DashFaucet

open Async

/-! ### What becomes of a row -/

/-- What operation `op`, begun at `now`, may make of a voucher when `trace` is on record. -/
inductive Edit (f : Faucet) (op : Op) (now : ℤ) (trace : List Event) (row : InvitationRow) :
    InvitationRow → Prop where
  | kept : Edit f op now trace row row
  | appraised : Edit f op now trace row { row with amountSats := some (voucherAmount row.built) }
  | awaited (hstate : row.state = .broadcastUnknown) :
      Edit f op now trace row { row with state := .awaitingChainlock }
  | discarded {result : PayoutResult} {e : Event} {pre post : List Event}
      (hop : op = .maintainInvitations) (hstate : row.state = .broadcastUnknown)
      (htrace : trace = pre ++ e :: post ++ [.settled row.built (.failed result false)])
      (hpost : Unsettled post)
      (hrejects : ∀ o ∈ relayOutcomes row.built.hex (answers post), Rejects o)
      (hwhy : e = .minted row ∨ ∃ p status, p.isEvonode = false ∧
        e = .io (.chainLock p row.txid) (.ok status) ∧ status.known = false) :
      Edit f op now trace row { row with state := .failed, secret := .erased }
  | confirmed {p : Provider} {status : ChainLockStatus} {height : ℤ}
      (hop : op = .maintainInvitations)
      (hstate : row.state = .broadcastUnknown ∨ row.state = .awaitingChainlock)
      (hconf : p.isEvonode = false) (hans : .io (.chainLock p row.txid) (.ok status) ∈ trace)
      (hlocked : status.chainLocked = true ∧ status.height = some height) :
      Edit f op now trace row { row with state := .available, chainLockedHeight := some height }
  | claimed (hstate : row.state = .available ∨ f.Expired now row)
      (hans : .io (.identity row.prospectiveIdentityId) (some true) ∈ trace) :
      Edit f op now trace row { row with state := .claimed, secret := .erased }
  | recycled (hexpired : f.Expired now row) :
      Edit f op now trace row { row with state := .available, deviceHash := none, issuedAt := none }
  | spoiled (hstate : row.state = .available) :
    Edit f op now trace row { row with state := .failed }
  | issued {input : InvitationIssueRequest} (hop : op = .issueInvitation input)
      (hstate : row.state = .available) (hissued : .issued row ∈ trace) :
      Edit f op now trace row
        { row with state := .issued, deviceHash := some input.deviceHash, issuedAt := some now }

/-- Every row was edited, and comes from a row that was. -/
structure Edits (f : Faucet) (op : Op) (now : ℤ) (s s' : State) : Prop where
  source : ∀ row' ∈ s'.ledger.inventory.rows, ∃ row ∈ s.ledger.inventory.rows,
    Edit f op now s'.trace row row'
  result : ∀ row ∈ s.ledger.inventory.rows, ∃ row' ∈ s'.ledger.inventory.rows,
    Edit f op now s'.trace row row'

namespace Edits

variable {f : Faucet} {op : Op} {now : ℤ} {s s' : State}

theorem of_eq (h : s'.ledger.inventory = s.ledger.inventory) : Edits f op now s s' where
  source row hrow := ⟨row, h ▸ hrow, .kept⟩
  result row hrow := ⟨row, h ▸ hrow, .kept⟩

/-- One voucher is written. -/
theorem of_update {row : InvitationRow} (hrow : row ∈ s.ledger.inventory.rows)
    {g : InvitationRow → InvitationRow}
    (hrows : ∀ {r'}, r' ∈ s'.ledger.inventory.rows ↔
      (r' ∈ s.ledger.inventory.rows ∧ r'.id ≠ row.id) ∨
        ∃ r ∈ s.ledger.inventory.rows, r.id = row.id ∧ g r = r')
    (hedit : Edit f op now s'.trace row (g row)) : Edits f op now s s' where
  source row' hrow' := by
    rcases hrows.mp hrow' with ⟨hold, -⟩ | ⟨r, hr, hid, rfl⟩
    · exact ⟨row', hold, .kept⟩
    · obtain rfl : r = row := Table.eq_of_key hr hrow hid
      exact ⟨r, hrow, hedit⟩
  result r hr := by
    by_cases hid : r.id = row.id
    · obtain rfl : r = row := Table.eq_of_key hr hrow hid
      exact ⟨g r, hrows.mpr (.inr ⟨r, hr, rfl, rfl⟩), hedit⟩
    · exact ⟨r, hrows.mpr (.inl ⟨hr, hid⟩), .kept⟩

/-- All vouchers of a kind are appraised. -/
theorem backfill : Edits f op now s s.backfillInvitationAmounts := by
  refine ⟨fun row' hrow' => ?_, fun row hrow => ?_⟩
  · obtain ⟨row, hrow, rfl⟩ := State.mem_backfillInvitationAmounts.mp hrow'
    refine ⟨row, hrow, ?_⟩
    split
    · exact .appraised
    · exact .kept
  · refine ⟨_, State.mem_backfillInvitationAmounts.mpr ⟨row, hrow, rfl⟩, ?_⟩
    split
    · exact .appraised
    · exact .kept

end Edits

/-- A voucher enters the inventory. -/
structure Mints (op : Op) (now : ℤ) (s s' : State) (row : InvitationRow) : Prop where
  hop : op = .maintainInvitations
  rows : s'.ledger.inventory.rows = s.ledger.inventory.rows ++ [row]
  clashless : ∀ r ∈ s.ledger.inventory.rows, r.id ≠ row.id ∧ r.txid ≠ row.txid
  trace : s'.trace = s.trace ++ [.minted row]
  built : .built row.built ∈ s.trace
  txid : row.txid = row.built.txid
  secret : ∃ wif, .io (.encryptWif wif) row.secret ∈ s.trace
  state : row.state = .broadcastUnknown ∧ row.chainLockedHeight = none ∧ row.deviceHash = none ∧
    row.issuedAt = none

/-- What the steps are to the vouchers: rows are edited or one is minted; a maintenance pass
settles only asset locks of vouchers that wait for it, and leaves them alone when in doubt. -/
structure Touches (f : Faucet) (op : Op) (now : ℤ) (s s' : State) : Prop where
  edits : Edits f op now s s'
  events : ∃ es, s'.trace = s.trace ++ es ∧ (∀ row, .minted row ∉ es) ∧
    (op = .maintainInvitations → ∀ tx outcome, .settled tx outcome ∈ es →
      ∃ row ∈ s.ledger.inventory.rows, row.built = tx ∧ row.state = .broadcastUnknown ∧
        ∀ result, outcome = .failed result true → s'.ledger.inventory = s.ledger.inventory)

theorem Touches.quiet {f : Faucet} {op : Op} {now : ℤ} {s s' : State} (hedits : Edits f op now s s')
    {es : List Event} (htrace : s'.trace = s.trace ++ es) (hminted : ∀ row, .minted row ∉ es)
    (hsettled : ∀ tx outcome, .settled tx outcome ∉ es) : Touches f op now s s' :=
  ⟨hedits, es, htrace, hminted, fun _ tx outcome he => absurd he (hsettled tx outcome)⟩

theorem inventory_conclude (tx : BuiltTx) (outcome : BroadcastSettlement) (locks : Bool) (now : ℤ)
    (s : State) : (s.conclude tx outcome locks now).ledger.inventory = s.ledger.inventory := by
  cases locks <;> rfl

/-- The bookkeeping of a settlement, as the vouchers see it. -/
theorem Books.touches {f : Faucet} {op : Op} {now : ℤ} {tx : BuiltTx}
    {outcome : BroadcastSettlement} {locks : Bool} {s s' : State}
    (h : Books op now tx outcome (s.conclude tx outcome locks now) s') :
    Touches f op now s s' := by
  have hrows := inventory_conclude tx outcome locks now s
  have hconclude : (s.conclude tx outcome locks now).trace =
      s.trace ++ ((if locks then [.locked tx] else []) ++ [.settled tx outcome]) := by
    rw [trace_conclude, List.append_assoc]
  -- what the record gains: a settlement, and what its bookkeeping notes
  have hevents : ∀ es, (∀ e ∈ es, e = .locked tx ∨ e = .recorded tx) →
      s'.trace = (s.conclude tx outcome locks now).trace ++ es →
      (op = .maintainInvitations → ∃ row ∈ s.ledger.inventory.rows, row.built = tx ∧
        row.state = .broadcastUnknown ∧
        ∀ result, outcome = .failed result true → s'.ledger.inventory = s.ledger.inventory) →
      ∃ es, s'.trace = s.trace ++ es ∧ (∀ row, .minted row ∉ es) ∧
        (op = .maintainInvitations → ∀ tx outcome, .settled tx outcome ∈ es →
          ∃ row ∈ s.ledger.inventory.rows, row.built = tx ∧ row.state = .broadcastUnknown ∧
            ∀ result, outcome = .failed result true →
              s'.ledger.inventory = s.ledger.inventory) := by
    intro es hes htrace hwho
    have hnew : ∀ e ∈ (if locks then [.locked tx] else []) ++ [.settled tx outcome] ++ es,
        e = .settled tx outcome ∨ e = .locked tx ∨ e = .recorded tx := by
      intro e he
      rcases List.mem_append.mp he with he | he
      · cases locks <;> simp at he
        · exact .inl he
        · exact he.elim (fun h => .inr (.inl h)) .inl
      · exact .inr (hes e he)
    refine ⟨_, by rw [htrace, hconclude, List.append_assoc], fun row he => ?_,
      fun hop tx' outcome' he => ?_⟩
    · rcases hnew _ he with h | h | h <;> cases h
    · rcases hnew _ he with h | h | h
      · cases h
        exact hwho hop
      · cases h
      · cases h
  have hspend : ∀ e ∈ [Event.locked tx, .recorded tx], e = .locked tx ∨ e = .recorded tx := by simp
  -- payouts and maintenance leave the inventory alone; the last three are a voucher's own
  cases h with
  | @paid input payer satoshis accepted _ hop hadm =>
    refine ⟨.of_eq ?_, hevents _ hspend ?_ fun h => (by rw [hop] at h; cases h)⟩
    · cases payer <;> exact hrows
    · cases payer <;> exact List.append_assoc ..
  | @doubtful input payer satoshis result _ hop hadm =>
    refine ⟨.of_eq ?_, hevents [] (by simp) ?_ fun h => (by rw [hop] at h; cases h)⟩
    · cases payer <;> exact hrows
    · cases payer <;> exact (List.append_nil _).symm
  | unpaid hop | unmaintained hop =>
    exact ⟨.of_eq hrows, hevents [] (by simp) (List.append_nil _).symm
      fun h => (by rw [hop] at h; cases h)⟩
  | maintained hop =>
    exact ⟨.of_eq hrows, hevents _ hspend (List.append_assoc ..)
      fun h => (by rw [hop] at h; cases h)⟩
  | @awaited row accepted _ hop hrow hstate htx =>
    have hrow' : row ∈ s.ledger.inventory.rows := hrows ▸ hrow
    refine ⟨.of_update hrow' (g := fun r => { r with state := .awaitingChainlock }) ?_
      (.awaited hstate), hevents _ hspend (List.append_assoc ..)
      fun _ => ⟨row, hrow', htx, hstate, fun result h => (by cases h)⟩⟩
    cases locks <;> exact State.mem_updateVoucher
  | @kept row result _ hop hrow hstate htx =>
    exact ⟨.of_eq hrows, hevents [] (by simp) (List.append_nil _).symm
      fun _ => ⟨row, hrows ▸ hrow, htx, hstate, fun _ _ => hrows⟩⟩
  | @discarded row result e pre post _ hop hrow hstate htx htrace hpost hrejects hwhy =>
    have hrow' : row ∈ s.ledger.inventory.rows := hrows ▸ hrow
    subst htx
    refine ⟨.of_update hrow' (g := fun r => { r with state := .failed, secret := .erased }) ?_
      (.discarded hop hstate htrace hpost hrejects hwhy),
      hevents [] (by simp) (List.append_nil _).symm
      fun _ => ⟨row, hrow', rfl, hstate, fun result h => (by cases h)⟩⟩
    cases locks <;> exact State.mem_updateVoucher

/-- **The steps, as the vouchers see them.** -/
theorem Step.vouchers {f : Faucet} {op : Op} {now : ℤ} {s s' : State} (h : Step f op now s s') :
    Touches f op now s s' ∨ ∃ row, Mints op now s s' row := by
  have hquiet : ∀ {s'}, Edits f op now s s' → s'.trace = s.trace → Touches f op now s s' :=
    fun hedits htrace => .quiet hedits (htrace.trans (List.append_nil _).symm) (by simp) (by simp)
  have hnote : ∀ {s'} (e : Event), Edits f op now s s' → s'.trace = s.trace ++ [e] →
      (∀ row, e ≠ .minted row) → (∀ tx outcome, e ≠ .settled tx outcome) →
      Touches f op now s s' := fun e hedits htrace hminted hsettled =>
    .quiet hedits htrace (fun row he => hminted row (List.mem_singleton.mp he).symm)
      fun tx outcome he => hsettled tx outcome (List.mem_singleton.mp he).symm
  cases h with
  | prune | verdict | demand | count => exact .inl (hquiet (.of_eq rfl) rfl)
  | admits | build =>
    exact .inl (hnote _ (.of_eq rfl) rfl (fun _ he => (by cases he)) fun _ _ he => (by cases he))
  | @view p address script snapshot immature _ hans hmature =>
    refine .inl (hnote _ (.of_eq ?_) rfl (fun _ he => (by cases he)) fun _ _ he => (by cases he))
    obtain ⟨sp, pe, heq⟩ := Ledger.reconcile_eq (snapshot.utxos.map Utxo.outpoint) now s.ledger
    simp only [State.note, State.withLedger, heq]
  | settle _ _ _ hbooks => exact .inl hbooks.touches
  | backfill => exact .inl (hquiet .backfill rfl)
  | @mint row inventory wif _ hop hins hbuilt htxid hsecret hstate =>
    obtain ⟨hrows, hfresh⟩ := Table.insert?_eq_some hins
    exact .inr ⟨row, hop, hrows, hfresh, rfl, hbuilt, htxid, ⟨wif, hsecret⟩, hstate⟩
  | @confirm row p status height _ hop hrow hstate hconf hans hlocked =>
    refine .inl ?_
    -- in doubt till now: the transaction is recorded with the confirmation
    by_cases hunknown : row.state = .broadcastUnknown
    · rw [if_pos hunknown]
      have htrace : ((s.recordSpend row.built now).confirmVoucher row.id height).trace =
          s.trace ++ [.locked row.built, .recorded row.built] := List.append_assoc ..
      refine .quiet (.of_update hrow State.mem_updateVoucher
        (.confirmed hop hstate hconf ?_ hlocked)) htrace (by simp)
        (by simp)
      rw [htrace]
      exact List.mem_append_left _ hans
    · rw [if_neg hunknown]
      exact hquiet (.of_update hrow State.mem_updateVoucher
        (.confirmed hop hstate hconf hans hlocked)) rfl
  | @claim row _ hrow hwhy hans =>
    -- by maintenance when it had expired, or in the middle of an issuance
    refine .inl (hquiet (.of_update hrow State.mem_updateVoucher (.claimed ?_ hans)) rfl)
    rcases hwhy with ⟨-, hexpired⟩ | ⟨input, -, hstate, -⟩
    · exact .inr hexpired
    · exact .inl hstate
  | @recycle row _ hop hrow hexpired hans =>
    exact .inl (hquiet (.of_update hrow State.mem_updateVoucher (.recycled hexpired)) rfl)
  | @spoil input row _ hop hmay hrow hstate =>
    exact .inl (hquiet (.of_update hrow State.mem_updateVoucher (.spoiled hstate)) rfl)
  | @issue input row _ hop hmay hrow hstate hans =>
    refine .inl (hnote _ (.of_update hrow State.mem_updateVoucher (.issued hop hstate ?_)) rfl
      (fun _ he => (by cases he))
      fun _ _ he => (by cases he))
    exact List.mem_append_right _ List.mem_cons_self

/-! ### What every row satisfies -/

/-- The states of a voucher that may still be claimed with its key. -/
def InvitationState.Live (state : InvitationState) : Prop := state ≠ .claimed ∧ state ≠ .failed

/-- `row` is what became of the voucher minted as `row₀`. -/
structure Descends (row₀ row : InvitationRow) : Prop where
  id : row.id = row₀.id
  txid : row.txid = row₀.txid
  built : row.built = row₀.built
  identity : row.prospectiveIdentityId = row₀.prospectiveIdentityId
  secret : row.state.Live → row.secret = row₀.secret

/-- What a voucher's row satisfies, given the log of the run. -/
structure Lifecycle (log : List Entry) (row : InvitationRow) : Prop where
  /-- It was minted, and holds the ciphertext it was minted with as long as that may be needed. -/
  minted : ∃ op t row₀, (op, t, .minted row₀) ∈ log ∧ Descends row₀ row
  /-- On offer or given out, it has a ChainLock height that a configured provider reported. -/
  locked : row.state = .available ∨ row.state = .issued → ∃ height p status op t,
    row.chainLockedHeight = some height ∧ p.isEvonode = false ∧
      (op, t, .io (.chainLock p row.txid) (.ok status)) ∈ log ∧ status.chainLocked = true ∧
      status.height = some height
  /-- Given out, it has a holder and an instant. -/
  reserved : row.state = .issued → row.deviceHash.isSome ∧ row.issuedAt.isSome
  /-- Before that, it has neither. -/
  unreserved : row.state.Live → row.state ≠ .issued → row.deviceHash = none ∧ row.issuedAt = none
  /-- Claimed, its ciphertext is erased. -/
  erased : row.state = .claimed → row.secret = .erased

section Edit

variable {f : Faucet} {op : Op} {now : ℤ} {trace : List Event} {row₀ row row' : InvitationRow}

/-- A voucher goes on descending from what was minted. -/
theorem Descends.edit (h : Descends row₀ row) (hedit : Edit f op now trace row row') :
    Descends row₀ row' := by
  have hsame : row'.id = row.id ∧ row'.txid = row.txid ∧ row'.built = row.built ∧
      row'.prospectiveIdentityId = row.prospectiveIdentityId := by
    cases hedit <;> exact ⟨rfl, rfl, rfl, rfl⟩
  obtain ⟨hid, htxid, hbuilt, hidentity⟩ := hsame
  refine ⟨hid.trans h.id, htxid.trans h.txid, hbuilt.trans h.built, hidentity.trans h.identity,
    fun hlive => ?_⟩
  cases hedit with
  | kept | appraised => exact h.secret hlive
  | awaited hstate | spoiled hstate | issued _ hstate =>
    exact h.secret (by simp [hstate, InvitationState.Live])
  | discarded => exact absurd rfl hlive.2
  | confirmed _ hstate =>
    refine h.secret ?_
    rcases hstate with hstate | hstate <;> simp [hstate, InvitationState.Live]
  | claimed => exact absurd rfl hlive.1
  | recycled hexpired => exact h.secret (by simp [hexpired.1, InvitationState.Live])

/-- **One edit keeps the lifecycle.** -/
theorem Lifecycle.edit {log log' : List Entry} (h : Lifecycle log row)
    (hedit : Edit f op now trace row row') (hlog : log ⊆ log')
    (htrace : ∀ e ∈ trace, ((op, now, e) : Entry) ∈ log') : Lifecycle log' row' := by
  have hminted : ∃ op t row₀, (op, t, .minted row₀) ∈ log' ∧ Descends row₀ row' := by
    obtain ⟨op', t, row₀, hmem, hdesc⟩ := h.minted
    exact ⟨op', t, row₀, hlog hmem, hdesc.edit hedit⟩
  -- the ChainLock is looked up in the longer log
  have hlocked : row.state = .available ∨ row.state = .issued → ∃ height p status op t,
      row.chainLockedHeight = some height ∧ p.isEvonode = false ∧
        (op, t, .io (.chainLock p row.txid) (.ok status)) ∈ log' ∧ status.chainLocked = true ∧
        status.height = some height := by
    intro hstate
    obtain ⟨height, p, status, op', t, hheight, hconf, hmem, hstatus⟩ := h.locked hstate
    exact ⟨height, p, status, op', t, hheight, hconf, hlog hmem, hstatus⟩
  cases hedit with
  | kept | appraised => exact ⟨hminted, hlocked, h.reserved, h.unreserved, h.erased⟩
  | awaited hstate =>
    -- not on offer yet: no device holds it
    have hnone := h.unreserved (by simp [hstate, InvitationState.Live]) (by simp [hstate])
    exact ⟨hminted, by simp, by simp, fun _ _ => hnone, by simp⟩
  | discarded _ hstate =>
    exact ⟨hminted, by simp, by simp, by simp [InvitationState.Live], by simp⟩
  | @confirmed p status height _ hstate hconf hans hstatus =>
    -- it was not on offer, so no device holds it
    have hnone : row.deviceHash = none ∧ row.issuedAt = none := by
      rcases hstate with hstate | hstate <;>
        exact h.unreserved (by simp [hstate, InvitationState.Live]) (by simp [hstate])
    exact ⟨hminted, fun _ => ⟨height, p, status, op, now, rfl, hconf, htrace _ hans, hstatus⟩,
      by simp, fun _ _ => hnone, by simp⟩
  | claimed => exact ⟨hminted, by simp, by simp, by simp [InvitationState.Live], fun _ => rfl⟩
  | recycled hexpired =>
    -- the reservation ends, the ChainLock stays
    exact ⟨hminted, fun _ => hlocked (.inr hexpired.1), by simp, fun _ _ => ⟨rfl, rfl⟩, by simp⟩
  | spoiled hstate => exact ⟨hminted, by simp, by simp, by simp [InvitationState.Live], by simp⟩
  | issued _ hstate =>
    exact ⟨hminted, fun _ => hlocked (.inl hstate), fun _ => ⟨rfl, rfl⟩, by simp, by simp⟩

/-- A claimed or failed voucher stays what it is. -/
theorem Edit.final (hedit : Edit f op now trace row row') (hdead : ¬row.state.Live) :
    row'.state = row.state := by
  have hlive : ∀ state, row.state = state → state ≠ .claimed → state ≠ .failed → False :=
    fun state h hc hf => hdead (h ▸ ⟨hc, hf⟩)
  cases hedit with
  | kept | appraised => rfl
  | awaited hstate | spoiled hstate | issued _ hstate | discarded _ hstate =>
    exact (hlive _ hstate (by simp) (by simp)).elim
  | confirmed _ hstate =>
    rcases hstate with hstate | hstate <;> exact (hlive _ hstate (by simp) (by simp)).elim
  | claimed hstate =>
    rcases hstate with hstate | hexpired
    · exact (hlive _ hstate (by simp) (by simp)).elim
    · exact (hlive _ hexpired.1 (by simp) (by simp)).elim
  | recycled hexpired => exact (hlive _ hexpired.1 (by simp) (by simp)).elim

end Edit

/-- A freshly minted voucher begins its life. -/
theorem Mints.lifecycle {op : Op} {now : ℤ} {s s' : State} {row : InvitationRow}
    (h : Mints op now s s' row) {log : List Entry} (hlog : (op, now, .minted row) ∈ log) :
    Lifecycle log row := by
  obtain ⟨hstate, -, hdevice, hissued⟩ := h.state
  refine ⟨⟨op, now, row, hlog, rfl, rfl, rfl, rfl, fun _ => rfl⟩, ?_, ?_, fun _ _ =>
    ⟨hdevice, hissued⟩, ?_⟩ <;>
    simp [hstate]

/-! ### Runs -/

namespace State

/-- The events of the running operation are in the log. -/
theorem mem_log {s : State} {op : Op} (hrun : s.running = some op) {e : Event} (he : e ∈ s.trace) :
    ((op, s.now, e) : Entry) ∈ s.log := by
  rw [log_running hrun]
  exact List.mem_append_right _ (List.mem_map_of_mem he)

theorem log_prefix {s s' : State} {op : Op} (hrun : s.running = some op) (hcont : Continues s s') :
    s.log <+: s'.log := by
  obtain ⟨es, htrace⟩ := hcont.trace
  rw [log_append hrun hcont htrace.symm]
  exact List.prefix_append _ _

end State

namespace Faucet

variable {f : Faucet}

/-- Every voucher is where the lifecycle allows. -/
def LifecycleOf (s : State) : Prop := ∀ row ∈ s.ledger.inventory.rows, Lifecycle s.log row

theorem lifecycle_of_touches {s s' : State} {op : Op} (hrun : s.running = some op)
    (hcont : Continues s s') (h : Touches f op s.now s s') (hs : LifecycleOf s) :
    LifecycleOf s' := by
  intro row' hrow'
  obtain ⟨row, hrow, hedit⟩ := h.edits.source row' hrow'
  refine (hs row hrow).edit hedit (State.log_prefix hrun hcont).subset fun e he => ?_
  rw [← hcont.now]
  exact State.mem_log (hcont.running.trans hrun) he

theorem touches_answer {op : Op} (q : Query) (a : Answer q) (s : State) :
    Touches f op s.now s (s.note (.io q a)) :=
  .quiet (.of_eq rfl) rfl (by simp) (by simp)

theorem lifecycle_kept : f.Kept LifecycleOf where
  step op s s' hrun hstep _ hs := by
    -- a step edits the rows there are, or adds one
    rcases hstep.vouchers with htouch | ⟨row, hmint⟩
    · exact lifecycle_of_touches hrun hstep.continues htouch hs
    · have hlog : s'.log = s.log ++ [(op, s.now, .minted row)] :=
        State.log_append hrun hstep.continues hmint.trace
      intro r hr
      rw [hmint.rows] at hr
      rw [hlog]
      rcases List.mem_append.mp hr with hr | hr
      · have hkept : Edit f op s.now [] r r := .kept
        exact (hs r hr).edit hkept (List.subset_append_left _ _) (by simp)
      · rw [List.mem_singleton.mp hr]
        exact hmint.lifecycle (List.mem_append_right _ List.mem_cons_self)
  answer op q a s hrun _ _ hs :=
    lifecycle_of_touches (f := f) hrun (.note _ s) (touches_answer q a s) hs
  call c t s _ _ hs := hs
  enter op t s hrun _ _ _ hs := by
    intro row hrow
    rw [State.log_enter hrun]
    exact hs row hrow
  leave op r s hrun _ _ hs := by
    intro row hrow
    rw [State.log_leave hrun]
    exact hs row hrow

/-- A voucher that was claimed or has failed is so for good. -/
theorem final_kept (id : String) {state : InvitationState} (hdead : ¬state.Live) :
    f.Kept fun s => ∃ row ∈ s.ledger.inventory.rows, row.id = id ∧ row.state = state where
  step op s s' hrun hstep _ hs := by
    obtain ⟨row, hrow, rfl, rfl⟩ := hs
    rcases hstep.vouchers with htouch | ⟨row', hmint⟩
    · obtain ⟨row', hrow', hedit⟩ := htouch.edits.result row hrow
      refine ⟨row', hrow', ?_, hedit.final hdead⟩
      cases hedit <;> rfl
    · refine ⟨row, ?_, rfl, rfl⟩
      rw [hmint.rows]
      exact List.mem_append_left _ hrow
  answer op q a s _ _ _ hs := hs
  call c t s _ _ hs := hs
  enter op t s _ _ _ _ hs := hs
  leave op r s _ _ _ hs := hs

/-- **The voucher lifecycle.** In every run, whatever relays, ChainLock sources, Platform and the
decryption answer: every voucher is where `Lifecycle` allows, and one that was claimed or has
failed stays so. -/
theorem voucher_lifecycle {c : Actor.Config f.treasury} (hc : f.Reached c) :
    (∀ row ∈ c.store.ledger.inventory.rows, Lifecycle c.store.log row) ∧
    ∀ is c', f.treasury.exec c is = some c' → ∀ row ∈ c.store.ledger.inventory.rows,
      row.state = .claimed ∨ row.state = .failed →
      ∃ row' ∈ c'.store.ledger.inventory.rows, row'.id = row.id ∧ row'.state = row.state := by
  refine ⟨(lifecycle_kept.reached (fun clock => fun row hrow => (by cases hrow)) hc).2,
    fun is c' hexec row hrow hdead => ?_⟩
  have hnot : ¬row.state.Live := by
    rintro ⟨hclaimed, hfailed⟩
    exact hdead.elim hclaimed hfailed
  exact ((final_kept row.id hnot).exec hc hexec ⟨row, hrow, rfl, rfl⟩).2

/-- One voucher is minted and its asset lock accepted. -/
theorem voucher_lifecycle_minting : ∃ c, (minting 1).Reached c ∧
    ∃ row ∈ c.store.ledger.inventory.rows, row.state = .awaitingChainlock ∧
      Lifecycle c.store.log row := by
  have hrun : (mintAfter 1
    (mintRun 1 .maintainInvitations 1000 8 [⟨"a", 0, 3 * coin, "faucet", some 1⟩]
      (.error "down") (.ok "sent"))).map
      (fun c => c.store.ledger.inventory.rows.map InvitationRow.state) =
        some [.awaitingChainlock] := by
    decide +kernel
  obtain ⟨c, hc, hstates⟩ := Option.map_eq_some_iff.mp hrun
  have hreached := mintAfter_reached hc
  obtain ⟨row, hrows, hstate⟩ := List.map_eq_singleton_iff.mp hstates
  have hrow : row ∈ c.store.ledger.inventory.rows := by
    rw [hrows]
    exact List.mem_singleton_self row
  exact ⟨c, hreached, row, hrow, hstate, (voucher_lifecycle hreached).1 row hrow⟩

end Faucet

end DashFaucet

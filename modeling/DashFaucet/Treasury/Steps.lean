import DashFaucet.Treasury.Settle
import DashFaucet.Treasury.System

/-!
# What an operation can do

`Step f op now` lists once, with their guards, the atomic things an operation does to the state.
Programs are verified against it (`Faucet.contract`), and every invariant of a run is derived from
it (`Faucet.run_invariant`), so no invariant ever looks inside a program.

* `Books`: the bookkeeping that follows a settled broadcast, in one piece with it.
* `Step`: one thing an operation does.
* `Faucet.contract`: segments of an operation are made of its steps; what happens while it waits
  is made of calls; a payout hands nothing to the relays but the transaction it built.
* `Faucet.PayoutEnds`, `Faucet.IssueEnds`: what an answer says about the events before it.
* `Faucet.invariant`, `Faucet.Aligned`: how an invariant is carried along moves.
-/

namespace DashFaucet

open Async

/-- No broadcast of the operation was settled yet. -/
def Unsettled (trace : List Event) : Prop := ∀ tx outcome, .settled tx outcome ∉ trace

/-- What the books of an operation get when the broadcast of `tx` ended in an outcome. -/
inductive Books (op : Op) (now : ℤ) (tx : BuiltTx) :
    BroadcastSettlement → State → State → Prop where
  /-- An accepted payout: its payer is charged. -/
  | paid {input : PayoutRequest} {payer : Payer} {satoshis : ℕ} {accepted : List String}
      {s : State} (hop : op = .payout input) (hadm : .admitted payer satoshis ∈ s.trace) :
      Books op now tx (.ok accepted) s ((s.recordSpend tx now).commit payer tx input satoshis now)
  /-- A payout that may be live: a key or a code is charged as if it were. -/
  | doubtful {input : PayoutRequest} {payer : Payer} {satoshis : ℕ} {result : PayoutResult}
      {s : State} (hop : op = .payout input) (hadm : .admitted payer satoshis ∈ s.trace) :
      Books op now tx (.failed result true) s (s.chargeUncertain payer tx input satoshis now)
  /-- A rejected payout. -/
  | unpaid {input : PayoutRequest} {result : PayoutResult} {s : State}
      (hop : op = .payout input) : Books op now tx (.failed result false) s s
  /-- An accepted split or merge. -/
  | maintained {accepted : List String} {s : State} (hop : op = .maintain) :
      Books op now tx (.ok accepted) s (s.recordSpend tx now)
  /-- A split or merge that was not accepted. -/
  | unmaintained {result : PayoutResult} {uncertain : Bool} {s : State} (hop : op = .maintain) :
      Books op now tx (.failed result uncertain) s s
  /-- The asset lock of a voucher was accepted. -/
  | awaited {row : InvitationRow} {accepted : List String} {s : State}
      (hop : op = .maintainInvitations) (hrow : row ∈ s.ledger.inventory.rows)
      (hstate : row.state = .broadcastUnknown) (htx : row.built = tx) :
      Books op now tx (.ok accepted) s ((s.recordSpend tx now).awaitVoucher row.id)
  /-- The asset lock of a voucher may be live: the voucher stays. -/
  | kept {row : InvitationRow} {result : PayoutResult} {s : State}
      (hop : op = .maintainInvitations) (hrow : row ∈ s.ledger.inventory.rows)
      (hstate : row.state = .broadcastUnknown) (htx : row.built = tx) :
      Books op now tx (.failed result true) s s
  /-- The asset lock of a voucher was rejected by every relay: the voucher was just minted, or a
  ChainLock source did not know its transaction. -/
  | discarded {row : InvitationRow} {result : PayoutResult} {e : Event} {pre post : List Event}
      {s : State} (hop : op = .maintainInvitations) (hrow : row ∈ s.ledger.inventory.rows)
      (hstate : row.state = .broadcastUnknown) (htx : row.built = tx)
      (htrace : s.trace = pre ++ e :: post ++ [.settled tx (.failed result false)])
      (hpost : Unsettled post) (hrejects : ∀ o ∈ relayOutcomes tx.hex (answers post), Rejects o)
      (hwhy : e = .minted row ∨ ∃ p status, p.isEvonode = false ∧
        e = .io (.chainLock p row.txid) (.ok status) ∧ status.known = false) :
      Books op now tx (.failed result false) s (s.discardVoucher row.id)

/-- The vouchers an operation gave out, in order. -/
def issuedRows (trace : List Event) : List InvitationRow :=
  trace.filterMap fun
    | .issued row => some row
    | _ => none

theorem mem_issuedRows {trace : List Event} {row : InvitationRow} :
    row ∈ issuedRows trace ↔ .issued row ∈ trace := by
  constructor
  · intro h
    obtain ⟨e, he, hrow⟩ := List.mem_filterMap.mp h
    cases e with
    | issued r =>
      cases hrow
      exact he
    | _ => cases hrow
  · exact fun h => List.mem_filterMap.mpr ⟨_, h, rfl⟩

theorem issuedRows_append (es es' : List Event) :
    issuedRows (es ++ es') = issuedRows es ++ issuedRows es' := List.filterMap_append

/-- A request may get fresh vouchers: its device holds none but those of this very operation, and
neither of its signals is in the window. -/
structure Faucet.Clear (f : Faucet) (input : InvitationIssueRequest) (now : ℤ) (s : State) :
    Prop where
  fresh : ∀ row ∈ f.priorVouchers s input.deviceHash now,
    row.id ∈ (issuedRows s.trace).map InvitationRow.id
  rested : ∀ kind hash, (kind, hash) = (SignalKind.ip, input.ipHash) ∨
    (kind, hash) = (SignalKind.device, input.deviceHash) →
    s.invitationHitTimes kind hash (now - f.cfg.invitations.rateWindowMs) = []

/-- Fresh vouchers may be offered now: with the window on, only to a request that is clear. -/
def Faucet.MayOffer (f : Faucet) (input : InvitationIssueRequest) (now : ℤ) (s : State) : Prop :=
  0 < f.cfg.invitations.rateWindowMs → f.Clear input now s

/-- A voucher that was given out and has expired. -/
def Faucet.Expired (f : Faucet) (now : ℤ) (row : InvitationRow) : Prop :=
  row.state = .issued ∧ ∃ t, row.issuedAt = some t ∧ t ≤ now - f.cfg.invitations.ttlMs

/-- A transaction built from a view: it spends distinct coins, none of them locked, and names its
outputs to the faucet by its own id. -/
structure WellBuilt (l : Ledger) (tx : BuiltTx) : Prop where
  distinct : tx.inputs.Nodup
  free : ∀ o ∈ tx.inputs, l.isSpent o = false
  own_txid : ∀ o ∈ tx.ownOutputs, o.txid = tx.txid

/-- A transaction that is known to be no coinbase: a cached verdict says so, or an answer that was
just heard. -/
def Classified (s : State) (txid : String) : Prop :=
  (∃ row ∈ s.ledger.coinbaseChecks.rows, row.txid = txid ∧ row.isCoinbase = false) ∨
    ∃ p, .io (.isCoinbase p txid) (.ok false) ∈ s.trace

/-- One thing operation `op`, begun at `now`, does to the state. -/
inductive Step (f : Faucet) (op : Op) (now : ℤ) : State → State → Prop where
  /-- Old rows go, before anything else. -/
  | prune {s : State} (hstart : s.trace = []) : Step f op now s (s.prune f.cfg now)
  /-- A payout passes its checks. -/
  | admits {input : PayoutRequest} {payer : Payer} {satoshis : ℕ} {s : State}
      (hop : op = .payout input) (hstart : s.trace = [])
      (hadm : admitPayout f.cfg s input now = .ok (payer, satoshis)) :
      Step f op now s (s.note (.admitted payer satoshis))
  /-- A looked-up coinbase verdict is cached. -/
  | verdict {p : Provider} {txid : String} {isCoinbase : Bool} {s : State}
      (hans : .io (.isCoinbase p txid) (.ok isCoinbase) ∈ s.trace) :
      Step f op now s (s.recordVerdict txid isCoinbase now)
  /-- The spendable view is computed from a listing. What it holds back are transactions of young
  coins, all but those known to be no coinbases. -/
  | view {p : Provider} {address script : String} {snapshot : UtxoSnapshot}
      {immature : List String} {s : State}
      (hans : .io (.listing p address) (.ok snapshot.utxos) ∈ s.trace)
      (hmature : ∀ u ∈ snapshot.utxos, u.txid ∉ immature →
        Faucet.NotYoung snapshot.tipHeight u ∨ Classified s u.txid) :
      Step f op now s
        (let s' := s.withLedger (Ledger.reconcile (snapshot.utxos.map Utxo.outpoint) now)
         s'.note (.viewed snapshot { snapshot with
           utxos := s'.ledger.spendable script snapshot.utxos immature }))
  /-- Merge demands come and go. -/
  | demand {s : State} (demands : List MergeDemand) :
      Step f op now s (s.withLedger fun l => { l with mergeDemand := demands })
  /-- A transaction is built from the coins of a view. A payout builds one, once admitted. -/
  | build {tx : BuiltTx} {s : State}
      (hbuilt : f.dash.Faithful → WellBuilt s.ledger tx)
      (honce : ∀ input, op = .payout input →
        (∃ payer satoshis, .admitted payer satoshis ∈ s.trace) ∧
        ∀ tx', .built tx' ∉ s.trace) :
      Step f op now s (s.note (.built tx))
  /-- A broadcast is settled and booked, the only one of the operation but where vouchers are
  minted. -/
  | settle {tx : BuiltTx} {outcome : BroadcastSettlement} {locks : Bool} {es : List Answered}
      {pre : List Answered} {s s' : State} (hset : f.Settles tx es outcome locks)
      (hans : answers s.trace = pre ++ es)
      (honce : op ≠ .maintainInvitations → Unsettled s.trace ∧ .built tx ∈ s.trace)
      (hbooks : Books op now tx outcome (s.conclude tx outcome locks now) s') : Step f op now s s'
  /-- Old vouchers get their amount. -/
  | backfill {s : State} (hop : op = .maintainInvitations) :
      Step f op now s s.backfillInvitationAmounts
  /-- A voucher enters the inventory. -/
  | mint {row : InvitationRow} {inventory : Table InvitationRow} {wif : String} {s : State}
      (hop : op = .maintainInvitations) (hins : s.ledger.inventory.insert? row = some inventory)
      (hbuilt : .built row.built ∈ s.trace) (htxid : row.txid = row.built.txid)
      (hsecret : .io (.encryptWif wif) row.secret ∈ s.trace)
      (hstate : row.state = .broadcastUnknown ∧ row.chainLockedHeight = none ∧
        row.deviceHash = none ∧ row.issuedAt = none) :
      Step f op now s ((s.withLedger fun l => { l with inventory }).note (.minted row))
  /-- A voucher's asset lock is in a ChainLocked block. -/
  | confirm {row : InvitationRow} {p : Provider} {status : ChainLockStatus} {height : ℤ} {s : State}
      (hop : op = .maintainInvitations) (hrow : row ∈ s.ledger.inventory.rows)
      (hstate : row.state = .broadcastUnknown ∨ row.state = .awaitingChainlock)
      (hconf : p.isEvonode = false) (hans : .io (.chainLock p row.txid) (.ok status) ∈ s.trace)
      (hlocked : status.chainLocked = true ∧ status.height = some height) :
      Step f op now s
        ((if row.state = .broadcastUnknown then s.recordSpend row.built now else s).confirmVoucher
          row.id height)
  /-- Platform knows the voucher's identity: it was claimed. -/
  | claim {row : InvitationRow} {s : State} (hrow : row ∈ s.ledger.inventory.rows)
      (hwhy : (op = .maintainInvitations ∧ f.Expired now row) ∨
        ∃ input, op = .issueInvitation input ∧ row.state = .available ∧ f.MayOffer input now s)
      (hans : .io (.identity row.prospectiveIdentityId) (some true) ∈ s.trace) :
      Step f op now s (s.claimVoucher row.id)
  /-- An expired voucher nobody claimed comes back. -/
  | recycle {row : InvitationRow} {s : State} (hop : op = .maintainInvitations)
      (hrow : row ∈ s.ledger.inventory.rows) (hexpired : f.Expired now row)
      (hans : .io (.identity row.prospectiveIdentityId) (some false) ∈ s.trace) :
      Step f op now s (s.recycleVoucher row.id)
  /-- A voucher on offer cannot be opened. -/
  | spoil {input : InvitationIssueRequest} {row : InvitationRow} {s : State}
      (hop : op = .issueInvitation input) (hmay : f.MayOffer input now s)
      (hrow : row ∈ s.ledger.inventory.rows) (hstate : row.state = .available) :
      Step f op now s (s.failVoucher row.id)
  /-- A voucher is given out. -/
  | issue {input : InvitationIssueRequest} {row : InvitationRow} {s : State}
      (hop : op = .issueInvitation input) (hmay : f.MayOffer input now s)
      (hrow : row ∈ s.ledger.inventory.rows) (hstate : row.state = .available)
      (hans : .io (.identity row.prospectiveIdentityId) (some false) ∈ s.trace) :
      Step f op now s ((s.issueVoucher row.id input.deviceHash now).note (.issued row))
  /-- An issuance counts against its signals. -/
  | count {input : InvitationIssueRequest} {s : State} (hop : op = .issueInvitation input)
      (hmay : f.MayOffer input now s) (hgiven : issuedRows s.trace ≠ []) :
      Step f op now s (s.recordInvitationHits input.ipHash input.deviceHash now)

namespace Faucet

variable (f : Faucet)

/-- What can happen to the state while an operation waits: any number of calls. -/
abbrev Called : State → State → Prop :=
  Relation.ReflTransGen fun s s' => ∃ c t, s' = s.call f.cfg c t

/-- What a payout may ask of a relay: to broadcast the transaction it built. -/
def MayAsk (op : Op) (q : Query) (s : State) : Prop :=
  ∀ input relays hex, op = .payout input → q = .relay relays hex →
    ∃ tx, .built tx ∈ s.trace ∧ tx.hex = hex

/-- The contract of an operation. -/
@[reducible] def contract (op : Op) (now : ℤ) : Contract Query Answer State where
  emit q a := State.note (.io q a)
  rely := f.Called
  guar := Relation.ReflTransGen (Step f op now)
  ask := MayAsk op

/-- What the answer to a payout says about its events: it reports a payment when, and only when,
the broadcast of that transaction was settled as accepted, and that happens whenever somebody
vouches for the transaction. It is settled as accepted or in doubt only if it may be live; and if
it may be, always, unless a sample drawn for it again makes the settlement throw. -/
structure PayoutEnds (input : PayoutRequest) (reply : Except Thrown Reply) (trace : List Event) :
    Prop where
  settled_of_paid : ∀ paid, reply = .ok (.payout (.ok paid)) → paid.replay = false →
    paid.dryRun = false →
    (∃ tx, tx.txid = paid.txid ∧ .settled tx (.ok paid.accepted) ∈ trace) ∧
      (input.isPublic → paid.satoshis = f.cfg.payoutSats)
  paid_of_settled : ∀ tx accepted, .settled tx (.ok accepted) ∈ trace →
    ∃ paid, reply = .ok (.payout (.ok paid)) ∧ paid.replay = false ∧ paid.dryRun = false
  settled_of_vouched : ∀ tx, .built tx ∈ trace → Vouched tx (answers trace) →
    ∃ accepted, .settled tx (.ok accepted) ∈ trace
  live_of_settled : ∀ tx outcome, .settled tx outcome ∈ trace → outcome.accepted?.isSome →
    MayBeLive tx.hex (answers trace)
  settled_of_live : f.chain.CanRepeat (answers trace) → ∀ tx, .built tx ∈ trace →
    MayBeLive tx.hex (answers trace) →
    ∃ outcome, .settled tx outcome ∈ trace ∧ outcome.accepted?.isSome

/-- What the answer to a request for vouchers says about its events: it hands out, and counts,
exactly the vouchers it took; a device that holds vouchers gets these again. -/
structure IssueEnds (input : InvitationIssueRequest) (now : ℤ) (reply : Except Thrown Reply)
    (s : State) : Prop where
  given : ∀ invitations, reply = .ok (.issueInvitation (.ok invitations false)) →
    invitations ≠ [] ∧ invitations.map (fun i => (i.txid, i.expiresAt)) =
      (issuedRows s.trace).map (fun row => (row.txid, now + f.cfg.invitations.ttlMs)) ∧
    ⟨.ip, input.ipHash, now⟩ ∈ s.ledger.invitationHits ∧
    ⟨.device, input.deviceHash, now⟩ ∈ s.ledger.invitationHits
  replied : issuedRows s.trace ≠ [] → f.cfg.invitations.enabled = true ∧
    ∃ invitations, reply = .ok (.issueInvitation (.ok invitations false))
  replayed : f.cfg.invitations.enabled = true → 0 < f.cfg.invitations.rateWindowMs →
    issuedRows s.trace = [] → f.priorVouchers s input.deviceHash now ≠ [] →
    (∀ secret e, .io (.decryptWif secret) (.error e) ∉ s.trace) →
    ∃ invitations, reply = .ok (.issueInvitation (.ok invitations true)) ∧
      invitations.map (fun i => (i.txid, i.expiresAt)) =
        (f.priorVouchers s input.deviceHash now).map fun row =>
          (row.txid, row.issuedAt.getD 0 + f.cfg.invitations.ttlMs)

/-- How an operation may end. -/
structure EndsWell (op : Op) (now : ℤ) (reply : Except Thrown Reply) (s : State) : Prop where
  payout : ∀ input, op = .payout input → f.PayoutEnds input reply s.trace
  issue : ∀ input, op = .issueInvitation input → f.IssueEnds input now reply s

/-! ### Carrying invariants along -/

/-- A phase whose state knows what the phase knows. -/
structure Aligned (x : Actor.Phase f.treasury) : Prop where
  running : x.store.running = x.busy.map Prod.fst
  time : ∀ op t, x.busy = some (op, t) → x.store.now = t
  idle : x.busy = none → x.store.trace = []
  le_clock : x.store.now ≤ x.clock

/-- What holds after every kind of move when it held before, and `J` did. -/
structure KeptUnder (J I : State → Prop) : Prop where
  step : ∀ op s s', s.running = some op → Step f op s.now s s' → J s → I s → I s'
  answer : ∀ op q a s, s.running = some op → MayAsk op q s → J s → I s → I (s.note (.io q a))
  call : ∀ c t s, s.now ≤ t → J s → I s → I (s.call f.cfg c t)
  enter : ∀ op t s, s.running = none → s.trace = [] → s.now ≤ t → J s → I s → I (s.enter op t)
  leave : ∀ op r s, s.running = some op → f.EndsWell op s.now r s → J s → I s →
    I (s.leave op s.now r)

/-- An inductive invariant of the state. -/
abbrev Kept (I : State → Prop) : Prop := f.KeptUnder (fun _ => True) I

end Faucet

/-! ### Where a step leaves the run alone -/

/-- `s'` continues the same operation of the same run: events were added at most. -/
structure Continues (s s' : State) : Prop where
  past : s'.past = s.past
  running : s'.running = s.running
  now : s'.now = s.now
  trace : s.trace <+: s'.trace

namespace Continues

theorem refl (s : State) : Continues s s := ⟨rfl, rfl, rfl, List.prefix_rfl⟩

theorem trans {s t u : State} (h : Continues s t) (h' : Continues t u) : Continues s u :=
  ⟨h'.past.trans h.past, h'.running.trans h.running, h'.now.trans h.now, h.trace.trans h'.trace⟩

theorem note (e : Event) (s : State) : Continues s (s.note e) :=
  ⟨rfl, rfl, rfl, List.prefix_append _ _⟩

theorem lockInputs (tx : BuiltTx) (now : ℤ) (s : State) : Continues s (s.lockInputs tx now) :=
  ⟨rfl, rfl, rfl, List.prefix_append _ _⟩

theorem recordSpend (tx : BuiltTx) (now : ℤ) (s : State) : Continues s (s.recordSpend tx now) :=
  ⟨rfl, rfl, rfl, (List.prefix_append _ _).trans (List.prefix_append _ _)⟩

theorem conclude (tx : BuiltTx) (outcome : BroadcastSettlement) (locks : Bool) (now : ℤ)
    (s : State) : Continues s (s.conclude tx outcome locks now) := by
  cases locks with
  | false => exact note _ s
  | true => exact (lockInputs tx now s).trans (note _ _)

theorem commit (payer : Payer) (tx : BuiltTx) (input : PayoutRequest) (satoshis : ℕ) (now : ℤ)
    (s : State) : Continues s (s.commit payer tx input satoshis now) := by
  cases payer <;> exact ⟨rfl, rfl, rfl, List.prefix_rfl⟩

theorem chargeUncertain (payer : Payer) (tx : BuiltTx) (input : PayoutRequest) (satoshis : ℕ)
    (now : ℤ) (s : State) : Continues s (s.chargeUncertain payer tx input satoshis now) := by
  cases payer <;> exact ⟨rfl, rfl, rfl, List.prefix_rfl⟩

end Continues

theorem Books.continues {op : Op} {now : ℤ} {tx : BuiltTx} {outcome : BroadcastSettlement}
    {s s' : State} (h : Books op now tx outcome s s') : Continues s s' := by
  cases h with
  | paid => exact (Continues.recordSpend ..).trans (.commit ..)
  | doubtful => exact .chargeUncertain ..
  | unpaid | unmaintained | kept => exact .refl _
  | maintained => exact .recordSpend ..
  | awaited => exact (Continues.recordSpend ..).trans ⟨rfl, rfl, rfl, List.prefix_rfl⟩
  | discarded => exact ⟨rfl, rfl, rfl, List.prefix_rfl⟩

/-- The record of a settlement. -/
theorem trace_conclude (tx : BuiltTx) (outcome : BroadcastSettlement) (locks : Bool) (now : ℤ)
    (s : State) : (s.conclude tx outcome locks now).trace =
      s.trace ++ (if locks then [.locked tx] else []) ++ [.settled tx outcome] := by
  cases locks with
  | false =>
    rw [if_neg Bool.false_ne_true, List.append_nil]
    rfl
  | true => rfl

/-- The events of the bookkeeping: what was accepted is recorded. -/
def BroadcastSettlement.booked (tx : BuiltTx) : BroadcastSettlement → List Event
  | .ok _ => [.locked tx, .recorded tx]
  | .failed .. => []

theorem Books.trace_eq {op : Op} {now : ℤ} {tx : BuiltTx} {outcome : BroadcastSettlement}
    {s s' : State} (h : Books op now tx outcome s s') :
    s'.trace = s.trace ++ outcome.booked tx := by
  cases h with
  | @paid input payer => cases payer <;> exact List.append_assoc ..
  | maintained | awaited => exact List.append_assoc ..
  | @doubtful input payer => cases payer <;> exact (List.append_nil _).symm
  | unpaid | unmaintained | kept | discarded => exact (List.append_nil _).symm

/-- Every step continues the operation. -/
theorem Step.continues {f : Faucet} {op : Op} {now : ℤ} {s s' : State} (h : Step f op now s s') :
    Continues s s' := by
  cases h with
  | prune | verdict | demand | backfill | claim | recycle | spoil | count =>
    exact ⟨rfl, rfl, rfl, List.prefix_rfl⟩
  | admits | view | build | mint | issue => exact ⟨rfl, rfl, rfl, List.prefix_append _ _⟩
  | settle _ _ _ hbooks => exact (Continues.conclude ..).trans hbooks.continues
  | confirm =>
    split
    · exact (Continues.recordSpend ..).trans ⟨rfl, rfl, rfl, List.prefix_rfl⟩
    · exact ⟨rfl, rfl, rfl, List.prefix_rfl⟩

namespace Faucet

variable {f : Faucet}

/-- So does every segment. -/
theorem continues_of_steps {op : Op} {now : ℤ} {s s' : State}
    (h : Relation.ReflTransGen (Step f op now) s s') : Continues s s' := by
  induction h with
  | refl => exact .refl s
  | tail _ hstep ih => exact ih.trans hstep.continues

/-- **The invariant rule.** What every kind of move keeps holds wherever moves lead. -/
theorem Kept.moves {I : State → Prop} (hI : f.Kept I) {x y : Actor.Phase f.treasury}
    (h : Actor.Moves f.contract f.EndsWell x y) (hx : f.Aligned x) (hIx : I x.store) :
    f.Aligned y ∧ I y.store := by
  refine Actor.invariant (I := fun z => f.Aligned z ∧ I z.store) h ⟨hx, hIx⟩ ?_
  rintro a b ⟨ha, hIa⟩ hmove
  cases hmove with
  | «begin» op s hle =>
    have hnow := ha.le_clock.trans hle
    refine ⟨⟨rfl, fun _ _ h => (by cases h; rfl), fun h => (by cases h), le_refl _⟩, ?_⟩
    exact hI.enter op _ s ha.running (ha.idle rfl) hnow trivial hIa
  | @work op t clock s s' hguar =>
    -- a segment is a run of steps, each of them of the operation that runs
    have hrun : s.running = some op := ha.running
    have hnow : s.now = t := ha.time op t rfl
    have hcont := continues_of_steps hguar
    refine ⟨⟨hcont.running.trans hrun, fun _ _ h => (by cases h; exact hcont.now.trans hnow),
      fun h => (by cases h), hcont.now.symm ▸ ha.le_clock⟩, ?_⟩
    change I s'
    induction hguar with
    | refl => exact hIa
    | tail hsteps hstep ih =>
      have hc := continues_of_steps hsteps
      have hn : _ = t := hc.now.trans hnow
      subst hn
      exact hI.step op _ _ (hc.running.trans hrun) hstep trivial (ih hc)
  | @answer op t clock s q a hask =>
    refine ⟨⟨ha.running, ha.time, fun h => (by cases h), ha.le_clock⟩, ?_⟩
    exact hI.answer op q a s ha.running hask trivial hIa
  | @call c clock t busy s hle =>
    have hnow : s.now ≤ t := ha.le_clock.trans hle
    exact ⟨⟨ha.running, ha.time, ha.idle, hnow⟩, hI.call c t s hnow trivial hIa⟩
  | @finish op t clock s r hfin =>
    obtain rfl : s.now = t := ha.time op t rfl
    refine ⟨⟨rfl, fun _ _ h => (by cases h), fun _ => rfl, ha.le_clock⟩, ?_⟩
    exact hI.leave op r s ha.running hfin trivial hIa

/-- An invariant may rest on one already established. -/
theorem KeptUnder.and {J I : State → Prop} (hJ : f.Kept J) (hI : f.KeptUnder J I) :
    f.Kept fun s => J s ∧ I s where
  step op s s' hr h _ hs := ⟨hJ.step op s s' hr h trivial hs.1, hI.step op s s' hr h hs.1 hs.2⟩
  answer op q a s hr h _ hs :=
    ⟨hJ.answer op q a s hr h trivial hs.1, hI.answer op q a s hr h hs.1 hs.2⟩
  call c t s hle _ hs := ⟨hJ.call c t s hle trivial hs.1, hI.call c t s hle hs.1 hs.2⟩
  enter op t s hr ht hle _ hs :=
    ⟨hJ.enter op t s hr ht hle trivial hs.1, hI.enter op t s hr ht hle hs.1 hs.2⟩
  leave op r s hr h _ hs := ⟨hJ.leave op r s hr h trivial hs.1, hI.leave op r s hr h hs.1 hs.2⟩

end Faucet

end DashFaucet

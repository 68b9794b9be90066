import DashFaucet.Treasury.Coins

/-!
# Phantom coins

A coin that the view offers although it was spent makes every transaction built from it worthless.
Payouts and maintenance record what they have just built, so with fresh transaction ids none of
their outputs can have been consumed before, and every run is careful. A voucher's asset lock may be
recorded many passes after it was broadcast. By then its change may be spent and that lock gone.

* `RecordsOwn`: outside the vouchers, what is recorded was built before, in the same operation.
* `FreshTxids`, `Faucet.careful_of_fresh`: so fresh ids make a run careful.
* `Faucet.no_phantom_coins`: the ledger of payouts, maintenance and snapshots offers no phantom.
* `Faucet.voucher_change_revived`, `Faucet.no_change_revived`: recording a voucher late may bring
  back spent change, and only when the record is not careful.
-/

namespace DashFaucet

open Async

/-! ### What is recorded was built before -/

/-- What a step of operation `op` may add to the record, as far as transactions are built and
recorded. Outside the vouchers, what is recorded was built by the operation, and its broadcast is
the only one settled. -/
inductive Records (op : Op) (s : State) : List Event → Prop where
  | built {tx : BuiltTx} (hown : ∀ o ∈ tx.ownOutputs, o.txid = tx.txid) : Records op s [.built tx]
  | other {es : List Event} (hbuilt : ∀ tx, .built tx ∉ es)
      (hrecorded : op ≠ .maintainInvitations → ∀ tx, .recorded tx ∉ es) : Records op s es
  | own {tx : BuiltTx} {accepted : List String} {es : List Event} (hbuilt : ∀ tx', .built tx' ∉ es)
      (hrecorded : ∀ tx', .recorded tx' ∉ es) (hsettled : .settled tx (.ok accepted) ∈ es)
      (honce : op ≠ .maintainInvitations → Unsettled s.trace ∧ .built tx ∈ s.trace) :
      Records op s (es ++ [.recorded tx])

theorem Step.records {f : Faucet} (hd : f.dash.Faithful) {op : Op} {now : ℤ} {s s' : State}
    (h : Step f op now s s') : ∃ es, s'.trace = s.trace ++ es ∧ Records op s es := by
  cases h with
  | prune | verdict | demand | backfill | claim | recycle | spoil | count =>
    exact ⟨[], (List.append_nil _).symm, .other (by simp) (by simp)⟩
  | admits | view | mint | issue => exact ⟨_, rfl, .other (by simp) (by simp)⟩
  | build hbuilt => exact ⟨_, rfl, .built (hbuilt hd).own_txid⟩
  -- a settlement records the transaction when it went through
  | @settle tx outcome locks es pre _ _ hset hans honce hbooks =>
    have htrace := hbooks.trace_eq
    rw [trace_conclude, List.append_assoc, List.append_assoc] at htrace
    refine ⟨_, htrace, ?_⟩
    cases outcome with
    | failed result uncertain =>
      refine .other (fun tx' he => ?_) fun _ tx' he => ?_ <;>
        cases locks <;> simp [BroadcastSettlement.booked] at he
    | ok accepted =>
      have hsplit : (if locks then [Event.locked tx] else []) ++ ([.settled tx (.ok accepted)] ++
          [.locked tx, .recorded tx]) = ((if locks then [Event.locked tx] else []) ++
            [.settled tx (.ok accepted), .locked tx]) ++ [.recorded tx] := by simp
      rw [BroadcastSettlement.booked, hsplit]
      have hsettled : Event.settled tx (.ok accepted) ∈ (if locks then [Event.locked tx] else []) ++
          [.settled tx (.ok accepted), .locked tx] := List.mem_append_right _ List.mem_cons_self
      refine .own (fun tx' he => ?_) (fun tx' he => ?_) hsettled honce <;>
        cases locks <;> simp at he
  -- a confirmed voucher records its transaction when the broadcast was in doubt
  | @confirm row p status height _ hop =>
    split
    · refine ⟨[.locked row.built, .recorded row.built], List.append_assoc .., ?_⟩
      exact .other (by simp) fun hne => absurd hop hne
    · exact ⟨[], (List.append_nil _).symm, .other (by simp) (by simp)⟩

/-- What the log says of the transactions of payouts and maintenance. -/
structure RecordsOwn (log : List Entry) : Prop where
  named : ∀ op t tx, (op, t, .built tx) ∈ log → ∀ o ∈ tx.ownOutputs, o.txid = tx.txid
  /-- What was recorded was accepted, and built since anything else was recorded. -/
  recorded : ∀ hist op t tx, op ≠ .maintainInvitations → hist ++ [(op, t, .recorded tx)] <+: log →
    (∃ accepted, (op, t, .settled tx (.ok accepted)) ∈ hist) ∧
    ∃ before since, hist = before ++ (op, t, .built tx) :: since ∧
      ∀ op' t' tx', (op', t', .recorded tx') ∉ since

namespace RecordsOwn

variable {log : List Entry} {op : Op} {t : ℤ} {es : List Event}

/-- Events among which nothing is recorded outside the vouchers. -/
theorem append (h : RecordsOwn log)
    (hbuilt : ∀ tx, .built tx ∈ es → ∀ o ∈ tx.ownOutputs, o.txid = tx.txid)
    (hrecorded : op ≠ .maintainInvitations → ∀ tx, .recorded tx ∉ es) :
    RecordsOwn (log ++ entries op t es) where
  named op' t' tx hx := by
    rcases List.mem_append.mp hx with hx | hx
    · exact h.named op' t' tx hx
    · obtain ⟨e, he, heq⟩ := List.mem_map.mp hx
      cases heq
      exact hbuilt tx he
  recorded hist op' t' tx hop hhist := by
    refine h.recorded hist op' t' tx hop (prefix_of_not_mem hhist fun hx => ?_)
    obtain ⟨e, he, heq⟩ := List.mem_map.mp hx
    cases heq
    exact hrecorded hop tx he

/-- A transaction is recorded. -/
theorem record (h : RecordsOwn log) {tx : BuiltTx} (hrecorded : op ≠ .maintainInvitations →
      (∃ accepted, (op, t, .settled tx (.ok accepted)) ∈ log) ∧
      ∃ before since, log = before ++ (op, t, .built tx) :: since ∧
        ∀ op' t' tx', (op', t', .recorded tx') ∉ since) :
    RecordsOwn (log ++ [(op, t, .recorded tx)]) where
  named op' t' tx' hx := by
    rcases List.mem_append.mp hx with hx | hx
    · exact h.named op' t' tx' hx
    · cases List.mem_singleton.mp hx
  recorded hist op' t' tx' hop hhist := by
    rcases List.prefix_concat_iff.mp hhist with heq | hhist
    · obtain ⟨rfl, hlast⟩ := List.append_inj' heq rfl
      cases hlast
      exact hrecorded hop
    · exact h.recorded hist op' t' tx' hop hhist

end RecordsOwn

namespace Faucet

variable {f : Faucet}

/-- The invariant as one of states. An operation that has settled nothing has recorded nothing. -/
abbrev RecordsOwnOf (s : State) : Prop :=
  RecordsOwn s.log ∧ ∀ op, s.running = some op → op ≠ .maintainInvitations →
    ∀ tx, .recorded tx ∈ s.trace → ¬Unsettled s.trace

theorem recordsOwn_step {op : Op} {s s' : State} {es : List Event} (hrun : s.running = some op)
    (hcont : Continues s s') (htrace : s'.trace = s.trace ++ es) (hes : Records op s es)
    (h : RecordsOwnOf s) : RecordsOwnOf s' := by
  obtain ⟨horder, hsettled⟩ := h
  have hlog := State.log_append hrun hcont htrace
  have hrun' : s'.running = some op := hcont.running.trans hrun
  -- what was settled stays settled
  have hold : ∀ tx, .recorded tx ∈ s.trace → op ≠ .maintainInvitations → ¬Unsettled s'.trace := by
    intro tx he hop hun
    exact hsettled op hrun hop tx he fun tx' outcome he' =>
      hun tx' outcome (htrace ▸ List.mem_append_left _ he')
  refine ⟨?_, fun op' hop' hne tx he => ?_⟩
  · rw [hlog]
    cases hes with
    | @built tx hown =>
      refine horder.append (fun tx' he => ?_) (by simp)
      cases List.mem_singleton.mp he
      exact hown
    | other hbuilt hrecorded => exact horder.append (fun tx he => absurd he (hbuilt tx)) hrecorded
    | @own tx accepted es hbuilt hrecorded hset honce =>
      rw [List.map_append, ← List.append_assoc]
      have hmid : RecordsOwn (s.log ++ entries op s.now es) :=
        horder.append (fun tx he => absurd he (hbuilt tx)) fun _ => hrecorded
      refine hmid.record fun hop =>
        ⟨⟨accepted, List.mem_append_right _ (List.mem_map_of_mem hset)⟩, ?_⟩
      -- the operation built it, and recorded nothing since it began
      obtain ⟨hun, hmem⟩ := honce hop
      obtain ⟨pre, post, heq⟩ := List.append_of_mem hmem
      refine ⟨s.pastLog ++ entries op s.now pre, entries op s.now (post ++ es), ?_,
        fun op' t' tx' hx => ?_⟩
      · rw [State.log_running hrun, heq]
        simp
      · obtain ⟨e, he, hentry⟩ := List.mem_map.mp hx
        cases hentry
        rcases List.mem_append.mp he with he | he
        · refine hsettled op hrun hop tx' ?_ hun
          rw [heq]
          exact List.mem_append_right _ (List.mem_cons_of_mem _ he)
        · exact hrecorded tx' he
  · obtain rfl : op = op' := Option.some.inj (hrun'.symm.trans hop')
    rw [htrace] at he
    rcases List.mem_append.mp he with he | he
    · exact hold tx he hne
    · cases hes with
      | built => simp at he
      | other _ hrecorded => exact absurd he (hrecorded hne tx)
      | own _ _ hset =>
        intro hun
        refine hun _ _ (htrace ▸ List.mem_append_right _ (List.mem_append_left _ hset))

theorem recordsOwn_kept (hd : f.dash.Faithful) : f.Kept RecordsOwnOf where
  step op s s' hrun hstep _ h := by
    obtain ⟨es, htrace, hes⟩ := hstep.records hd
    exact recordsOwn_step hrun hstep.continues htrace hes h
  answer op q a s hrun _ _ h :=
    recordsOwn_step hrun (.note _ s) rfl (.other (by simp) (by simp)) h
  call c t s _ _ h := h
  enter op t s hrun _ _ _ h := by
    refine ⟨?_, fun _ _ _ _ he => by cases he⟩
    rw [State.log_enter hrun]
    exact h.1
  leave op r s hrun _ _ h := by
    refine ⟨?_, fun _ _ _ _ he => by cases he⟩
    rw [State.log_leave hrun]
    exact h.1

/-! ### Fresh ids -/

/-- No transaction is built whose id is that of a coin which an earlier one spends. -/
def FreshTxids (log : List Entry) : Prop :=
  ∀ hist op t tx, hist ++ [(op, t, .built tx)] <+: log →
    ∀ op' t' tx', (op', t', .built tx') ∈ hist → ∀ o ∈ tx'.inputs, o.txid ≠ tx.txid

/-- **Fresh ids make a run careful**, as long as no vouchers are minted. -/
theorem careful_of_fresh {log : List Entry} (h : RecordsOwn log) (hfresh : FreshTxids log)
    (hops : ∀ x ∈ log, x.1 ≠ .maintainInvitations) : Careful log := by
  intro hist op t tx hhist o hown hused
  exfalso
  have hmem : ∀ {hist : List Entry} {x : Entry}, hist ++ [x] <+: log → x ∈ log :=
    fun hpre => hpre.subset (List.mem_append_right _ List.mem_cons_self)
  obtain ⟨-, before, since, rfl, hnone⟩ := h.recorded hist op t tx (hops _ (hmem hhist)) hhist
  have hbuilt : before ++ [(op, t, .built tx)] <+: log :=
    List.IsPrefix.trans ⟨since ++ [(op, t, .recorded tx)], by simp⟩ hhist
  obtain ⟨own, hmade, rfl⟩ := List.mem_map.mp hown
  -- what consumed the output was recorded, and so built, before
  obtain ⟨op', t', tx', hrec, hin⟩ := hused
  have hrec : (op', t', .recorded tx') ∈ before := by
    rcases List.mem_append.mp hrec with hrec | hrec
    · exact hrec
    · rcases List.mem_cons.mp hrec with heq | hrec
      · cases heq
      · exact absurd hrec (hnone _ _ _)
  obtain ⟨pre, post, rfl⟩ := List.append_of_mem hrec
  have hpre : pre ++ [(op', t', .recorded tx')] <+: log := by
    refine List.IsPrefix.trans ⟨post ++ [(op, t, .built tx)], by simp⟩ hbuilt
  obtain ⟨-, before', since', rfl, -⟩ := h.recorded pre op' t' tx' (hops _ (hmem hpre)) hpre
  refine hfresh _ op t tx hbuilt op' t' tx' (by simp) _ hin ?_
  exact h.named op t tx (hmem hbuilt) own hmade

/-- **No phantom coins.** In every run of payouts, maintenance and snapshots (requests for vouchers
may come in between), with fresh transaction ids: a pending output that a recorded transaction
consumed is locked; and every coin that a view offered although the explorers did not list it is an
output of an accepted transaction, which no transaction recorded by then had spent. -/
theorem no_phantom_coins (hd : f.dash.Faithful) {c : Actor.Config f.treasury} (hc : f.Reached c)
    (hops : ∀ r ∈ c.store.records, r.op ≠ .maintainInvitations) (hfresh : FreshTxids c.store.log) :
    (∀ r ∈ c.store.ledger.pending.rows, Consumed c.store.log r.outpoint →
      c.store.ledger.isSpent r.outpoint = true) ∧
    ∀ hist op t snapshot view, hist ++ [(op, t, .viewed snapshot view)] <+: c.store.log →
      ∀ u ∈ view.utxos, u.outpoint ∉ snapshot.utxos.map Utxo.outpoint →
        (∃ op' t' tx accepted, (op', t', .settled tx (.ok accepted)) ∈ hist ∧
          (op', t', .recorded tx) ∈ hist ∧ u.outpoint ∈ tx.ownOutputs.map OwnOutput.outpoint) ∧
        ¬Consumed hist u.outpoint := by
  have hlog : ∀ x ∈ c.store.log, x.1 ≠ .maintainInvitations := by
    intro x hx
    obtain ⟨r, hr, hx⟩ := List.mem_flatMap.mp hx
    obtain ⟨e, -, rfl⟩ := List.mem_map.mp hx
    exact hops r hr
  obtain ⟨-, horder, -⟩ :=
    (recordsOwn_kept hd).reached (fun clock => ⟨⟨fun _ _ _ hx => (by cases hx),
    fun hist _ _ _ _ hhist => (by simpa using List.prefix_nil.mp hhist)⟩,
    fun _ hrun => (by cases hrun)⟩) hc
  have hsound := sound_reached hc (careful_of_fresh horder hfresh hlog)
  refine ⟨hsound.masked, fun hist op t snapshot view hhist u hu hout => ?_⟩
  obtain ⟨⟨op', t', tx, hrec, hown⟩, hunused⟩ :=
    hsound.viewed hist op t snapshot view hhist u hu hout
  refine ⟨⟨op', t', tx, ?_⟩, hunused⟩
  -- what was recorded had been accepted
  obtain ⟨pre, post, rfl⟩ := List.append_of_mem hrec
  have hpre : pre ++ [(op', t', .recorded tx)] <+: c.store.log :=
    List.IsPrefix.trans ⟨post ++ [(op, t, .viewed snapshot view)], by simp⟩ hhist
  have hop : op' ≠ .maintainInvitations :=
    hlog _ (hpre.subset (List.mem_append_right _ List.mem_cons_self))
  obtain ⟨⟨accepted, hset⟩, -⟩ := horder.recorded pre op' t' tx hop hpre
  exact ⟨accepted, List.mem_append_left _ hset, hrec, hown⟩

/-- The transaction an entry builds. -/
def builtTx : Entry → Option BuiltTx
  | (_, _, .built tx) => some tx
  | _ => none

/-- One transaction has a fresh id. -/
theorem FreshTxids.of_single {log : List Entry} {tx₀ : BuiltTx}
    (h : log.filterMap builtTx = [tx₀]) :
    FreshTxids log := by
  rintro hist op t tx ⟨rest, hlog⟩ op' t' tx' hmem
  obtain ⟨pre, post, rfl⟩ := List.append_of_mem hmem
  rw [← hlog] at h
  have hlen := congrArg List.length h
  simp only [List.append_assoc, List.cons_append, List.nil_append, List.filterMap_append,
    List.filterMap_cons, builtTx, List.length_append, List.length_cons, List.length_nil] at hlen
  omega

/-- What an entry tells of coins: those listed and those offered by a view, or what became of a
transaction. -/
inductive Tale where
  | offered (listed offered : List Outpoint)
  | minted (tx : BuiltTx)
  | doubted (tx : BuiltTx)
  | recorded (tx : BuiltTx)
  deriving DecidableEq

def tale : Entry → Option Tale
  | (_, _, .viewed snapshot view) =>
    some (.offered (snapshot.utxos.map Utxo.outpoint) (view.utxos.map Utxo.outpoint))
  | (_, _, .minted row) => some (.minted row.built)
  | (_, _, .settled tx (.failed _ true)) => some (.doubted tx)
  | (_, _, .recorded tx) => some (.recorded tx)
  | _ => none

/-- Every tale is told by an entry of its kind. -/
theorem of_tale {x : Entry} {y : Tale} (h : tale x = some y) : ∃ op t,
    match y with
    | .offered listed offered => ∃ snapshot view, x = (op, t, .viewed snapshot view) ∧
        snapshot.utxos.map Utxo.outpoint = listed ∧ view.utxos.map Utxo.outpoint = offered
    | .minted tx => ∃ row, x = (op, t, .minted row) ∧ row.built = tx
    | .doubted tx => ∃ result, x = (op, t, .settled tx (.failed result true))
    | .recorded tx => x = (op, t, .recorded tx) := by
  obtain ⟨op, t, e⟩ := x
  refine ⟨op, t, ?_⟩
  unfold tale at h
  split at h
  · next heq =>
    cases heq
    cases h
    exact ⟨_, _, rfl, rfl, rfl⟩
  · next heq =>
    cases heq
    cases h
    exact ⟨_, rfl, rfl⟩
  · next heq =>
    cases heq
    cases h
    exact ⟨_, rfl⟩
  · next heq =>
    cases heq
    cases h
    rfl
  · cases h

/-- A log whose last tale is a view, split there. -/
theorem split_offered {log : List Entry} {front : List Tale} {listed offered : List Outpoint}
    (h : log.filterMap tale = front ++ [.offered listed offered]) : ∃ hist op t snapshot view,
      hist ++ [(op, t, .viewed snapshot view)] <+: log ∧
        (∀ y ∈ front, ∃ x ∈ hist, tale x = some y) ∧
        snapshot.utxos.map Utxo.outpoint = listed ∧ view.utxos.map Utxo.outpoint = offered := by
  obtain ⟨hist, last, rfl, hhist, hlast⟩ := List.filterMap_eq_append_iff.mp h
  obtain ⟨l₁, x, l₂, rfl, -, hx, -⟩ := List.filterMap_eq_cons_iff.mp hlast
  obtain ⟨op, t, snapshot, view, rfl, hlisted, hoffered⟩ := of_tale hx
  refine ⟨hist ++ l₁, op, t, snapshot, view, ⟨l₂, by simp⟩, fun y hy => ?_, hlisted, hoffered⟩
  obtain ⟨x, hmem, heq⟩ := List.mem_filterMap.mp (hhist ▸ hy)
  exact ⟨x, List.mem_append_left _ hmem, heq⟩

/-- The change of a payout is offered by the next view, and has not been spent. -/
theorem no_phantom_coins_small : ∃ c, small.Reached c ∧ ∃ hist op t snapshot view,
    hist ++ [(op, t, .viewed snapshot view)] <+: c.store.log ∧ ∃ u ∈ view.utxos,
      u.outpoint ∉ snapshot.utxos.map Utxo.outpoint ∧ ¬Consumed hist u.outpoint := by
  have hrun : (smallAfter
      (smallRun (.payout { address := "Xalice", pubKeyHash := "alice", ip := "192.0.2.1" }) 1000 5
        (.ok "sent") ++ smallRun .snapshot 2000 2 (.ok "sent"))).map (fun c =>
      (c.store.log.filterMap tale, c.store.records.map OpRecord.op,
        c.store.log.filterMap builtTx)) =
      some ([.offered [⟨"a", 0⟩, ⟨"b", 0⟩] [⟨"a", 0⟩, ⟨"b", 0⟩],
          .recorded ⟨"a", "id of a", [⟨"a", 0⟩], [⟨"id of a", 1, 2 * coin - 227⟩], 227, 3 * coin⟩,
          .offered [⟨"a", 0⟩, ⟨"b", 0⟩] [⟨"b", 0⟩, ⟨"id of a", 1⟩]],
        [.payout { address := "Xalice", pubKeyHash := "alice", ip := "192.0.2.1" }, .snapshot],
        [⟨"a", "id of a", [⟨"a", 0⟩], [⟨"id of a", 1, 2 * coin - 227⟩], 227, 3 * coin⟩]) := by
    decide +kernel
  obtain ⟨c, hc, hsummary⟩ := Option.map_eq_some_iff.mp hrun
  obtain ⟨hviews, hops, hbuilt⟩ := by simpa only [Prod.mk.injEq] using hsummary
  have hreached := smallAfter_reached hc
  have hops' : ∀ r ∈ c.store.records, r.op ≠ .maintainInvitations := by
    intro r hr hop
    have hmem := List.mem_map_of_mem (f := OpRecord.op) hr
    rw [hops, hop] at hmem
    simp at hmem
  obtain ⟨hist, op, t, snapshot, view, hpre, -, hlisted, hoffered⟩ :=
    split_offered (show c.store.log.filterMap tale = [_, _] ++ [_] from hviews)
  -- the change of the payout, which no listing shows yet
  have hchange : (⟨"id of a", 1⟩ : Outpoint) ∈ view.utxos.map Utxo.outpoint := by
    rw [hoffered]
    simp
  obtain ⟨u, hu, heq⟩ := List.mem_map.mp hchange
  have hout : u.outpoint ∉ snapshot.utxos.map Utxo.outpoint := by
    rw [hlisted, heq]
    decide
  exact ⟨c, hreached, _, op, t, snapshot, view, hpre, u, hu, hout,
    ((no_phantom_coins smallTx_faithful hreached hops' (.of_single hbuilt)).2 _ op t snapshot
      view hpre u hu
      hout).2⟩

/-! ### Vouchers recorded late -/

/-- **Late recording revives nothing, when it is careful.** In every run in which each transaction
is recorded while those of its outputs that a recorded transaction has consumed are still locked:
what a view offered beyond the listing had not been spent. In particular no view offers the change
of a voucher's asset lock, once a recorded transaction has spent it and the explorers do not list
it. -/
theorem no_change_revived {c : Actor.Config f.treasury} (hc : f.Reached c)
    (hcareful : Careful c.store.log) :
    ∀ hist op t snapshot view, hist ++ [(op, t, .viewed snapshot view)] <+: c.store.log →
      ∀ o, o ∉ snapshot.utxos.map Utxo.outpoint → Consumed hist o →
        o ∉ view.utxos.map Utxo.outpoint := by
  intro hist op t snapshot view hhist o hout hused hoffered
  obtain ⟨u, hu, rfl⟩ := List.mem_map.mp hoffered
  exact ((sound_reached hc hcareful).viewed hist op t snapshot view hhist u hu hout).2 hused

/-! Two vouchers in a row, in a world that names the second one differently. The relays do not
answer when the first asset lock is broadcast, so it is in doubt. -/

/-- The first voucher's asset lock. -/
def lateTx : BuiltTx :=
  ⟨"a", "aa", [⟨"a", 0⟩], [⟨"aa", 1, 199999736⟩], 264, 3 * coin⟩

/-- The second one's, from the change of the first. -/
def nextTx : BuiltTx :=
  ⟨"aa", "aaaa", [⟨"aa", 1⟩], [⟨"aaaa", 1, 99999472⟩], 264, 199999736⟩

/-- The transaction an entry records. -/
def recordedTx : Entry → Option BuiltTx
  | (_, _, .recorded tx) => some tx
  | _ => none

/-- A record is careful when no transaction spends outputs of a later one. -/
theorem careful_of_pairwise {log : List Entry}
    (h : (log.filterMap recordedTx).Pairwise fun tx' tx =>
    ∀ o ∈ tx.ownOutputs.map OwnOutput.outpoint, o ∉ tx'.inputs) : Careful log := by
  rintro hist op t tx ⟨rest, rfl⟩ o hown ⟨op', t', tx', hmem, hin⟩
  rw [List.append_assoc, List.filterMap_append, List.pairwise_append] at h
  have hold : tx' ∈ hist.filterMap recordedTx := List.mem_filterMap.mpr ⟨_, hmem, rfl⟩
  have hnew : tx ∈ ([(op, t, Event.recorded tx)] ++ rest).filterMap recordedTx := List.mem_cons_self
  exact absurd hin (h.2.2 tx' hold tx hnew o hown)

/-- The pass that mints the first voucher. -/
def doubtfulPass : List (Actor.Input (minting 3).treasury) :=
  mintRun 3 .maintainInvitations 1000 16 [⟨"a", 0, 3 * coin, "faucet", some 1⟩] (.error "no answer")
    (.error "timeout")

/-- A later pass, with relays that answer. -/
def laterPass (t : ℤ) (awaits : ℕ) (utxos : List Utxo) (lock : Except String ChainLockStatus) :
    List (Actor.Input (minting 3).treasury) :=
  .begin .maintainInvitations t :: List.replicate awaits (.resume fun
    | .randomUUID => "another"
    | q => mintWorld utxos lock (.ok "sent") q)

/-- Recorded in time, the first voucher's change is spent once: the view after it does not offer the
change, although the explorers do not list it. -/
theorem no_change_revived_minting : ∃ c, (minting 3).Reached c ∧
    ∃ hist op t snapshot view, hist ++ [(op, t, .viewed snapshot view)] <+: c.store.log ∧
      (⟨"aa", 1⟩ : Outpoint) ∉ snapshot.utxos.map Utxo.outpoint ∧ Consumed hist ⟨"aa", 1⟩ ∧
      (⟨"aa", 1⟩ : Outpoint) ∉ view.utxos.map Utxo.outpoint := by
  have hrun : (mintAfter 3 (doubtfulPass ++ laterPass 600000 13 [] (.ok ⟨true, some 2, true⟩))).map
      (fun c => (c.store.log.filterMap tale, c.store.log.filterMap recordedTx)) =
      some ([.offered [⟨"a", 0⟩] [⟨"a", 0⟩], .minted lateTx, .doubted lateTx,
        .offered [⟨"a", 0⟩] [],
          .recorded lateTx, .offered [] [⟨"aa", 1⟩], .minted nextTx, .recorded nextTx,
          .offered [] [⟨"aaaa", 1⟩]], [lateTx, nextTx]) := by
    decide +kernel
  obtain ⟨c, hc, hsummary⟩ := Option.map_eq_some_iff.mp hrun
  obtain ⟨htales, hrecorded⟩ := by simpa only [Prod.mk.injEq] using hsummary
  have hcareful : Careful c.store.log := by
    refine careful_of_pairwise ?_
    rw [hrecorded]
    decide
  obtain ⟨hist, op, t, snapshot, view, hpre, htold, hlisted, -⟩ := split_offered
    (show c.store.log.filterMap tale = [_, _, _, _, _, _, _, _] ++ [_] from htales)
  obtain ⟨x, hx, heq⟩ := htold (.recorded nextTx) (by simp)
  obtain ⟨op', t', rfl⟩ := of_tale heq
  have hout : (⟨"aa", 1⟩ : Outpoint) ∉ snapshot.utxos.map Utxo.outpoint := by
    rw [hlisted]
    decide
  -- the second mint has spent the change of the first
  have hused : Consumed hist ⟨"aa", 1⟩ := ⟨op', t', nextTx, hx, by decide⟩
  have hreached := mintAfter_reached hc
  exact ⟨c, hreached, hist, op, t, snapshot, view, hpre, hout, hused,
    no_change_revived hreached hcareful hist op t snapshot view hpre _ hout hused⟩

/-- The change of a voucher comes back. Its asset lock is left in doubt; half an hour later its
change was listed, spent by the next voucher and is listed no more, and the lock on it is gone; then
a ChainLock source answers for the first voucher, it is recorded, and the next view offers the
change that the second one spent. -/
theorem voucher_change_revived : ∃ c, (minting 3).Reached c ∧
    (∀ r ∈ c.store.records, r.op = .maintainInvitations) ∧
    ∃ hist op t snapshot view, hist ++ [(op, t, .viewed snapshot view)] <+: c.store.log ∧
      (∃ op t row, (op, t, .minted row) ∈ hist ∧ row.built = lateTx) ∧
      (∃ op t result, (op, t, .settled lateTx (.failed result true)) ∈ hist) ∧
      (∃ op t, (op, t, .recorded lateTx) ∈ hist) ∧
      ∃ o ∈ lateTx.ownOutputs.map OwnOutput.outpoint, Consumed hist o ∧
        o ∉ snapshot.utxos.map Utxo.outpoint ∧ o ∈ view.utxos.map Utxo.outpoint := by
  have hrun : (mintAfter 3 (doubtfulPass ++
      laterPass 600000 13 [⟨"aa", 1, 199999736, "faucet", some 2⟩] (.error "no answer") ++
      laterPass 2460000 6 [] (.error "no answer") ++
      laterPass 2520000 6 [] (.ok ⟨true, some 2, true⟩))).map (fun c =>
      (c.store.log.filterMap tale, c.store.records.map OpRecord.op)) =
      some ([.offered [⟨"a", 0⟩] [⟨"a", 0⟩], .minted lateTx, .doubted lateTx,
          .offered [⟨"a", 0⟩] [], .offered [⟨"aa", 1⟩] [⟨"aa", 1⟩], .minted nextTx,
          .recorded nextTx, .offered [⟨"aa", 1⟩] [⟨"aaaa", 1⟩], .offered [] [⟨"aaaa", 1⟩],
          .recorded lateTx, .offered [] [⟨"aaaa", 1⟩, ⟨"aa", 1⟩]],
        List.replicate 4 .maintainInvitations) := by
    decide +kernel
  obtain ⟨c, hc, hsummary⟩ := Option.map_eq_some_iff.mp hrun
  obtain ⟨htales, hops⟩ := by simpa only [Prod.mk.injEq] using hsummary
  refine ⟨c, mintAfter_reached hc, fun r hr => ?_, ?_⟩
  · have hmem := List.mem_map_of_mem (f := OpRecord.op) hr
    rw [hops] at hmem
    exact List.eq_of_mem_replicate hmem
  -- the last view, with the tale of all that came before
  obtain ⟨hist, op, t, snapshot, view, hpre, htold, hlisted, hoffered⟩ := split_offered
    (show c.store.log.filterMap tale = [_, _, _, _, _, _, _, _, _, _] ++ [_] from htales)
  refine ⟨hist, op, t, snapshot, view, hpre, ?_, ?_, ?_, ⟨"aa", 1⟩, by decide, ?_, ?_, ?_⟩
  · obtain ⟨x, hx, heq⟩ := htold (.minted lateTx) (by simp)
    obtain ⟨op, t, row, rfl, hbuilt⟩ := of_tale heq
    exact ⟨op, t, row, hx, hbuilt⟩
  · obtain ⟨x, hx, heq⟩ := htold (.doubted lateTx) (by simp)
    obtain ⟨op, t, result, rfl⟩ := of_tale heq
    exact ⟨op, t, result, hx⟩
  · obtain ⟨x, hx, heq⟩ := htold (.recorded lateTx) (by simp)
    obtain ⟨op, t, rfl⟩ := of_tale heq
    exact ⟨op, t, hx⟩
  · obtain ⟨x, hx, heq⟩ := htold (.recorded nextTx) (by simp)
    obtain ⟨op, t, rfl⟩ := of_tale heq
    exact ⟨op, t, nextTx, hx, by decide⟩
  · rw [hlisted]
    decide
  · rw [hoffered]
    decide

end Faucet

end DashFaucet

import DashFaucet.Treasury.Administration
import DashFaucet.Treasury.Runs

/-!
# The books of the payouts

The limits of keys, codes, addresses and IPs are kept in tables of their own. What they have to
agree with is the record of the run: the payouts whose broadcast was settled, as accepted or in
doubt (`State.charges`). A settlement that throws leaves no charge, whatever the relays were handed.
Few things an operation does touch the books or the charges.

* `Effect`: the steps of `Step`, as far as the books and the charges are concerned.
* `Faucet.Certificate`: what admission promised, as long as the payout has settled nothing.
* `Faucet.Orderly`: the invariant that the promise is kept and the record is well formed.
* `Faucet.KeptByBooks.kept`: the rule for invariants about the books, in four cases.
-/

namespace DashFaucet

open Async

/-- A payout whose broadcast was settled, as accepted or in doubt. One whose settlement threw is
none of these, though its transaction may be live. -/
structure Charge where
  payer : Payer
  input : PayoutRequest
  tx : BuiltTx
  satoshis : ℕ
  /-- When the payout began. -/
  time : ℤ
  accepted : Bool

def Event.admission : Event → Option (Payer × ℕ)
  | .admitted payer satoshis => some (payer, satoshis)
  | _ => none

def Event.settlement : Event → Option (BuiltTx × BroadcastSettlement)
  | .settled tx outcome => some (tx, outcome)
  | _ => none

/-- The charge of an operation, if it is a payout that settled. -/
def OpRecord.charge (r : OpRecord) : Option Charge :=
  match r.op with
  | .payout input => do
    let (payer, satoshis) ← r.trace.findSome? Event.admission
    let (tx, outcome) ← r.trace.findSome? Event.settlement
    let accepted ← outcome.accepted?
    pure ⟨payer, input, tx, satoshis, r.now, accepted⟩
  | _ => none

/-- Every charge so far, oldest first. -/
def State.charges (s : State) : List Charge := s.records.filterMap OpRecord.charge

/-- The bookkeeping of a charge. -/
def State.charge (c : Charge) (s : State) : State :=
  if c.accepted then s.commit c.payer c.tx c.input c.satoshis c.time
  else s.chargeUncertain c.payer c.tx c.input c.satoshis c.time

/-- An event that neither admits nor settles. -/
structure Event.Aside (e : Event) : Prop where
  admission : e.admission = none
  settlement : e.settlement = none

/-! ### How the charges grow -/

theorem unsettled_iff {trace : List Event} :
    Unsettled trace ↔ trace.findSome? Event.settlement = none := by
  rw [List.findSome?_eq_none_iff]
  constructor
  · intro h e he
    cases e with
    | settled tx outcome => exact absurd he (h tx outcome)
    | _ => rfl
  · intro h tx outcome he
    cases h _ he

theorem findSome?_append_aside {α : Type} {g : Event → Option α} {trace es : List Event}
    (h : ∀ e ∈ es, g e = none) : (trace ++ es).findSome? g = trace.findSome? g := by
  rw [List.findSome?_append, List.findSome?_eq_none_iff.mpr h, Option.or_none]

/-- A settlement is the only one of its payout, and admits nobody. -/
theorem findSome?_settled {trace es es' : List Event} (tx : BuiltTx) (outcome : BroadcastSettlement)
    (hun : Unsettled trace) (haside : ∀ e ∈ es ++ es', e.Aside) :
    (trace ++ es ++ .settled tx outcome :: es').findSome? Event.settlement = some (tx, outcome) ∧
      (trace ++ es ++ .settled tx outcome :: es').findSome? Event.admission =
        trace.findSome? Event.admission := by
  constructor
  · have hes : ∀ e ∈ es, e.settlement = none :=
      fun e he => (haside e (List.mem_append_left _ he)).settlement
    rw [List.findSome?_append, findSome?_append_aside hes, unsettled_iff.mp hun]
    rfl
  · have hnone : ∀ e ∈ es ++ .settled tx outcome :: es', e.admission = none := by
      intro e he
      simp only [List.mem_append, List.mem_cons] at he
      rcases he with he | rfl | he
      · exact (haside e (List.mem_append_left _ he)).admission
      · rfl
      · exact (haside e (List.mem_append_right _ he)).admission
    rw [List.append_assoc, findSome?_append_aside hnone]

/-- Events aside change no charge. -/
theorem charge_append {op : Op} {now : ℤ} {trace es : List Event} (h : ∀ e ∈ es, e.Aside) :
    OpRecord.charge ⟨op, now, trace ++ es⟩ = OpRecord.charge ⟨op, now, trace⟩ := by
  unfold OpRecord.charge
  cases op with
  | payout input =>
    dsimp only
    rw [findSome?_append_aside fun e he => (h e he).admission,
      findSome?_append_aside fun e he => (h e he).settlement]
  | _ => rfl

theorem charge_eq_none {op : Op} {now : ℤ} {trace : List Event} (h : Unsettled trace) :
    OpRecord.charge ⟨op, now, trace⟩ = none := by
  unfold OpRecord.charge
  cases op with
  | payout input =>
    dsimp only
    rw [unsettled_iff.mp h]
    cases trace.findSome? Event.admission <;> rfl
  | _ => rfl

/-- The charges of the operations that ended, and that of the running one. -/
theorem charges_eq (s : State) :
    s.charges = (s.past.map Prod.fst).filterMap OpRecord.charge ++
      (s.running.bind fun op => OpRecord.charge ⟨op, s.now, s.trace⟩).toList := by
  unfold State.charges State.records
  rw [List.filterMap_append]
  cases s.running with
  | none => rfl
  | some op =>
    change _ ++ [(⟨op, s.now, s.trace⟩ : OpRecord)].filterMap OpRecord.charge = _
    rw [Option.bind_some, List.filterMap_cons]
    cases OpRecord.charge ⟨op, s.now, s.trace⟩ <;> rfl

theorem charges_of_continues {s s' : State} (h : Continues s s')
    (hcharge : ∀ op, s.running = some op →
      OpRecord.charge ⟨op, s.now, s'.trace⟩ = OpRecord.charge ⟨op, s.now, s.trace⟩) :
    s'.charges = s.charges := by
  rw [charges_eq, charges_eq, h.past, h.running, h.now]
  cases hr : s.running with
  | none => rfl
  | some op => rw [Option.bind_some, Option.bind_some, hcharge op hr]

/-- A settled payout adds its charge. -/
theorem charges_settle {s s' : State} (h : Continues s s') {input : PayoutRequest}
    (hrun : s.running = some (.payout input)) (hun : Unsettled s.trace) {payer : Payer}
    {satoshis : ℕ} {tx : BuiltTx} {outcome : BroadcastSettlement} {accepted : Bool}
    (hadm : s'.trace.findSome? Event.admission = some (payer, satoshis))
    (hset : s'.trace.findSome? Event.settlement = some (tx, outcome))
    (hout : outcome.accepted? = some accepted) :
    s'.charges = s.charges ++ [⟨payer, input, tx, satoshis, s.now, accepted⟩] := by
  have hnew : OpRecord.charge ⟨.payout input, s.now, s'.trace⟩ =
      some ⟨payer, input, tx, satoshis, s.now, accepted⟩ := by
    simp [OpRecord.charge, hadm, hset, hout]
  rw [charges_eq, charges_eq, h.past, h.running, h.now, hrun, Option.bind_some, Option.bind_some,
    hnew, charge_eq_none hun]
  simp

theorem charges_enter {s : State} {op : Op} {t : ℤ} (hrun : s.running = none) :
    (s.enter op t).charges = s.charges := by
  rw [charges_eq, charges_eq, hrun]
  change _ ++ (OpRecord.charge ⟨op, t, []⟩).toList = _
  rw [charge_eq_none fun tx outcome he => by cases he]
  rfl

theorem charges_leave {s : State} {op : Op} {r : Except Thrown Reply}
    (hrun : s.running = some op) : (s.leave op s.now r).charges = s.charges := by
  rw [charges_eq, charges_eq, hrun]
  change ((s.past ++ [((⟨op, s.now, s.trace⟩ : OpRecord), r)]).map Prod.fst).filterMap
    OpRecord.charge ++ [] = _
  rw [List.map_append, List.filterMap_append, List.append_nil, Option.bind_some]
  change _ ++ [(⟨op, s.now, s.trace⟩ : OpRecord)].filterMap OpRecord.charge = _
  rw [List.filterMap_cons]
  cases OpRecord.charge ⟨op, s.now, s.trace⟩ <;> rfl

@[simp] theorem charges_prune (s : State) (cfg : FaucetConfig) (now : ℤ) :
    (s.prune cfg now).charges = s.charges := rfl

@[simp] theorem charges_call (s : State) (cfg : FaucetConfig) (c : Call) (t : ℤ) :
    (s.call cfg c t).charges = s.charges := rfl

/-! ### Steps and the books -/

/-- The books of the payouts are the same. -/
structure SameBooks (s s' : State) : Prop where
  claims : s'.ledger.claims = s.ledger.claims
  ipHits : s'.ledger.ipHits = s.ledger.ipHits
  budget : s'.ledger.budget = s.ledger.budget
  keyPayouts : s'.ledger.keyPayouts = s.ledger.keyPayouts
  codeRedemptions : s'.ledger.codeRedemptions = s.ledger.codeRedemptions
  apiKeys : s'.admin.apiKeys = s.admin.apiKeys
  codes : s'.admin.codes = s.admin.codes
  codeVersions : s'.codeVersions = s.codeVersions

theorem SameBooks.refl (s : State) : SameBooks s s := ⟨rfl, rfl, rfl, rfl, rfl, rfl, rfl, rfl⟩

/-- A step as the books see it. -/
inductive Effect (f : Faucet) (op : Op) (now : ℤ) (s s' : State) : Prop where
  | prune (hstart : s.trace = []) (h : s' = s.prune f.cfg now)
  | admits {input : PayoutRequest} {payer : Payer} {satoshis : ℕ} (hop : op = .payout input)
      (hstart : s.trace = []) (hadm : admitPayout f.cfg s input now = .ok (payer, satoshis))
      (h : s' = s.note (.admitted payer satoshis))
  /-- A payout is accepted, or in doubt: it is charged. -/
  | settle {input : PayoutRequest} {payer : Payer} {satoshis : ℕ} {tx : BuiltTx}
      {outcome : BroadcastSettlement} {accepted : Bool} {es es' : List Event}
      (hop : op = .payout input) (hun : Unsettled s.trace)
      (hadm : .admitted payer satoshis ∈ s.trace) (hout : outcome.accepted? = some accepted)
      (htrace : s'.trace = s.trace ++ es ++ .settled tx outcome :: es')
      (haside : ∀ e ∈ es ++ es', e.Aside)
      (hbooks : SameBooks (s.charge ⟨payer, input, tx, satoshis, now, accepted⟩) s')
  /-- A payout is rejected. -/
  | reject {input : PayoutRequest} {tx : BuiltTx} {outcome : BroadcastSettlement}
      {es es' : List Event} (hop : op = .payout input) (hun : Unsettled s.trace)
      (hout : outcome.accepted? = none)
      (htrace : s'.trace = s.trace ++ es ++ .settled tx outcome :: es')
      (haside : ∀ e ∈ es ++ es', e.Aside) (hbooks : SameBooks s s')
  /-- Everything else. -/
  | aside {es : List Event} (htrace : s'.trace = s.trace ++ es)
      (haside : ∀ e ∈ es, e.admission = none ∧ ∀ input, op = .payout input → e.Aside)
      (hbooks : SameBooks s s')

/-- What the books say of the settlement of a payout. -/
theorem Books.effect {f : Faucet} {input : PayoutRequest} {now : ℤ} {tx : BuiltTx}
    {outcome : BroadcastSettlement} {locks : Bool} {s s' : State} (hun : Unsettled s.trace)
    (h : Books (.payout input) now tx outcome (s.conclude tx outcome locks now) s') :
    Effect f (.payout input) now s s' := by
  have hlock : ∀ e ∈ (if locks then [Event.locked tx] else []), e.Aside := by
    cases locks with
    | false => exact fun e he => by cases he
    | true =>
      intro e he
      rw [List.mem_singleton.mp he]
      exact ⟨rfl, rfl⟩
  -- the admission was recorded before the settlement
  have hadm' : ∀ {payer satoshis}, .admitted payer satoshis ∈
      (s.conclude tx outcome locks now).trace → .admitted payer satoshis ∈ s.trace := by
    intro payer satoshis he
    rw [trace_conclude] at he
    cases locks <;> simpa using he
  have hconclude := trace_conclude tx outcome locks now s
  cases h with
  -- the broadcast went through: the payer is charged
  | @paid input' payer satoshis accepted _ hop hadm =>
    cases hop
    have htrace : (((s.conclude tx (.ok accepted) locks now).recordSpend tx now).commit payer tx
        input satoshis now).trace = s.trace ++ (if locks then [.locked tx] else []) ++
          .settled tx (.ok accepted) :: [.locked tx, .recorded tx] := by
      have hcommit : (((s.conclude tx (.ok accepted) locks now).recordSpend tx now).commit payer tx
          input satoshis now).trace = (s.conclude tx (.ok accepted) locks now).trace ++
            [.locked tx] ++ [.recorded tx] := by cases payer <;> rfl
      rw [hcommit, hconclude]
      simp
    have hout : (BroadcastSettlement.ok accepted).accepted? = some true := rfl
    refine .settle rfl hun (hadm' hadm) hout htrace (fun e he => ?_) ?_
    · rcases List.mem_append.mp he with he | he
      · exact hlock e he
      · rcases List.mem_cons.mp he with rfl | he
        · exact ⟨rfl, rfl⟩
        · rw [List.mem_singleton.mp he]
          exact ⟨rfl, rfl⟩
    · cases payer <;> cases locks <;> exact ⟨rfl, rfl, rfl, rfl, rfl, rfl, rfl, rfl⟩
  -- it may have gone through: charged as well
  | @doubtful input' payer satoshis result _ hop hadm =>
    cases hop
    have htrace : ((s.conclude tx (.failed result true) locks now).chargeUncertain payer tx
        input satoshis now).trace = s.trace ++ (if locks then [.locked tx] else []) ++
          .settled tx (.failed result true) :: [] := by
      rw [← hconclude]
      cases payer <;> rfl
    have hout : (BroadcastSettlement.failed result true).accepted? = some false := rfl
    refine .settle rfl hun (hadm' hadm) hout htrace (fun e he => ?_) ?_
    · exact hlock e (by simpa using he)
    · cases payer <;> cases locks <;> exact ⟨rfl, rfl, rfl, rfl, rfl, rfl, rfl, rfl⟩
  -- it did not: nothing is charged
  | @unpaid input' result _ hop =>
    have hout : (BroadcastSettlement.failed result false).accepted? = none := rfl
    refine .reject rfl hun hout hconclude (fun e he => ?_) ?_
    · exact hlock e (by simpa using he)
    · cases locks <;> exact ⟨rfl, rfl, rfl, rfl, rfl, rfl, rfl, rfl⟩
  -- the other operations keep no payment's books
  | maintained hop => cases hop
  | unmaintained hop => cases hop
  | awaited hop => cases hop
  | kept hop => cases hop
  | discarded hop => cases hop

/-- Outside payouts, settling leaves the books alone and admits nothing. -/
theorem Books.aside {op : Op} {now : ℤ} {tx : BuiltTx} {outcome : BroadcastSettlement}
    {locks : Bool} {s s' : State} (hop : ∀ input, op ≠ .payout input)
    (h : Books op now tx outcome (s.conclude tx outcome locks now) s') :
    SameBooks s s' ∧ ∃ es, s'.trace = s.trace ++ es ∧ ∀ e ∈ es, e.admission = none := by
  have hconclude := trace_conclude tx outcome locks now s
  have hkeep : ∀ es', (∀ e ∈ es', Event.admission e = none) →
      s'.trace = (s.conclude tx outcome locks now).trace ++ es' →
      ∃ es, s'.trace = s.trace ++ es ∧ ∀ e ∈ es, e.admission = none := by
    -- the conclusion's own events, then those of the bookkeeping
    intro es' hes' htrace
    refine ⟨(if locks then [.locked tx] else []) ++ [.settled tx outcome] ++ es', ?_, ?_⟩
    · rw [htrace, hconclude]
      simp
    · intro e he
      rcases List.mem_append.mp he with he | he
      · cases locks <;> simp at he
        · rw [he]
          rfl
        · rcases he with rfl | rfl <;> rfl
      · exact hes' e he
  have hspend : ∀ e ∈ [Event.locked tx, .recorded tx], e.admission = none := by
    simp [Event.admission]
  cases h with
  -- only payouts charge
  | paid hop' | doubtful hop' | unpaid hop' => exact absurd hop' (hop _)
  | maintained _ | awaited _ =>
    refine ⟨?_, hkeep _ hspend (List.append_assoc ..)⟩
    cases locks <;> exact ⟨rfl, rfl, rfl, rfl, rfl, rfl, rfl, rfl⟩
  | unmaintained _ | kept _ | discarded _ =>
    refine ⟨?_, hkeep [] (by simp) (List.append_nil _).symm⟩
    cases locks <;> exact ⟨rfl, rfl, rfl, rfl, rfl, rfl, rfl, rfl⟩

/-- **The steps, as the books see them.** -/
theorem Step.effect {f : Faucet} {op : Op} {now : ℤ} {s s' : State} (h : Step f op now s s') :
    Effect f op now s s' := by
  have hkeep : ∀ {s'}, s'.trace = s.trace → SameBooks s s' → Effect f op now s s' :=
    fun htrace hbooks => .aside (htrace.trans (List.append_nil _).symm)
      (fun e he => by cases he) hbooks
  have hnote : ∀ {s'} (e : Event), e.Aside → s'.trace = s.trace ++ [e] → SameBooks s s' →
      Effect f op now s s' :=
    fun e he htrace hbooks => .aside htrace (fun e' he' => by
      rw [List.mem_singleton.mp he']
      exact ⟨he.admission, fun _ _ => he⟩) hbooks
  have hbooks : SameBooks s s := .refl s
  cases h with
  | prune hstart => exact .prune hstart rfl
  | admits hop hstart hadm => exact .admits hop hstart hadm rfl
  | verdict | demand | backfill | claim | recycle | spoil | count =>
    exact hkeep rfl ⟨rfl, rfl, rfl, rfl, rfl, rfl, rfl, rfl⟩
  | build => exact hnote _ ⟨rfl, rfl⟩ rfl ⟨rfl, rfl, rfl, rfl, rfl, rfl, rfl, rfl⟩
  | mint => exact hnote _ ⟨rfl, rfl⟩ rfl ⟨rfl, rfl, rfl, rfl, rfl, rfl, rfl, rfl⟩
  | issue => exact hnote _ ⟨rfl, rfl⟩ rfl ⟨rfl, rfl, rfl, rfl, rfl, rfl, rfl, rfl⟩
  | @view p address script snapshot immature _ hans hmature =>
    obtain ⟨sp, pe, heq⟩ := Ledger.reconcile_eq (snapshot.utxos.map Utxo.outpoint) now s.ledger
    refine hnote _ ⟨rfl, rfl⟩ rfl ?_
    simp only [State.note, State.withLedger, heq]
    exact ⟨rfl, rfl, rfl, rfl, rfl, rfl, rfl, rfl⟩
  | @settle tx outcome locks es pre _ _ hset hans honce hbooks =>
    -- only payouts are charged, and they settle once
    cases op with
    | payout input => exact hbooks.effect (honce Op.noConfusion).1
    | _ =>
      obtain ⟨hsame, es, htrace, hadm⟩ := hbooks.aside fun input h => by cases h
      exact .aside htrace (fun e he => ⟨hadm e he, fun input h => by cases h⟩) hsame
  | @confirm row =>
    split
    · have htrace : (s.recordSpend row.built now).trace =
          s.trace ++ [.locked row.built, .recorded row.built] := List.append_assoc ..
      refine .aside htrace (fun e he => ?_) ⟨rfl, rfl, rfl, rfl, rfl, rfl, rfl, rfl⟩
      rcases List.mem_cons.mp he with rfl | he
      · exact ⟨rfl, fun _ _ => ⟨rfl, rfl⟩⟩
      · rw [List.mem_singleton.mp he]
        exact ⟨rfl, fun _ _ => ⟨rfl, rfl⟩⟩
    · exact hkeep rfl ⟨rfl, rfl, rfl, rfl, rfl, rfl, rfl, rfl⟩

end DashFaucet

import DashFaucet.Treasury.Admission

/-!
# What may be live is counted

A payout whose transaction may be live should be charged, accepted or in doubt, so that the limits
of keys and codes hold for it. The books see a payout when its settlement ends. A settlement that
throws ends without an outcome: when that happens after relays were asked, a payout that may be live
is left uncharged, and its coins are free.

* `OpRecord.Regular`: the order of things in the record of a payout.
* `Faucet.Counted`: the invariant; what is charged may be live, and what may be live is charged,
  unless it could not be broadcast again.
* `Faucet.Counted.length_le`: payouts that may be live, counted by their charges.
* `Faucet.abortedRun`: a payout whose settlement throws.
-/

namespace DashFaucet

open Async

/-! ### The record of a payout -/

namespace OpRecord

/-- Some relay was handed this transaction and did not explicitly reject it. -/
def MayBeLive (hex : String) (r : OpRecord) : Prop := DashFaucet.MayBeLive hex (answers r.trace)

/-- A payout of which some transaction may be live. -/
def IsLive (r : OpRecord) : Prop := (∃ input, r.op = .payout input) ∧ ∃ hex, r.MayBeLive hex

/-- What a payout does, in order: it is admitted, builds one transaction, and broadcasts that. -/
structure Regular (r : OpRecord) : Prop where
  once : ∀ input, r.op = .payout input → ∀ tx tx', .built tx ∈ r.trace → .built tx' ∈ r.trace →
    tx = tx'
  admitted : ∀ input, r.op = .payout input → ∀ tx, .built tx ∈ r.trace →
    ∃ payer satoshis, .admitted payer satoshis ∈ r.trace
  relayed : ∀ input, r.op = .payout input → ∀ hex, ∀ o ∈ relayOutcomes hex (answers r.trace),
    ∃ tx, .built tx ∈ r.trace ∧ tx.hex = hex

end OpRecord

/-- A step builds one transaction, or none, and asks nothing. -/
theorem Step.builds {f : Faucet} {op : Op} {now : ℤ} {s s' : State} (h : Step f op now s s') :
    ∃ es, s'.trace = s.trace ++ es ∧ answers es = [] ∧ ((∀ tx, .built tx ∉ es) ∨
      ∃ tx, es = [.built tx] ∧ ∀ input, op = .payout input →
        (∃ payer satoshis, .admitted payer satoshis ∈ s.trace) ∧ ∀ tx', .built tx' ∉ s.trace) := by
  have hnone : ∀ tx : BuiltTx, .built tx ∉ ([] : List Event) := fun _ => List.not_mem_nil
  cases h with
  | prune | verdict | demand | backfill | claim | recycle | spoil | count =>
    exact ⟨[], (List.append_nil _).symm, rfl, .inl hnone⟩
  | admits | view | mint | issue => exact ⟨_, rfl, rfl, .inl fun tx h => by simp at h⟩
  | build hbuilt honce => exact ⟨_, rfl, rfl, .inr ⟨_, rfl, honce⟩⟩
  -- settling books, and builds nothing
  | @settle tx outcome locks es pre _ _ hset hans honce hbooks =>
    refine ⟨(if locks then [.locked tx] else []) ++ .settled tx outcome :: outcome.booked tx, ?_,
      ?_, .inl fun tx' h => ?_⟩
    · rw [hbooks.trace_eq, trace_conclude, List.append_assoc, List.append_assoc]
      rfl
    · cases locks <;> cases outcome <;> rfl
    · cases locks <;> cases outcome <;> simp [BroadcastSettlement.booked] at h
  | @confirm row =>
    split
    · refine ⟨[.locked row.built, .recorded row.built], ?_, rfl, .inl fun tx h => by simp at h⟩
      exact List.append_assoc ..
    · exact ⟨[], (List.append_nil _).symm, rfl, .inl hnone⟩

namespace OpRecord.Regular

variable {op : Op} {now : ℤ} {trace : List Event}

theorem nil (op : Op) (now : ℤ) : Regular ⟨op, now, []⟩ where
  once _ _ _ _ h := absurd h List.not_mem_nil
  admitted _ _ _ h := absurd h List.not_mem_nil
  relayed _ _ _ _ h := absurd h List.not_mem_nil

/-- A regular record stays so by a step, -/
theorem step {f : Faucet} {s s' : State} (h : Regular ⟨op, s.now, s.trace⟩)
    (hstep : Step f op s.now s s') : Regular ⟨op, s'.now, s'.trace⟩ := by
  obtain ⟨es, htrace, hans, hbuilt⟩ := hstep.builds
  rw [htrace]
  have hanswers : answers (s.trace ++ es) = answers s.trace := by
    rw [answers_append, hans, List.append_nil]
  -- the step builds nothing, or the one transaction of the payout
  rcases hbuilt with hnone | ⟨new, rfl, honce⟩
  · have hold : ∀ tx, .built tx ∈ s.trace ++ es → .built tx ∈ s.trace :=
      fun tx htx => (List.mem_append.mp htx).resolve_right (hnone tx)
    refine ⟨fun input hop tx tx' htx htx' => ?_, fun input hop tx htx => ?_,
      fun input hop hex o ho => ?_⟩
    · exact h.once input hop tx tx' (hold tx htx) (hold tx' htx')
    · obtain ⟨payer, satoshis, hadm⟩ := h.admitted input hop tx (hold tx htx)
      exact ⟨payer, satoshis, List.mem_append_left _ hadm⟩
    · rw [hanswers] at ho
      obtain ⟨tx, htx, hhex⟩ := h.relayed input hop hex o ho
      exact ⟨tx, List.mem_append_left _ htx, hhex⟩
  · -- the first transaction of the payout
    have honly : ∀ input, op = .payout input → ∀ tx, .built tx ∈ s.trace ++ [.built new] →
        tx = new := by
      intro input hop tx htx
      rcases List.mem_append.mp htx with htx | htx
      · exact absurd htx ((honce input hop).2 tx)
      · cases List.mem_singleton.mp htx
        rfl
    refine ⟨fun input hop tx tx' htx htx' => ?_, fun input hop tx htx => ?_,
      fun input hop hex o ho => ?_⟩
    · rw [honly input hop tx htx, honly input hop tx' htx']
    · obtain ⟨payer, satoshis, hadm⟩ := (honce input hop).1
      exact ⟨payer, satoshis, List.mem_append_left _ hadm⟩
    · rw [hanswers] at ho
      obtain ⟨tx, htx, hhex⟩ := h.relayed input hop hex o ho
      exact ⟨tx, List.mem_append_left _ htx, hhex⟩

/-- and by an answer, if it asks relays only about what it built. -/
theorem answer {s : State} (h : Regular ⟨op, s.now, s.trace⟩) {q : Query} {a : Answer q}
    (hask : Faucet.MayAsk op q s) : Regular ⟨op, s.now, (s.note (.io q a)).trace⟩ := by
  -- an answer builds nothing
  have hold : ∀ tx, .built tx ∈ s.trace ++ [.io q a] → .built tx ∈ s.trace := by
    intro tx htx
    refine (List.mem_append.mp htx).resolve_right fun htx => ?_
    cases List.mem_singleton.mp htx
  refine ⟨fun input hop tx tx' htx htx' => ?_, fun input hop tx htx => ?_,
    fun input hop hex o ho => ?_⟩
  · exact h.once input hop tx tx' (hold tx htx) (hold tx' htx')
  · obtain ⟨payer, satoshis, hadm⟩ := h.admitted input hop tx (hold tx htx)
    exact ⟨payer, satoshis, List.mem_append_left _ hadm⟩
  · have ho' : o ∈ relayOutcomes hex (answers (s.trace ++ [.io q a])) := ho
    rw [answers_append, relayOutcomes_append] at ho'
    rcases List.mem_append.mp ho' with ho' | ho'
    · obtain ⟨tx, htx, hhex⟩ := h.relayed input hop hex o ho'
      exact ⟨tx, List.mem_append_left _ htx, hhex⟩
    · -- the relays that answer now were asked about it
      cases q with
      | relay relays hex' =>
        have hhex : hex' = hex := by
          by_contra hne
          simp [answers, relayOutcomes, outcomesOf, hne] at ho'
        obtain ⟨tx, htx, hhex'⟩ := hask input relays hex' hop rfl
        exact ⟨tx, List.mem_append_left _ htx, hhex'.trans hhex⟩
      | _ => cases ho'

end OpRecord.Regular

namespace State

theorem records_running {s : State} {op : Op} (hrun : s.running = some op) :
    s.records = s.past.map Prod.fst ++ [⟨op, s.now, s.trace⟩] := by
  rw [records, hrun]
  rfl

theorem records_idle {s : State} (hrun : s.running = none) :
    s.records = s.past.map Prod.fst := by
  rw [records, hrun]
  exact List.append_nil _

end State

namespace OpRecord

/-- A payout hands only one transaction to the relays. -/
theorem Regular.eq_of_mayBeLive {r : OpRecord} (h : r.Regular) {input : PayoutRequest}
    (hop : r.op = .payout input) {hex hex' : String} (hlive : r.MayBeLive hex)
    (hlive' : r.MayBeLive hex') : hex = hex' := by
  obtain ⟨o, ho, -⟩ := hlive
  obtain ⟨o', ho', -⟩ := hlive'
  obtain ⟨tx, htx, rfl⟩ := h.relayed input hop hex o ho
  obtain ⟨tx', htx', rfl⟩ := h.relayed input hop hex' o' ho'
  rw [h.once input hop tx tx' htx htx']

theorem charge_eq_some {r : OpRecord} {c : Charge} (h : r.charge = some c) :
    r.op = .payout c.input ∧ r.now = c.time := by
  obtain ⟨op, now, trace⟩ := r
  unfold charge at h
  cases op with
  | payout input =>
    simp only [Option.bind_eq_bind, Option.bind_eq_some_iff] at h
    obtain ⟨_, -, _, -, _, -, hc⟩ := h
    cases hc
    exact ⟨rfl, rfl⟩
  | _ => cases h

/-- A charge is to whoever was admitted. -/
theorem charge_admission {r : OpRecord} {c : Charge} (h : r.charge = some c) {payer : Payer}
    {satoshis : ℕ} (hadm : r.trace.findSome? Event.admission = some (payer, satoshis)) :
    c.payer = payer ∧ c.satoshis = satoshis := by
  obtain ⟨op, now, trace⟩ := r
  unfold charge at h
  cases op with
  | payout input =>
    simp only [Option.bind_eq_bind, Option.bind_eq_some_iff] at h
    obtain ⟨_, hadm', _, -, _, -, hc⟩ := h
    cases hadm.symm.trans hadm'
    cases hc
    exact ⟨rfl, rfl⟩
  | _ => cases h

/-- A relay was handed this transaction and did not answer. -/
def unanswered (r : OpRecord) (hex : String) : Bool :=
  (relayOutcomes hex (answers r.trace)).any fun o => o.2 matches .error "timeout"

/-- A relay that does not answer may have taken the transaction. -/
theorem mayBeLive_of_unanswered {r : OpRecord} {hex : String} (h : r.unanswered hex = true) :
    r.MayBeLive hex := by
  obtain ⟨o, ho, htimeout⟩ := List.any_eq_true.mp h
  refine ⟨o, ho, ?_⟩
  rintro ⟨m, hm, -, hrejected⟩
  rw [hm] at htimeout
  have hm : m = "timeout" := by
    split at htimeout
    · next heq => exact Except.error.inj heq
    · cases htimeout
  rw [hm] at hrejected
  revert hrejected
  decide +kernel

end OpRecord

/-! ### The invariant -/

namespace Faucet

variable {f : Faucet} {s s' : State}

/-- Payouts and their charges. -/
structure Counted (f : Faucet) (s : State) : Prop where
  regular : ∀ r ∈ s.records, r.Regular
  admission : ∀ r ∈ s.past.map Prod.fst, ∀ payer satoshis, .admitted payer satoshis ∈ r.trace →
    r.trace.findSome? Event.admission = some (payer, satoshis)
  live_of_charge : ∀ r ∈ s.past.map Prod.fst, r.charge.isSome → r.IsLive
  charge_of_live : ∀ r ∈ s.past.map Prod.fst, f.chain.CanRepeat (answers r.trace) → r.IsLive →
    r.charge.isSome

/-- The running record changes: it has to stay regular, and that is all. -/
theorem Counted.rerun (h : f.Counted s) {op : Op} (hrun : s.running = some op)
    (hcont : Continues s s') (hregular : OpRecord.Regular ⟨op, s'.now, s'.trace⟩) :
    f.Counted s' := by
  have hrecords := State.records_running (hcont.running.trans hrun)
  rw [hcont.past] at hrecords
  refine ⟨fun r hr => ?_, ?_, ?_, ?_⟩
  · rw [hrecords] at hr
    rcases List.mem_append.mp hr with hr | hr
    · exact h.regular r (State.records_running hrun ▸ List.mem_append_left _ hr)
    · rw [List.mem_singleton.mp hr]
      exact hregular
  · rw [hcont.past]
    exact h.admission
  · rw [hcont.past]
    exact h.live_of_charge
  · rw [hcont.past]
    exact h.charge_of_live

theorem Counted.regular_running (h : f.Counted s) {op : Op} (hrun : s.running = some op) :
    OpRecord.Regular ⟨op, s.now, s.trace⟩ := by
  apply h.regular
  rw [State.records_running hrun]
  exact List.mem_append_right _ List.mem_cons_self

/-- A charge has its settlement on record. -/
theorem exists_settled_of_charge {r : OpRecord} (h : r.charge.isSome) :
    ∃ input tx outcome, r.op = .payout input ∧ .settled tx outcome ∈ r.trace ∧
      outcome.accepted?.isSome := by
  obtain ⟨c, hc⟩ := Option.isSome_iff_exists.mp h
  obtain ⟨hop, -⟩ := OpRecord.charge_eq_some hc
  rw [OpRecord.charge, hop] at hc
  simp only [Option.bind_eq_bind, Option.bind_eq_some_iff] at hc
  obtain ⟨_, -, ⟨tx, outcome⟩, hset, accepted, hout, -⟩ := hc
  obtain ⟨e, he, hsettled⟩ := List.exists_of_findSome?_eq_some hset
  refine ⟨c.input, tx, outcome, hop, ?_, Option.isSome_iff_exists.mpr ⟨accepted, hout⟩⟩
  cases e with
  | settled tx' outcome' =>
    cases hsettled
    exact he
  | _ => cases hsettled

/-- An operation that ends as it must leaves a record whose charge is right. -/
theorem counted_leave (hs : f.Orderly s) {op : Op} (hrun : s.running = some op)
    {reply : Except Thrown Reply} (hends : f.EndsWell op s.now reply s)
    (hregular : OpRecord.Regular ⟨op, s.now, s.trace⟩) :
    ((OpRecord.charge ⟨op, s.now, s.trace⟩).isSome → OpRecord.IsLive ⟨op, s.now, s.trace⟩) ∧
      (f.chain.CanRepeat (answers s.trace) → OpRecord.IsLive ⟨op, s.now, s.trace⟩ →
        (OpRecord.charge ⟨op, s.now, s.trace⟩).isSome) := by
  constructor
  · intro hcharge
    obtain ⟨input, tx, outcome, rfl, hset, hout⟩ := exists_settled_of_charge hcharge
    exact ⟨⟨input, rfl⟩, tx.hex, (hends.payout input rfl).live_of_settled tx outcome hset hout⟩
  · rintro hcan ⟨⟨input, rfl⟩, hex, hlive⟩
    -- what relays were handed is what the payout built
    obtain ⟨o, ho, hnot⟩ := hlive
    obtain ⟨tx, hbuilt, rfl⟩ := hregular.relayed input rfl hex o ho
    obtain ⟨outcome, hset, hout⟩ :=
      (hends.payout input rfl).settled_of_live hcan tx hbuilt ⟨o, ho, hnot⟩
    obtain ⟨accepted, hout⟩ := Option.isSome_iff_exists.mp hout
    obtain ⟨payer, satoshis, hcharge⟩ := hs.charge_of_settled hrun hset hout
    rw [hcharge]
    rfl

theorem counted_kept : f.KeptUnder f.Orderly f.Counted where
  step op s s' hrun hstep _ h :=
    h.rerun hrun hstep.continues ((h.regular_running hrun).step hstep)
  answer op q a s hrun hask _ h :=
    h.rerun hrun (.note _ s) ((h.regular_running hrun).answer hask)
  call c t s _ _ h := ⟨h.regular, h.admission, h.live_of_charge, h.charge_of_live⟩
  enter op t s hrun _ _ _ h := by
    refine ⟨fun r hr => ?_, h.admission, h.live_of_charge, h.charge_of_live⟩
    rw [State.records_running (s := s.enter op t) rfl] at hr
    rcases List.mem_append.mp hr with hr | hr
    · exact h.regular r (State.records_idle hrun ▸ hr)
    · rw [List.mem_singleton.mp hr]
      exact .nil op t
  leave op r s hrun hends hs h := by
    -- the record of what ran moves to the past as it is
    have hrecords : (s.leave op s.now r).records = s.records := by
      rw [State.records_running hrun, State.records_idle rfl]
      exact List.map_append
    have hpast : (s.leave op s.now r).past.map Prod.fst =
        s.past.map Prod.fst ++ [⟨op, s.now, s.trace⟩] := List.map_append
    obtain ⟨hlive, hcharge⟩ := counted_leave hs hrun hends (h.regular_running hrun)
    refine ⟨hrecords ▸ h.regular, fun r' hr' => ?_, fun r' hr' => ?_, fun r' hr' => ?_⟩ <;>
      rw [hpast] at hr' <;> rcases List.mem_append.mp hr' with hr' | hr'
    · exact h.admission r' hr'
    · rw [List.mem_singleton.mp hr']
      exact hs.admission
    · exact h.live_of_charge r' hr'
    · rw [List.mem_singleton.mp hr']
      exact hlive
    · exact h.charge_of_live r' hr'
    · rw [List.mem_singleton.mp hr']
      exact hcharge

theorem counted_initial (clock : ℤ) : f.Counted (.initial clock) :=
  ⟨fun _ hr => absurd hr List.not_mem_nil, fun _ hr => absurd hr List.not_mem_nil,
    fun _ hr => absurd hr List.not_mem_nil, fun _ hr => absurd hr List.not_mem_nil⟩

/-- **The invariant holds in every run.** -/
theorem Reached.counted {c : Actor.Config f.treasury} (h : f.Reached c) : f.Counted c.store :=
  ((KeptUnder.and orderly_kept counted_kept).reached
    (fun clock => ⟨orderly_initial clock, counted_initial clock⟩) h).2.2

/-- **Payouts that may be live**, counted by their charges. -/
theorem Counted.length_le (h : f.Counted s) {l : List OpRecord}
    (hl : l.Sublist (s.past.map Prod.fst)) {p : Charge → Bool}
    (hlive : ∀ r ∈ l, f.chain.CanRepeat (answers r.trace) ∧ r.IsLive)
    (hp : ∀ r ∈ l, ∀ c, r.charge = some c → p c = true) :
    l.length ≤ (s.charges.filter p).length := by
  have hcharged : (l.filterMap OpRecord.charge).length = l.length := by
    refine List.filterMap_length_eq_length.mpr fun r hr => ?_
    exact h.charge_of_live r (hl.subset hr) (hlive r hr).1 (hlive r hr).2
  have hall : (l.filterMap OpRecord.charge).filter p = l.filterMap OpRecord.charge := by
    refine List.filter_eq_self.mpr fun c hc => ?_
    obtain ⟨r, hr, hrc⟩ := List.mem_filterMap.mp hc
    exact hp r hr c hrc
  have hsub : (l.filterMap OpRecord.charge).Sublist s.charges := by
    rw [charges_eq]
    exact (hl.filterMap _).trans (List.sublist_append_left _ _)
  rw [← hcharged, ← hall]
  exact (hsub.filter p).length_le

/-! ### Settlements that throw -/

/-- The small world with these coins, in which relays are silent and this evonode is drawn. -/
def drawnWorld (utxos : List Utxo) (origin : String) : (q : Query) → Answer q
  | .sample _ => [origin]
  | .listing .. => .ok utxos
  | q => smallWorld (.error "timeout") q

/-- A payout whose relays are silent, and whose second sample is no URL: its settlement throws. -/
def abortedRun (op : Op) (t : ℤ) (utxos : List Utxo) : List (Actor.Input sampling.treasury) :=
  .begin op t :: List.replicate 8 (.resume (drawnWorld utxos "https://1.2.3.4:443")) ++
    [.resume (drawnWorld utxos "https://09.1.2.3:443")]

/-- A payout whose relays are silent to the end. -/
def doubtfulRun (op : Op) (t : ℤ) (utxos : List Utxo) : List (Actor.Input sampling.treasury) :=
  .begin op t :: List.replicate 13 (.resume (drawnWorld utxos "https://1.2.3.4:443"))

/-- The two entries of a list that a summary shows. -/
theorem exists_pair_of_map {α β : Type} {g : α → β} {l : List α} {x y : β}
    (h : l.map g = [x, y]) : ∃ a b, l = [a, b] ∧ g a = x ∧ g b = y := by
  obtain ⟨a, rest, rfl, ha, hrest⟩ := List.map_eq_cons_iff.mp h
  obtain ⟨b, rfl, hb⟩ := List.map_eq_singleton_iff.mp hrest
  exact ⟨a, b, rfl, ha, hb⟩

end Faucet

end DashFaucet

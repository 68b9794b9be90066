import DashFaucet.Treasury.Counted
import DashFaucet.Treasury.PublicLimits

/-!
# Once for every address and day

An accepted public payout leaves a claim, and a later request for its address and day finds it and
gets the same transaction. A public payout in doubt leaves no claim: its coins are locked, and that
is all. A later request is admitted like the first, takes other coins, and may make a second
payment. Payouts on a key or a code are charged when settled as in doubt: they have no such gap.

* `OpRecord.Confirmed`, `OpRecord.InDoubt`: what the answers say of what a payout broadcast.
* `Faucet.Once`: the invariant; after a confirmed public payout no other is admitted that day.
* `Faucet.paid_once`: when none is admitted after one in doubt, there is one payment a day.
-/

namespace DashFaucet

open Async

/-! ### What a record says -/

namespace OpRecord

/-- A public payout to an address, begun on a day. -/
def PaysPublicly (address : String) (day : ℤ) (r : OpRecord) : Prop :=
  ∃ input, r.op = .payout input ∧ input.isPublic = true ∧ input.address = address ∧
    utcDay r.now = day

/-- A configured relay took the transaction of the operation, or a configured provider knows it. -/
def Confirmed (r : OpRecord) : Prop :=
  ∃ tx, .built tx ∈ r.trace ∧ Faucet.Vouched tx (answers r.trace)

/-- A payout in doubt: what it handed to relays may be live, and nobody confirmed it. -/
def InDoubt (r : OpRecord) : Prop := (∃ hex, r.MayBeLive hex) ∧ ¬r.Confirmed

/-- A confirmed public payout is charged as accepted. -/
def Charged (r : OpRecord) : Prop :=
  ∀ input, r.op = .payout input → r.Confirmed →
    ∃ payer tx satoshis, r.charge = some ⟨payer, input, tx, satoshis, r.now, true⟩

/-- Once the first is confirmed, the second is not admitted. -/
def Excludes (r r' : OpRecord) : Prop :=
  ∀ address day, r.PaysPublicly address day → r.Confirmed → r'.PaysPublicly address day →
    ∀ payer satoshis, .admitted payer satoshis ∉ r'.trace

end OpRecord

/-! ### The invariant -/

namespace Faucet

variable {f : Faucet} {s s' : State}

/-- The record of a run, as far as public payouts go: after a confirmed one the claim turns away the
others of its address and day. -/
structure Once (s : State) : Prop where
  charged : ∀ r ∈ s.past.map Prod.fst, r.Charged
  excludes : s.records.Pairwise OpRecord.Excludes

/-- Two instants of one day are less than a day apart. -/
theorem sub_lt_of_utcDay {t t' : ℤ} (h : utcDay t = utcDay t') : t' - t < dayMs := by
  unfold utcDay dayMs at h
  unfold dayMs
  omega

/-- **The claim.** A request is not admitted on the day of a confirmed public payout to its address.
-/
theorem Once.not_paysPublicly (h : Once s)
    (hbooks : PublicBooks f.cfg s.now s.ledger s.publicCharges)
    {input : PayoutRequest} {payer : Payer} {satoshis : ℕ}
    (hadm : admitPayout f.cfg s input s.now = .ok (payer, satoshis)) {r : OpRecord}
    (hr : r ∈ s.past.map Prod.fst) {address : String} {day : ℤ} (hpays : r.PaysPublicly address day)
    (hconf : r.Confirmed) (trace : List Event) :
    ¬OpRecord.PaysPublicly address day ⟨.payout input, s.now, trace⟩ := by
  rintro ⟨input', hop, hpublic, haddress, hday⟩
  cases hop
  obtain ⟨input₀, hop₀, hpublic₀, haddress₀, hday₀⟩ := hpays
  obtain ⟨payer₀, tx, satoshis₀, hcharge⟩ := h.charged r hr input₀ hop₀ hconf
  have hpayout : (⟨input₀, r.now, satoshis₀⟩ : PublicPayout) ∈ s.publicCharges := by
    refine List.mem_filterMap.mpr ⟨⟨payer₀, input₀, tx, satoshis₀, r.now, true⟩, ?_, ?_⟩
    · rw [charges_eq]
      exact List.mem_append_left _ (List.mem_filterMap.mpr ⟨r, hr, hcharge⟩)
    · simp [Charge.publicPayout, hpublic₀]
  have hsame : utcDay r.now = utcDay s.now := hday₀.trans hday.symm
  -- on one day, so the claim is not pruned yet
  have hnew : s.now - 7 * dayMs ≤ r.now := by
    have hlt := sub_lt_of_utcDay hsame
    unfold dayMs at hlt ⊢
    omega
  -- it is still there, and admission has looked for it
  obtain ⟨row, hrow, hrecipient, hrowday, -⟩ := hbooks.claims _ hpayout hnew
  obtain ⟨hadm, -, -⟩ := admit_public hpublic hadm
  obtain ⟨hnone, -, -, -⟩ := admitPublic_ok hadm
  apply Table.find?_eq_none.mp hnone row hrow
  show (row.recipient, row.day) = (input.address, utcDay s.now)
  rw [hrecipient, hrowday, haddress₀, haddress, hsame]

/-- Nothing is excluded by what has not been admitted. -/
theorem excludes_of_unadmitted {r r' : OpRecord}
    (h : ∀ payer satoshis, .admitted payer satoshis ∉ r'.trace) : r.Excludes r' :=
  fun _ _ _ _ _ => h

/-- A record that admits nobody more is excluded from as before. -/
theorem excludes_append {r : OpRecord} {op : Op} {now : ℤ} {trace es : List Event}
    (h : r.Excludes ⟨op, now, trace⟩) (hes : ∀ e ∈ es, e.admission = none) :
    r.Excludes ⟨op, now, trace ++ es⟩ := by
  intro address day hpays hconf hpays' payer satoshis hadm
  rcases List.mem_append.mp hadm with hadm | hadm
  · exact h address day hpays hconf hpays' payer satoshis hadm
  · cases hes _ hadm

/-- The running record changes: what is to be shown of it. -/
theorem Once.rerun (h : Once s) {op : Op} (hrun : s.running = some op) (hcont : Continues s s')
    (hexcludes : ∀ r ∈ s.past.map Prod.fst, r.Excludes ⟨op, s.now, s.trace⟩ →
      r.Excludes ⟨op, s'.now, s'.trace⟩) : Once s' := by
  have hrecords := State.records_running hrun
  have hrecords' := State.records_running (hcont.running.trans hrun)
  rw [hcont.past] at hrecords'
  refine ⟨?_, ?_⟩
  · rw [hcont.past]
    exact h.charged
  · have hpairs := h.excludes
    rw [hrecords, List.pairwise_append] at hpairs
    rw [hrecords', List.pairwise_append]
    refine ⟨hpairs.1, List.pairwise_singleton _ _, fun r hr r' hr' => ?_⟩
    rw [List.mem_singleton.mp hr']
    exact hexcludes r hr (hpairs.2.2 r hr _ List.mem_cons_self)

theorem once_kept : f.KeptUnder
    (fun s => f.Orderly s ∧ PublicBooks f.cfg s.now s.ledger s.publicCharges) Once where
  step op s s' hrun hstep hs h := by
    have hcont := hstep.continues
    refine h.rerun hrun hcont fun r hr hexcl => ?_
    rw [hcont.now]
    cases hstep.effect with
    | prune hstart heq =>
      subst heq
      exact hexcl
    | @admits input payer satoshis hop hstart hadm heq =>
      -- whoever was confirmed before keeps this one out
      subst hop
      intro address day hpays hconf hpays'
      exact absurd hpays' (h.not_paysPublicly hs.2 hadm hr hpays hconf _)
    | settle _ _ _ _ htrace haside | reject _ _ _ htrace haside =>
      -- nothing that comes with a settlement admits anybody
      rw [htrace, List.append_assoc]
      refine excludes_append hexcl fun e he => ?_
      rcases List.mem_append.mp he with he | he
      · exact (haside e (List.mem_append_left _ he)).admission
      · rcases List.mem_cons.mp he with rfl | he
        · rfl
        · exact (haside e (List.mem_append_right _ he)).admission
    | aside htrace haside hbooks =>
      rw [htrace]
      exact excludes_append hexcl fun e he => (haside e he).1
  answer op q a s hrun _ _ h := by
    have hanswer : Continues s (s.note (.io q a)) := .note _ s
    refine h.rerun hrun hanswer fun r _ hexcl => ?_
    refine excludes_append hexcl fun e he => ?_
    rw [List.mem_singleton.mp he]
    rfl
  call c t s _ _ h := ⟨h.charged, h.excludes⟩
  enter op t s hrun _ _ _ h := by
    have hrecords := State.records_idle hrun
    have hrecords' : (s.enter op t).records = s.past.map Prod.fst ++ [⟨op, t, []⟩] :=
      State.records_running rfl
    refine ⟨h.charged, ?_⟩
    rw [hrecords', List.pairwise_append]
    refine ⟨hrecords ▸ h.excludes, List.pairwise_singleton _ _, fun r _ r' hr' => ?_⟩
    -- an operation that has only begun admitted nobody
    rw [List.mem_singleton.mp hr']
    exact excludes_of_unadmitted fun _ _ => List.not_mem_nil
  leave op r s hrun hends hs h := by
    -- the record of what ran moves to the past as it is
    have hrecords : (s.leave op s.now r).records = s.records := by
      rw [State.records_running hrun, State.records_idle rfl]
      exact List.map_append
    refine ⟨fun r' hr' => ?_, hrecords ▸ h.excludes⟩
    have hr' : r' ∈ s.past.map Prod.fst ++ [⟨op, s.now, s.trace⟩] := by
      rw [← State.records_running hrun, ← hrecords, State.records_idle rfl]
      exact hr'
    rcases List.mem_append.mp hr' with hr' | hr'
    · exact h.charged r' hr'
    · -- the network vouched for it, so it was settled as accepted
      rw [List.mem_singleton.mp hr']
      rintro input hop ⟨tx, hbuilt, hvouched⟩
      cases hop
      obtain ⟨accepted, hset⟩ := (hends.payout input rfl).settled_of_vouched tx hbuilt hvouched
      obtain ⟨payer, satoshis, hcharge⟩ := hs.1.charge_of_settled hrun hset rfl
      exact ⟨payer, tx, satoshis, hcharge⟩

theorem once_initial (clock : ℤ) : Once (.initial clock) :=
  ⟨fun _ hr => absurd hr List.not_mem_nil, .nil⟩

/-- **The invariant holds in every run.** -/
theorem Reached.once {c : Actor.Config f.treasury} (h : f.Reached c) : Once c.store := by
  have hbooks : f.Kept fun s => f.Orderly s ∧ PublicBooks f.cfg s.now s.ledger s.publicCharges :=
    KeptUnder.and orderly_kept publicBooks_kept.kept
  have hkept := KeptUnder.and hbooks once_kept
  exact (hkept.reached (fun clock =>
    ⟨⟨orderly_initial clock, publicBooks_initial clock⟩, once_initial clock⟩) h).2.2

/-! ### One payment a day -/

/-- Of what a run handed to the relays for an address on a day, at most one transaction may be
live. -/
def PaidOnce (address : String) (day : ℤ) (s : State) : Prop :=
  ∀ r ∈ s.records, ∀ r' ∈ s.records, r.PaysPublicly address day → r'.PaysPublicly address day →
    ∀ hex hex', r.MayBeLive hex → r'.MayBeLive hex' → hex = hex'

/-- After a public payout in doubt, no other is admitted for the address that day. -/
def NoneAfterDoubt (address : String) (day : ℤ) (s : State) : Prop :=
  s.records.Pairwise fun r r' => r.PaysPublicly address day → r.InDoubt →
    r'.PaysPublicly address day → ∀ payer satoshis, .admitted payer satoshis ∉ r'.trace

/-- **An address is paid once a day** unless a payout in doubt is followed by another. In every run
in which no public request for an address and a day is admitted after one in doubt, at most one
transaction for them may be live. -/
theorem paid_once {c : Actor.Config f.treasury} (h : f.Reached c) {address : String} {day : ℤ}
    (hnone : NoneAfterDoubt address day c.store) : PaidOnce address day c.store := by
  have hregular := h.counted.regular
  -- of two payouts the later one was not admitted, and handed nothing to the relays
  have hlater : c.store.records.Pairwise fun r r' => r.PaysPublicly address day →
      r'.PaysPublicly address day → ∀ hex hex', r.MayBeLive hex → r'.MayBeLive hex' →
        hex = hex' := by
    refine (hnone.and h.once.excludes).imp_of_mem ?_
    rintro r r' - hr' ⟨hdoubt, hexcl⟩ hpays hpays' hex hex' hlive ⟨o, ho, -⟩
    obtain ⟨input, hop, -⟩ := id hpays'
    obtain ⟨tx, htx, -⟩ := (hregular r' hr').relayed input hop hex' o ho
    obtain ⟨payer, satoshis, hadm⟩ := (hregular r' hr').admitted input hop tx htx
    by_cases hconf : r.Confirmed
    · exact absurd hadm (hexcl address day hpays hconf hpays' payer satoshis)
    · exact absurd hadm (hdoubt hpays ⟨⟨hex, hlive⟩, hconf⟩ hpays' payer satoshis)
  refine List.Pairwise.forall_of_forall_of_flip (fun r hr hpays _ hex hex' hlive hlive' => ?_)
    hlater (hlater.imp fun hsame hpays hpays' hex hex' hlive hlive' => ?_)
  · obtain ⟨input, hop, -⟩ := hpays
    exact (hregular r hr).eq_of_mayBeLive hop hlive hlive'
  · exact (hsame hpays' hpays hex' hex hlive' hlive).symm

/-- A request, and the same a second later. -/
def smallRequest : PayoutRequest :=
  { address := "Xalice", pubKeyHash := "alice", ip := "192.0.2.1" }

/-- An accepted payout, and the request that finds its claim. -/
theorem paid_once_replayed : ∃ c, small.Reached c ∧ c.store.records.length = 2 ∧
    PaidOnce "Xalice" 0 c.store := by
  have hrun : (smallAfter (smallRun (.payout smallRequest) 1000 5 (.ok "sent") ++
      smallRun (.payout smallRequest) 2000 0 (.ok "sent"))).map (fun c =>
        c.store.records.map fun r => r.trace.any fun e => e.admission.isSome) =
          some [true, false] := by decide +kernel
  obtain ⟨c, hc, hadmissions⟩ := Option.map_eq_some_iff.mp hrun
  have hreached := smallAfter_reached hc
  obtain ⟨r, r', hrecords, -, hnobody⟩ := exists_pair_of_map hadmissions
  refine ⟨c, hreached, by rw [hrecords]; rfl, paid_once hreached ?_⟩
  -- the second request is answered from the claim
  rw [NoneAfterDoubt, hrecords]
  exact List.pairwise_pair.mpr fun _ _ _ _ _ hadm => List.any_eq_false.mp hnobody _ hadm rfl

/-- **A second payment.** All relays are silent, twice; the coin of the first attempt is locked, and
the second attempt hands them another transaction. -/
theorem paid_twice : ∃ c, small.Reached c ∧ ¬PaidOnce "Xalice" 0 c.store := by
  have hrun : (smallAfter (smallRun (.payout smallRequest) 1000 9 (.error "timeout") ++
      smallRun (.payout smallRequest) 2000 9 (.error "timeout"))).map (fun c =>
        c.store.records.map fun r => (r.op, r.now, ["a", "b"].map r.unanswered)) =
        some [(.payout smallRequest, 1000, [true, false]),
          (.payout smallRequest, 2000, [false, true])] := by decide +kernel
  obtain ⟨c, hc, hrecords⟩ := Option.map_eq_some_iff.mp hrun
  obtain ⟨r, r', hl, hr, hr'⟩ := exists_pair_of_map hrecords
  simp only [List.map_cons, List.map_nil, Prod.mk.injEq, List.cons.injEq] at hr hr'
  obtain ⟨hop, hnow, hlive, -, -⟩ := hr
  obtain ⟨hop', hnow', -, hlive', -⟩ := hr'
  refine ⟨c, smallAfter_reached hc, fun hpaid => ?_⟩
  -- both are of one address and day, and both may be live
  have hpays : r.PaysPublicly "Xalice" 0 := ⟨smallRequest, hop, rfl, rfl, by rw [hnow]; rfl⟩
  have hpays' : r'.PaysPublicly "Xalice" 0 := ⟨smallRequest, hop', rfl, rfl, by rw [hnow']; rfl⟩
  have hmem : r ∈ c.store.records ∧ r' ∈ c.store.records := by
    rw [hl]
    simp
  have hsame := hpaid r hmem.1 r' hmem.2 hpays hpays' "a" "b"
    (OpRecord.mayBeLive_of_unanswered hlive) (OpRecord.mayBeLive_of_unanswered hlive')
  exact absurd hsame (by decide)

end Faucet

end DashFaucet

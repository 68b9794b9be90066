import DashFaucet.Treasury.Counted

/-!
# Redemption codes

The redemptions on the books are those of the record that were settled, as accepted or in doubt. A
code is checked long before it is charged, and administration may edit it in between; what it cannot
edit is the number of redemptions, and only the one payout under way can add to it. A settlement
that throws once relays were asked leaves a redemption that may be live and is not counted.

* `Faucet.CodeBooks`: the invariant about `code_redemptions` and `codes`.
* `Faucet.code_redemptions_exact`: the column of a code is the number of its redemptions, an
  address redeems a code once, no code is redeemed more often than it ever allowed, and what is
  counted is what may be live, if its settlement could draw relays again.
* `Faucet.code_twice`: where it could not, a code for one is redeemed by two.
-/

namespace DashFaucet

open Async

/-- The row of `code_redemptions` that a charge of a code leaves. -/
def Charge.redemption (c : Charge) : Option CodeRedemption :=
  match c.payer with
  | .code row => some ⟨row.id, c.input.address, c.tx.txid, c.satoshis, c.time⟩
  | _ => none

/-- The row of `code_redemptions` that a payout leaves. -/
def OpRecord.redemption (r : OpRecord) : Option CodeRedemption := r.charge.bind Charge.redemption

/-- The redemptions of a code. -/
def State.redemptionsOf (id : String) (s : State) : List CodeRedemption :=
  s.ledger.codeRedemptions.filter fun r => r.codeId = id

namespace Faucet

variable {f : Faucet}

/-- The books of the codes agree with the record. -/
structure CodeBooks (s : State) : Prop where
  rows : s.ledger.codeRedemptions = s.charges.filterMap Charge.redemption
  known : ∀ r ∈ s.ledger.codeRedemptions, ∃ row ∈ s.admin.codes.rows, row.id = r.codeId
  count : ∀ row ∈ s.admin.codes.rows, row.redemptions = (s.redemptionsOf row.id).length
  distinct : (s.ledger.codeRedemptions.map fun r => (r.codeId, r.address)).Nodup
  limited : ∀ row ∈ s.admin.codes.rows, ∃ v ∈ s.codeVersions, v.id = row.id ∧
    row.redemptions ≤ v.maxRedemptions

/-- What is equal in the tables and in the redemptions on record is equal for the codes. -/
theorem CodeBooks.of_eq {s s' : State} (h : CodeBooks s)
    (hrows : s'.ledger.codeRedemptions = s.ledger.codeRedemptions)
    (hcharges : s'.charges.filterMap Charge.redemption = s.charges.filterMap Charge.redemption)
    (hcodes : s'.admin.codes = s.admin.codes) (hversions : s'.codeVersions = s.codeVersions) :
    CodeBooks s' := by
  refine ⟨?_, ?_, fun row hrow => ?_, ?_, ?_⟩
  · rw [hrows, hcharges]
    exact h.rows
  · rw [hrows, hcodes]
    exact h.known
  · rw [hcodes] at hrow
    rw [State.redemptionsOf, hrows]
    exact h.count row hrow
  · rw [hrows]
    exact h.distinct
  · rw [hcodes, hversions]
    exact h.limited

/-- The bookkeeping of a charge of a code. -/
theorem charge_code {s : State} {c : Charge} {row : CodeRow} (hpayer : c.payer = .code row) :
    s.charge c = s.recordRedemption row c.input.address c.tx.txid c.satoshis c.time := by
  obtain ⟨payer, input, tx, satoshis, time, accepted⟩ := c
  cases hpayer
  cases accepted <;> rfl

/-- Other charges leave the codes alone. -/
theorem charge_codeless {s : State} {c : Charge} (hpayer : ∀ row, c.payer ≠ .code row) :
    (s.charge c).ledger.codeRedemptions = s.ledger.codeRedemptions ∧
      (s.charge c).admin.codes = s.admin.codes ∧
      (s.charge c).codeVersions = s.codeVersions := by
  obtain ⟨payer, input, tx, satoshis, time, accepted⟩ := c
  cases payer with
  | code row => exact absurd rfl (hpayer row)
  | apiKey row => cases accepted <;> exact ⟨rfl, rfl, rfl⟩
  | anyone => cases accepted <;> exact ⟨rfl, rfl, rfl⟩

/-- A redemption adds one row, to its own code. -/
theorem length_redemptionsOf_append (id : String) (rs : List CodeRedemption) (r : CodeRedemption) :
    ((rs ++ [r]).filter fun r => r.codeId = id).length =
      (rs.filter fun r => r.codeId = id).length + if r.codeId = id then 1 else 0 := by
  rw [List.filter_append, List.length_append]
  by_cases hid : r.codeId = id <;> simp [hid]

/-- Charging a certified code keeps the books of the codes. -/
theorem CodeBooks.charge {s s' : State} (h : CodeBooks s) {c : Charge} {row₀ : CodeRow}
    (hpayer : c.payer = .code row₀) (hcert : f.Certificate s c.input (.code row₀) c.satoshis)
    (hbooks : SameBooks (s.charge c) s') (hcharges : s'.charges = s.charges ++ [c]) :
    CodeBooks s' := by
  obtain ⟨-, -, -, ⟨row', hrow', hid, hred⟩, hroom, ⟨v, hv, hvid, hmax⟩, hfresh⟩ := hcert
  have hcharge := charge_code (s := s) hpayer
  have hrows : s'.ledger.codeRedemptions = s.ledger.codeRedemptions ++
      [⟨row₀.id, c.input.address, c.tx.txid, c.satoshis, c.time⟩] := by
    rw [hbooks.codeRedemptions, hcharge]
    rfl
  have hversions : s'.codeVersions = s.codeVersions := by
    rw [hbooks.codeVersions, hcharge]
    rfl
  -- the one code that changes is the charged one
  have hcodes : ∀ row, row ∈ s'.admin.codes.rows ↔ ∃ r ∈ s.admin.codes.rows,
      (if r.id = row₀.id then { r with redemptions := r.redemptions + 1 } else r) = row := by
    intro row
    rw [hbooks.codes, hcharge]
    simp [State.recordRedemption, State.withAdmin, State.withLedger, Table.mem_update]
  refine ⟨?_, fun r hr => ?_, fun row hrow => ?_, ?_, fun row hrow => ?_⟩
  · rw [hrows, hcharges, List.filterMap_append, h.rows]
    simp [Charge.redemption, hpayer]
  · have hlisted : ∃ row ∈ s.admin.codes.rows, row.id = r.codeId := by
      rw [hrows] at hr
      rcases List.mem_append.mp hr with hr | hr
      · exact h.known r hr
      · rw [List.mem_singleton.mp hr]
        exact ⟨row', hrow', hid⟩
    obtain ⟨row, hrow, heq⟩ := hlisted
    refine ⟨_, (hcodes _).mpr ⟨row, hrow, rfl⟩, ?_⟩
    split <;> exact heq
  · obtain ⟨r, hr, rfl⟩ := (hcodes row).mp hrow
    have hcount := h.count r hr
    rw [State.redemptionsOf, hrows, length_redemptionsOf_append]
    by_cases heq : r.id = row₀.id
    · rw [if_pos heq, if_pos heq.symm, hcount]
      rfl
    · rw [if_neg heq, if_neg (Ne.symm heq), hcount]
      rfl
  · rw [hrows, List.map_append, List.nodup_append]
    refine ⟨h.distinct, List.nodup_singleton _, fun a ha b hb => ?_⟩
    obtain ⟨r, hr, rfl⟩ := List.mem_map.mp ha
    rw [List.map_singleton, List.mem_singleton] at hb
    rw [hb]
    -- the address had not redeemed the code, or it would not have been admitted
    intro heq
    exact hfresh r hr ⟨congrArg Prod.fst heq, congrArg Prod.snd heq⟩
  · obtain ⟨r, hr, rfl⟩ := (hcodes row).mp hrow
    rw [hversions]
    by_cases heq : r.id = row₀.id
    · -- the limit it was checked against was its own
      obtain rfl : row' = r := Table.eq_of_key hrow' hr (hid.trans heq.symm)
      rw [if_pos heq]
      refine ⟨v, hv, hvid.trans heq.symm, ?_⟩
      change row'.redemptions + 1 ≤ v.maxRedemptions
      omega
    · rw [if_neg heq]
      exact h.limited r hr

theorem codeBooks_kept : f.KeptByBooks CodeBooks where
  same s s' hbooks hcharges _ h :=
    h.of_eq hbooks.codeRedemptions (by rw [hcharges]) hbooks.codes hbooks.codeVersions
  prune s h := h.of_eq rfl rfl rfl rfl
  charge s s' c _ hcert _ hbooks _ hcharges h := by
    -- a charge to somebody else leaves the redemptions alone
    by_cases hcode : ∃ row, c.payer = .code row
    · obtain ⟨row₀, hpayer⟩ := hcode
      rw [hpayer] at hcert
      exact h.charge hpayer hcert hbooks hcharges
    · have hnone : ∀ row, c.payer ≠ .code row := fun row hp => hcode ⟨row, hp⟩
      obtain ⟨hrows, hcodes, hversions⟩ := charge_codeless (s := s) hnone
      refine h.of_eq (hbooks.codeRedemptions.trans hrows) ?_ (hbooks.codes.trans hcodes)
        (hbooks.codeVersions.trans hversions)
      have hc : c.redemption = none := by
        unfold Charge.redemption
        split
        · next row hp => exact absurd hp (hnone row)
        · rfl
      rw [hcharges, List.filterMap_append]
      simp [hc]
  call c t s h := by
    have hadm := Call.administered f.cfg t s.admin c
    refine ⟨h.rows, fun r hr => ?_, fun row hrow => ?_, h.distinct, fun row hrow => ?_⟩
    · obtain ⟨row, hrow, hid⟩ := h.known r hr
      obtain ⟨row', hrow', hid', -⟩ := hadm.codes row hrow
      exact ⟨row', hrow', hid'.trans hid⟩
    -- an old row kept its count, and nobody redeemed it meanwhile
    · rcases hadm.newCodes row hrow with ⟨row₀, hrow₀, hid, hred⟩ | ⟨hred, hfresh⟩
      · rw [hred, hid]
        exact h.count row₀ hrow₀
      · -- nobody has redeemed a new code
        have hnil : (s.call f.cfg c t).redemptionsOf row.id = [] := by
          refine List.filter_eq_nil_iff.mpr fun r hr => ?_
          obtain ⟨row₀, hrow₀, hid⟩ := h.known r hr
          have hne := hfresh row₀ hrow₀
          rw [hid] at hne
          simpa using hne
        rw [hred, hnil]
        rfl
    -- the limit that counts is one the code once had
    · rcases hadm.newCodes row hrow with ⟨row₀, hrow₀, hid, hred⟩ | ⟨hred, -⟩
      · obtain ⟨v, hv, hvid, hle⟩ := h.limited row₀ hrow₀
        rw [hred, hid]
        exact ⟨v, List.mem_append_left _ hv, hvid, hle⟩
      · rw [hred]
        exact ⟨row, List.mem_append_right _ hrow, rfl, Nat.zero_le _⟩

/-- A charge of a payout with a code is a redemption. -/
theorem isSome_redemption {r : OpRecord} {row : CodeRow} {satoshis : ℕ}
    (hadm : r.trace.findSome? Event.admission = some (.code row, satoshis)) :
    r.redemption.isSome = r.charge.isSome := by
  cases hc : r.charge with
  | none =>
    rw [OpRecord.redemption, hc]
    rfl
  | some ch =>
    have hpayer : ch.payer = .code row := (OpRecord.charge_admission hc hadm).1
    rw [OpRecord.redemption, hc, Option.bind_some, Charge.redemption, hpayer]
    rfl

/-- **Redemptions are exact** as long as settlements can draw relays again. In every state a run
reaches, however administration created and edited codes between the awaits of the payouts: the
redemptions are those of the payouts that were settled as accepted or in doubt, in order; the column
of a code is their number; no address redeemed a code twice; and no code was redeemed more often
than the largest limit it ever had. A payout with a code that leaves a redemption has a transaction
that may be live, so a rejected one leaves none; and every payout with a code that may be live
leaves one, if its broadcast could be repeated. -/
theorem code_redemptions_exact {c : Actor.Config f.treasury} (hc : f.Reached c) :
    c.store.ledger.codeRedemptions = c.store.charges.filterMap Charge.redemption ∧
    (∀ row ∈ c.store.admin.codes.rows,
      row.redemptions = (c.store.redemptionsOf row.id).length ∧
      ∃ v ∈ c.store.codeVersions, v.id = row.id ∧ row.redemptions ≤ v.maxRedemptions) ∧
    (c.store.ledger.codeRedemptions.map fun r => (r.codeId, r.address)).Nodup ∧
    ∀ r ∈ c.store.past.map Prod.fst, ∀ row satoshis, .admitted (.code row) satoshis ∈ r.trace →
      (r.redemption.isSome → r.IsLive) ∧
      (f.chain.CanRepeat (answers r.trace) → r.IsLive → r.redemption.isSome) := by
  obtain ⟨-, -, h⟩ := codeBooks_kept.reached (fun clock => ⟨rfl, fun _ hr => (by cases hr),
    fun _ hrow => (by cases hrow), List.nodup_nil, fun _ hrow => (by cases hrow)⟩) hc
  refine ⟨h.rows, fun row hrow => ⟨h.count row hrow, h.limited row hrow⟩, h.distinct, ?_⟩
  intro r hr row satoshis hadm
  have hcounted := hc.counted
  rw [isSome_redemption (hcounted.admission r hr _ _ hadm)]
  exact ⟨hcounted.live_of_charge r hr, hcounted.charge_of_live r hr⟩

/-- A code for two, redeemed once while its limit was cut to one. -/
theorem code_redemptions_exact_small : ∃ c, small.Reached c ∧
    c.store.admin.codes.rows.map (fun row => (row.maxRedemptions, row.redemptions)) = [(1, 1)] ∧
    ∀ row ∈ c.store.admin.codes.rows, row.redemptions = (c.store.redemptionsOf row.id).length := by
  have hrun : (smallAfter (.call (.createCodes ⟨.event, ["DASH"], "meetup", coin, 2, none, "admin"⟩
        "batch" ["id"]) 0 ::
      smallRun (.payout { address := "Xalice", pubKeyHash := "alice", ip := "192.0.2.1"
                          codeKey := some "DASH" }) 1000 3 (.ok "sent") ++
      .call (.updateCode "id" { maxRedemptions := some 1 } "admin") 2000 ::
      List.replicate 2 (.resume (smallWorld (.ok "sent"))))).map
      (fun c => c.store.admin.codes.rows.map fun row => (row.maxRedemptions, row.redemptions)) =
        some [(1, 1)] := by
    decide +kernel
  obtain ⟨c, hc, hrows⟩ := Option.map_eq_some_iff.mp hrun
  have hreached := smallAfter_reached hc
  exact ⟨c, hreached, hrows, fun row hrow =>
    ((code_redemptions_exact hreached).2.1 row hrow).1⟩

/-- A payout with the code. -/
def codeRequest (address : String) : PayoutRequest :=
  { address, pubKeyHash := "someone", ip := "192.0.2.1", codeKey := some "DASH" }

/-- **A code beyond its limit.** A code for one is redeemed by two addresses. The relays are silent
and the settlement of the first payout throws where it would broadcast again: it may be live and is
not counted, so the code is left for the second. -/
theorem code_twice : ∃ c, sampling.Reached c ∧
    c.store.admin.codes.rows.map (fun row => (row.maxRedemptions, row.redemptions)) = [(1, 1)] ∧
    ∃ r r', [r, r'].Sublist (c.store.past.map Prod.fst) ∧
      r.op = .payout (codeRequest "Xalice") ∧ r'.op = .payout (codeRequest "Xbob") ∧
      r.MayBeLive "a" ∧ r.redemption.isNone ∧ r'.MayBeLive "b" ∧ r'.redemption.isSome := by
  have hrun : (samplingAfter (
      .call (.createCodes ⟨.event, ["DASH"], "meetup", coin, 1, none, "admin"⟩ "batch" ["id"]) 0 ::
      (abortedRun (.payout (codeRequest "Xalice")) 1000 [collateralCoin "a"] ++
        doubtfulRun (.payout (codeRequest "Xbob")) 2000 [collateralCoin "b"]))).map (fun c =>
      (c.store.admin.codes.rows.map (fun row => (row.maxRedemptions, row.redemptions)),
        c.store.past.map fun p =>
          (p.1.op, p.1.unanswered "a", p.1.unanswered "b", p.1.redemption.isSome))) =
      some ([(1, 1)], [(.payout (codeRequest "Xalice"), true, false, false),
        (.payout (codeRequest "Xbob"), false, true, true)]) := by
    decide +kernel
  obtain ⟨c, hc, hsummary⟩ := Option.map_eq_some_iff.mp hrun
  obtain ⟨hcodes, hpast⟩ := Prod.mk.inj hsummary
  obtain ⟨p, p', hl, hp, hp'⟩ := exists_pair_of_map hpast
  simp only [Prod.mk.injEq] at hp hp'
  obtain ⟨hop, hlive, -, hnone⟩ := hp
  obtain ⟨hop', -, hlive', hsome⟩ := hp'
  refine ⟨c, samplingAfter_reached hc, hcodes, p.1, p'.1, ?_, hop, hop',
    OpRecord.mayBeLive_of_unanswered hlive, ?_, OpRecord.mayBeLive_of_unanswered hlive', hsome⟩
  · rw [hl]
    exact List.Sublist.refl _
  · rw [← Option.not_isSome, hnone]
    rfl

end Faucet

end DashFaucet

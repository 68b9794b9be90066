import DashFaucet.Treasury.Meets.View

/-!
# Payouts keep to the contract

A payout that got past its checks looks for coins, builds one transaction and settles it. The
record tells how far it is (`Preparing`), and what its answer says about the record
(`Faucet.PayoutEnds`) is shown exit by exit.

* `Faucet.payout_meets`.
-/

namespace DashFaucet

open Async Relation

/-- An admitted payout before it settles anything: it has built `built?` so far, and asked only
for reading. -/
structure Preparing (payer : Payer) (satoshis : ℕ) (built? : Option BuiltTx) (s : State) :
    Prop where
  admitted : .admitted payer satoshis ∈ s.trace
  built : ∀ tx, .built tx ∈ s.trace ↔ built? = some tx
  unsettled : Unsettled s.trace
  reads : ∀ e ∈ answers s.trace, Reads e.1

theorem mem_answers {e : Answered} {es : List Event} : e ∈ answers es ↔ e.event ∈ es := by
  simp only [answers, List.mem_filterMap]
  constructor
  · rintro ⟨x, hx, h⟩
    cases x with
    | io q a =>
      cases h
      exact hx
    | _ => cases h
  · exact fun h => ⟨_, h, rfl⟩

namespace Preparing

variable {payer : Payer} {satoshis : ℕ} {built? : Option BuiltTx} {s t : State}

/-- Looking around leaves a payout where it is. -/
theorem looks (h : Preparing payer satoshis built? s) (hst : Looks s t) :
    Preparing payer satoshis built? t where
  admitted := hst.mem h.admitted
  built tx := (h.built tx).symm.trans ⟨hst.mem, fun he => hst.of_mem he id⟩ |>.symm
  unsettled := hst.unsettled h.unsettled
  reads e he := by
    by_contra hnot
    exact hnot (h.reads e (mem_answers.mpr (hst.of_mem (mem_answers.mp he) hnot)))

theorem noteBuilt {tx : BuiltTx} (h : Preparing payer satoshis none s) :
    Preparing payer satoshis (some tx) (s.note (.built tx)) where
  admitted := List.mem_append_left _ h.admitted
  built tx' := by
    have hnone := h.built tx'
    change Event.built tx' ∈ s.trace ++ [.built tx] ↔ _
    rw [List.mem_append, hnone]
    simp [eq_comm]
  unsettled tx' outcome he := by
    rcases List.mem_append.mp he with he | he
    · exact h.unsettled tx' outcome he
    · simp at he
  reads e he := by
    rcases List.mem_append.mp (mem_answers.mp he) with he | he
    · exact h.reads e (mem_answers.mpr he)
    · obtain ⟨q, a⟩ := e
      simp [Answered.event] at he

end Preparing

namespace Faucet

variable {f : Faucet} {input : PayoutRequest} {payer : Payer} {satoshis : ℕ} {now : ℤ}

/-! ### Answers and events -/

/-- A payout that settled nothing and was not vouched for ends well unless it reports a payment, or
was thrown out of a broadcast that could be repeated. -/
theorem payoutEnds_unsettled {reply : Except Thrown Reply} {trace : List Event}
    (hun : Unsettled trace)
    (hvouched : ∀ tx, .built tx ∈ trace → ¬Vouched tx (answers trace))
    (hlive : f.chain.CanRepeat (answers trace) → ∀ tx, .built tx ∈ trace →
      ¬MayBeLive tx.hex (answers trace))
    (hreply : ∀ paid, reply = .ok (.payout (.ok paid)) → paid.replay = false →
      paid.dryRun = true) : f.PayoutEnds input reply trace where
  settled_of_paid paid hr hreplay hdry := by
    rw [hreply paid hr hreplay] at hdry
    cases hdry
  paid_of_settled tx accepted he := absurd he (hun tx _)
  settled_of_vouched tx hbuilt hv := absurd hv (hvouched tx hbuilt)
  live_of_settled tx outcome he := absurd he (hun tx outcome)
  settled_of_live hcan tx hbuilt hlive' := absurd hlive' (hlive hcan tx hbuilt)

theorem ends_of_preparing {built? : Option BuiltTx} {s : State}
    (h : Preparing payer satoshis built? s) {reply : Except Thrown Reply}
    (hreply : ∀ paid, reply = .ok (.payout (.ok paid)) → paid.replay = false →
      paid.dryRun = true) : f.PayoutEnds input reply s.trace :=
  payoutEnds_unsettled h.unsettled (fun _ _ => not_vouched_of_reads h.reads)
    (fun _ _ _ => not_mayBeLive_of_reads h.reads) hreply

/-- How the verification of a payout ends. -/
def EndsPayout (f : Faucet) (input : PayoutRequest) (now : ℤ) (r : Except Thrown PayoutResult)
    (s₀ s : State) : Prop :=
  (f.contract (.payout input) now).guar s₀ s ∧ f.PayoutEnds input (r.map Reply.payout) s.trace

theorem endsPayout_of_preparing {built? : Option BuiltTx} {s₀ s : State}
    (h : Preparing payer satoshis built? s) (hg : (f.contract (.payout input) now).guar s₀ s)
    {r : Except Thrown PayoutResult}
    (hr : ∀ paid, r = .ok (.ok paid) → paid.replay = false → paid.dryRun = true) :
    f.EndsPayout input now r s₀ s := by
  refine ⟨hg, ends_of_preparing h fun paid hreply => ?_⟩
  cases r with
  | error e => cases hreply
  | ok result =>
    cases hreply
    exact hr paid rfl

/-! ### The parts of a payout -/

/-- The coins below collateral size. -/
def belowCollateral (utxos : List Utxo) : List Utxo :=
  utxos.filter fun u => u.satoshis < collateralCoinSats

/-- A payout is built from all the coins, when there is no reason to spare any or sparing them fails
for want of coins, or else from those below collateral size. -/
theorem sparing_cases {key : FaucetKey} {utxos : List Utxo} {recipient : String}
    {forCollateral : Bool} {es : List Answered} {r : Except Thrown BuiltTx}
    (h : Transcript (f.buildPayoutSparingCollateral key utxos recipient satoshis forCollateral)
      es r) :
    ((∃ es', Transcript (f.dash.buildPayout key utxos recipient satoshis f.cfg.maxPayoutInputs :
        Prog BuiltTx) es' r) ∧
      ((forCollateral || decide (f.cfg.collateralCoins = 0)) = true ∨
        belowCollateral utxos = utxos ∨
        ∃ e es', isShortage e = true ∧ Transcript (f.dash.buildPayout key (belowCollateral utxos)
          recipient satoshis f.cfg.maxPayoutInputs : Prog BuiltTx) es' (.error e))) ∨
      (∃ es', Transcript (f.dash.buildPayout key (belowCollateral utxos) recipient satoshis
        f.cfg.maxPayoutInputs : Prog BuiltTx) es' r) ∧
        ∀ e, r = .error e → isShortage e = false := by
  unfold buildPayoutSparingCollateral at h
  dsimp only at h
  split at h
  · next hany => exact .inl ⟨⟨es, h⟩, .inl hany⟩
  split at h
  · next hall =>
    -- there are no coins of collateral size
    exact .inl ⟨⟨es, h⟩, .inr (.inl (List.filter_sublist.eq_of_length hall))⟩
  obtain ⟨es₁, r₁, h₁, hrest⟩ := transcript_bind.mp h
  obtain ⟨r', rfl, hbuild⟩ := transcript_attempt.mp h₁
  obtain ⟨es₂, -, h₂⟩ := hrest
  cases r' with
  | ok built =>
    obtain ⟨-, rfl⟩ := transcript_pure.mp h₂
    exact .inr ⟨⟨es₁, hbuild⟩, fun e he => by cases he⟩
  | error e =>
    dsimp only at h₂
    split at h₂
    · next hshort => exact .inl ⟨⟨es₂, h₂⟩, .inr (.inr ⟨e, es₁, hshort, hbuild⟩)⟩
    · next hlong =>
      obtain ⟨-, rfl⟩ := transcript_throw.mp h₂
      refine .inr ⟨⟨es₁, hbuild⟩, fun e' he' => ?_⟩
      cases he'
      exact Bool.eq_false_iff.mpr hlong

/-- Sparing collateral coins or not, a payout spends coins of the view. -/
theorem buildPayoutSparingCollateral_spends (hd : f.dash.Faithful) {es : List Answered}
    {key : FaucetKey} {utxos : List Utxo} {recipient : String} {forCollateral : Bool}
    {tx : BuiltTx} (h : Transcript (f.buildPayoutSparingCollateral key utxos recipient satoshis
      forCollateral) es (.ok tx)) : DashTx.Spends utxos satoshis tx := by
  rcases sparing_cases h with ⟨⟨es', hbuild⟩, -⟩ | ⟨⟨es', hbuild⟩, -⟩
  · exact DashTx.buildPayout_spends hd hbuild
  · exact (DashTx.buildPayout_spends hd hbuild).mono List.filter_sublist.subperm

theorem reads_buildPayoutSparingCollateral {key : FaucetKey} {utxos : List Utxo}
    {recipient : String} {forCollateral : Bool} :
    (f.buildPayoutSparingCollateral key utxos recipient satoshis forCollateral).Quiet Reads := by
  unfold buildPayoutSparingCollateral
  dsimp only
  split
  · exact DashTx.reads_buildPayout
  split
  · exact DashTx.reads_buildPayout
  · refine DashTx.reads_buildPayout.attempt.bind fun r => ?_
    cases r with
    | ok tx => exact quiet_pure _
    | error e =>
      dsimp only
      split
      · exact DashTx.reads_buildPayout
      · exact quiet_throw _

/-- Booking the next pass never throws. -/
theorem scheduleMaintenance_ok {es : List Answered} {delayMs : ℤ} {r : Except Thrown Unit}
    (h : Transcript (f.scheduleMaintenance delayMs) es r) : r = .ok () := by
  unfold scheduleMaintenance at h
  split at h
  · obtain ⟨a, -, hr⟩ := transcript_ask.mp h
    exact hr
  · exact (transcript_pure.mp h).2

/-- A payout that cannot be built is refused: at most a demand and the next pass are booked. -/
theorem refuse_triple (view : UtxoSnapshot) (e : Thrown) :
    Triple (f.contract (.payout input) now) (f.refuse view satoshis now e) fun s r t =>
      Looks s t ∧ ∀ paid, r ≠ .ok (.ok paid) := by
  intro s₀ s hs
  -- the answers that ask for maintenance first
  have hbook : ∀ (answer : PayoutResult) u, (∀ paid, answer ≠ .ok paid) → Looks s u →
      (f.contract (.payout input) now).guar s₀ u →
      wp (f.contract (.payout input) now) (fun r t₀ t =>
          (f.contract (.payout input) now).guar t₀ t ∧ Looks s t ∧ ∀ paid, r ≠ .ok (.ok paid))
        (do f.scheduleMaintenance followUpMs; pure answer) s₀ u := by
    intro answer u hne hlooks hu
    rw [wp_bind]
    refine wp_reads (reads_scheduleMaintenance _) hu fun es r t₀ t hes hlooks' _ _ hg => ?_
    obtain rfl := scheduleMaintenance_ok hes
    refine ⟨hg, hlooks.trans hlooks', fun paid hr => ?_⟩
    cases hr
    exact hne paid rfl
  -- the answers that do not
  have hpure : ∀ answer : PayoutResult, (∀ paid, answer ≠ .ok paid) →
      wp (f.contract (.payout input) now) (fun r t₀ t =>
          (f.contract (.payout input) now).guar t₀ t ∧ Looks s t ∧ ∀ paid, r ≠ .ok (.ok paid))
        (pure answer : Prog PayoutResult) s₀ s := by
    intro answer hne
    refine ⟨hs, .refl s, fun paid hr => ?_⟩
    cases hr
    exact hne paid rfl
  cases e with
  | unconfirmedFunds => exact hbook _ s (fun _ h => PayoutResult.noConfusion h) (.refl s) hs
  | tooFragmented =>
    unfold refuse
    dsimp only
    split <;> split
    all_goals first
      | exact hpure _ fun _ h => PayoutResult.noConfusion h
      | rw [wp_bind, wp_modify, bindPost_ok]
        exact hbook _ _ (fun _ h => PayoutResult.noConfusion h)
          ⟨rfl, [], (List.append_nil _).symm, by simp⟩ (hs.tail (.demand _))
  | _ => exact hpure _ fun _ h => PayoutResult.noConfusion h

/-! ### The settled payout -/

/-- A settlement that throws settles nothing, and nobody vouched for the transaction. -/
theorem payoutEnds_thrown {tx : BuiltTx} {s t : State} {es : List Answered} {e : Thrown}
    (hprep : Preparing payer satoshis (some tx) s)
    (htrace : t.trace = s.trace ++ es.map Answered.event) (hes : f.Aborts tx es) :
    f.PayoutEnds input (.error e) t.trace := by
  have hanswers : answers t.trace = answers s.trace ++ es := by
    rw [htrace, answers_append, answers_map_event]
  have hbuilt : ∀ tx', .built tx' ∈ t.trace → tx' = tx := by
    intro tx' he
    rw [htrace] at he
    rcases List.mem_append.mp he with he | he
    · cases (hprep.built tx').mp he
      rfl
    · obtain ⟨a, -, ha⟩ := List.mem_map.mp he
      cases ha
  refine payoutEnds_unsettled (fun tx' outcome he => ?_) (fun tx' he => ?_)
    (fun hcan tx' he => ?_) fun paid hr => by cases hr
  · rw [htrace] at he
    rcases List.mem_append.mp he with he | he
    · exact hprep.unsettled tx' outcome he
    · obtain ⟨a, -, ha⟩ := List.mem_map.mp he
      cases ha
  · rw [hbuilt tx' he, hanswers]
    exact not_vouched_append (not_vouched_of_reads hprep.reads) hes.not_vouched
  · -- what was asked before the settlement was for reading
    rw [hanswers] at hcan ⊢
    rw [hbuilt tx' he]
    rintro ⟨o, ho, hnot⟩
    rw [relayOutcomes_append] at ho
    rcases List.mem_append.mp ho with ho | ho
    · exact not_mayBeLive_of_reads hprep.reads ⟨o, ho, hnot⟩
    · exact hes.not_mayBeLive (fun e he => (hprep.reads e he).noRelay) hcan ⟨o, ho, hnot⟩

/-- What the record of a payout holds once its transaction was settled, `es` being what the network
answered. -/
structure Concluded (payer : Payer) (satoshis : ℕ) (tx : BuiltTx) (outcome : BroadcastSettlement)
    (es : List Answered) (s t : State) : Prop where
  admitted : .admitted payer satoshis ∈ t.trace
  built : ∀ tx', .built tx' ∈ t.trace → tx' = tx
  settled : .settled tx outcome ∈ t.trace
  settled_only : ∀ tx' o, .settled tx' o ∈ t.trace → tx' = tx ∧ o = outcome
  answers : answers t.trace = answers s.trace ++ es

theorem concluded_of_preparing {tx : BuiltTx} {s t : State} {es : List Answered}
    (hprep : Preparing payer satoshis (some tx) s)
    (htrace : t.trace = s.trace ++ es.map Answered.event) (outcome : BroadcastSettlement)
    (locks : Bool) :
    Concluded payer satoshis tx outcome es s (t.conclude tx outcome locks now) := by
  have hmem : ∀ e, e ∈ (t.conclude tx outcome locks now).trace ↔
      e ∈ s.trace ∨ e ∈ es.map Answered.event ∨ (locks = true ∧ e = .locked tx) ∨
        e = .settled tx outcome := by
    intro e
    cases locks with
    | false =>
      change e ∈ t.trace ++ [.settled tx outcome] ↔ _
      rw [htrace]
      simp
    | true =>
      change e ∈ t.trace ++ [.locked tx] ++ [.settled tx outcome] ↔ _
      rw [htrace]
      simp
  refine ⟨(hmem _).mpr (.inl hprep.admitted), fun tx' he => ?_,
    (hmem _).mpr (.inr (.inr (.inr rfl))), fun tx' o he => ?_, ?_⟩
  · rcases (hmem _).mp he with he | he | ⟨-, he⟩ | he
    · cases (hprep.built tx').mp he
      rfl
    · obtain ⟨a, -, ha⟩ := List.mem_map.mp he
      cases ha
    · cases he
    · cases he
  · rcases (hmem _).mp he with he | he | ⟨-, he⟩ | he
    · exact absurd he (hprep.unsettled tx' o)
    · obtain ⟨a, -, ha⟩ := List.mem_map.mp he
      cases ha
    · cases he
    · cases he
      exact ⟨rfl, rfl⟩
  · rw [answers_conclude, htrace, answers_append, answers_map_event]

namespace Concluded

variable {tx : BuiltTx} {es : List Answered} {s t : State}

/-- What is settled as accepted or in doubt may be live. -/
theorem mayBeLive {outcome : BroadcastSettlement} {locks : Bool}
    (h : Concluded payer satoshis tx outcome es s t) (hset : f.Settles tx es outcome locks)
    {tx' : BuiltTx} {o : BroadcastSettlement} (he : .settled tx' o ∈ t.trace)
    (hout : o.accepted?.isSome) : MayBeLive tx'.hex (DashFaucet.answers t.trace) := by
  obtain ⟨rfl, rfl⟩ := h.settled_only tx' o he
  rw [h.answers]
  exact mayBeLive_append_right (hset.mayBeLive hout)

/-- Refused by the network, or in doubt. -/
theorem ends_failed {result : PayoutResult} {uncertain locks : Bool}
    (h : Concluded payer satoshis tx (.failed result uncertain) es s t)
    (hset : f.Settles tx es (.failed result uncertain) locks)
    (hreads : ∀ e ∈ DashFaucet.answers s.trace, Reads e.1) :
    f.PayoutEnds input (.ok (.payout result)) t.trace where
  settled_of_paid paid hr := by
    cases hr
    exact absurd rfl (hset.result_ne_ok paid)
  paid_of_settled tx' accepted he := by cases (h.settled_only tx' _ he).2
  settled_of_vouched tx' he hv := by
    obtain rfl := h.built tx' he
    rw [h.answers] at hv
    exact absurd hv (not_vouched_append (not_vouched_of_reads hreads) hset.not_vouched)
  live_of_settled _ _ he hout := h.mayBeLive hset he hout
  settled_of_live _ tx' he hlive := by
    obtain rfl := h.built tx' he
    refine ⟨_, h.settled, hset.accepted?_isSome ?_⟩
    obtain ⟨o, ho, hnot⟩ := hlive
    rw [h.answers, relayOutcomes_append] at ho
    -- no relay was asked before the settlement
    rcases List.mem_append.mp ho with ho | ho
    · exact absurd ⟨o, ho, hnot⟩ (not_mayBeLive_of_reads hreads)
    · exact ⟨o, ho, hnot⟩

/-- Accepted: the bookkeeping after it adds nothing that was built or settled. -/
theorem ends_paid {accepted : List String} {locks : Bool} {u : State}
    (hpublic : input.isPublic = true → satoshis = f.cfg.payoutSats)
    (h : Concluded payer satoshis tx (.ok accepted) es s t)
    (hset : f.Settles tx es (.ok accepted) locks)
    (hlooks : Looks ((t.recordSpend tx now).commit payer tx input satoshis now) u) :
    f.PayoutEnds input (.ok (.payout (.ok
      { txid := tx.txid, satoshis, replay := false, dryRun := false, accepted,
        keyId := payer.keyId, codeLabel := payer.codeLabel }))) u.trace := by
  have htrace : ((t.recordSpend tx now).commit payer tx input satoshis now).trace =
      t.trace ++ [.locked tx] ++ [.recorded tx] := by
    cases payer <;> rfl
  have hsettled : .settled tx (.ok accepted) ∈ u.trace := by
    refine hlooks.mem ?_
    rw [htrace]
    exact List.mem_append_left _ (List.mem_append_left _ h.settled)
  have hbuilt : ∀ tx', .built tx' ∈ u.trace → tx' = tx := by
    intro tx' he
    have he' := hlooks.of_mem he id
    rw [htrace] at he'
    exact h.built tx' (by simpa using he')
  refine ⟨fun paid hr _ _ => ?_, fun _ _ _ => ⟨_, rfl, rfl, rfl⟩, fun tx' he _ => ?_,
    fun tx' o he hout => ?_, fun _ tx' he _ => ?_⟩
  · cases hr
    exact ⟨⟨tx, rfl, hsettled⟩, hpublic⟩
  · exact ⟨accepted, hbuilt tx' he ▸ hsettled⟩
  · -- the answers the settlement came to are still in the record
    have he' := hlooks.of_mem he id
    rw [htrace] at he'
    obtain ⟨more, hmore⟩ := hlooks.isPrefix
    rw [← hmore, htrace, answers_append, answers_append, answers_append]
    refine mayBeLive_append_left (mayBeLive_append_left (mayBeLive_append_left ?_))
    exact h.mayBeLive hset (by simpa using he') hout
  · exact ⟨.ok accepted, hbuilt tx' he ▸ hsettled, rfl⟩

end Concluded

theorem wp_payOut {view : UtxoSnapshot} {tx : BuiltTx} {s₀ s : State}
    (hpublic : input.isPublic = true → satoshis = f.cfg.payoutSats)
    (hs : (f.contract (.payout input) now).guar s₀ s)
    (hprep : Preparing payer satoshis (some tx) s) :
    wp (f.contract (.payout input) now) (f.EndsPayout input now)
      (f.payOut input payer satoshis view tx now) s₀ s := by
  simp only [payOut, wp_bind]
  refine wp_settle hs (fun _ => ⟨hprep.unsettled, (hprep.built tx).mpr rfl⟩)
    (fun es e t₀ t hes htrace hg => ⟨hg, payoutEnds_thrown hprep htrace hes⟩)
    fun es outcome locks t₀ t hset _ htrace hg hbooks => ?_
  have hdone : Concluded payer satoshis tx outcome es s (t.conclude tx outcome locks now) :=
    concluded_of_preparing hprep htrace outcome locks
  rw [bindPost_ok]
  cases outcome with
  | failed result uncertain =>
    have hends : f.PayoutEnds input (.ok (.payout result))
        (t.conclude tx (.failed result uncertain) locks now).trace :=
      hdone.ends_failed hset hprep.reads
    cases uncertain with
    | true =>
      -- the transaction may be out there, so the payer is charged
      refine ⟨hbooks _ (.doubtful rfl hdone.admitted), ?_⟩
      cases payer <;> exact hends
    | false => exact ⟨hbooks _ (.unpaid rfl), hends⟩
  | ok accepted =>
    have hguar := hbooks _ (.paid rfl hdone.admitted)
    simp only [wp_bind, wp_modify, bindPost_ok]
    split
    · rw [wp_bind]
      refine wp_reads (reads_scheduleMaintenance _) hguar fun es' r u₀ u hes' hlooks _ _ hg' => ?_
      obtain rfl := scheduleMaintenance_ok hes'
      exact ⟨hg', hdone.ends_paid hpublic hset hlooks⟩
    · exact ⟨hguar, hdone.ends_paid hpublic hset (.refl _)⟩

/-! ### From admission on -/

theorem wp_payoutFrom {s₀ s : State}
    (hpublic : input.isPublic = true → satoshis = f.cfg.payoutSats)
    (hs : (f.contract (.payout input) now).guar s₀ s)
    (hprep : Preparing payer satoshis none s) :
    wp (f.contract (.payout input) now) (f.EndsPayout input now)
      (f.payoutFrom input payer satoshis now) s₀ s := by
  simp only [payoutFrom, wp_bind]
  refine wp_reads reads_key hs fun es r t₀ t _ hlooks _ _ hg => ?_
  have hprep := hprep.looks hlooks
  -- the key could not be derived
  cases r with
  | error e => exact endsPayout_of_preparing hprep hg fun paid hr => by cases hr
  | ok key =>
    simp only [bindPost_ok, wp_bind, wp_attempt]
    refine (spendableUtxos_triple key).wp hg fun r u₀ u hg' hfound => ?_
    obtain ⟨hlooks', -, hview⟩ := hfound
    have hprep := hprep.looks hlooks'
    -- the coins could not be listed
    cases r with
    | error e => exact endsPayout_of_preparing hprep hg' fun paid hr => by cases hr
    | ok view =>
      obtain ⟨hoff, -⟩ := hview view rfl
      rw [bindPost_ok]
      dsimp only
      split
      -- no coin is offered
      · exact endsPayout_of_preparing hprep hg' fun paid hr => by cases hr
      · simp only [wp_bind, wp_attempt]
        refine wp_reads reads_buildPayoutSparingCollateral hg'
          fun es r v₀ v hes hlooks'' hledger _ hg'' => ?_
        have hprep := hprep.looks hlooks''
        rw [bindPost_ok]
        -- no transaction could be built: the request is refused
        cases r with
        | error e =>
          refine (refuse_triple view e).wp hg'' fun r w₀ w hg hr => ?_
          exact endsPayout_of_preparing (hprep.looks hr.1) hg fun paid h => absurd h (hr.2 paid)
        | ok tx =>
          have hbuilt := (hoff.of_spent (congrArg Ledger.spent hledger)).buildable (f := f)
            fun hd => buildPayoutSparingCollateral_spends hd hes
          have hstep : (f.contract (.payout input) now).guar v₀ (v.note (.built tx)) := by
            refine hg''.tail (.build hbuilt fun input' _ => ⟨⟨payer, satoshis, hprep.admitted⟩,
              fun tx' he => ?_⟩)
            cases (hprep.built tx').mp he
          simp only [wp_bind, note, wp_modify, bindPost_ok]
          split
          · -- a dry run reports a payment it did not make, and says so
            refine endsPayout_of_preparing hprep.noteBuilt hstep fun paid hr _ => ?_
            cases hr
            rfl
          · exact wp_payOut hpublic hstep hprep.noteBuilt

/-- The public path pays the configured amount. -/
theorem admit_public {cfg : FaucetConfig} {s : State} (h : input.isPublic = true)
    (hadm : admitPayout cfg s input now = .ok (payer, satoshis)) :
    admitPublic cfg s input now = .ok (payer, satoshis) ∧ payer = .anyone ∧
      satoshis = cfg.payoutSats := by
  simp only [PayoutRequest.isPublic, Bool.and_eq_true, Option.isNone_iff_eq_none] at h
  simp only [admitPayout, h.1, h.2] at hadm
  refine ⟨hadm, ?_⟩
  unfold admitPublic at hadm
  split at hadm
  · cases hadm
  · dsimp only at hadm
    split at hadm
    · cases hadm
    split at hadm
    · cases hadm
    · cases hadm
      exact ⟨rfl, rfl⟩

/-- A payout answered at the door reports no payment but an earlier one. -/
theorem admit_error_ok {cfg : FaucetConfig} {s : State} {paid : Paid}
    (hadm : admitPayout cfg s input now = .error (.ok paid)) : paid.replay = true := by
  unfold admitPayout at hadm
  split at hadm
  · -- an API key
    -- the key's own refusals are errors, never payments
    split at hadm
    · next refusal h =>
      cases hadm
      unfold authorizeKeyPayout at h
      split at h
      · cases h
      split at h
      · cases h
      split at h
      · next h' =>
        cases h
        unfold keyAmount at h'
        split at h'
        · split at h' <;> cases h'
        · dsimp only at h'
          split at h' <;> cases h'
      split at h
      · cases h
      · dsimp only at h
        split at h <;> cases h
    · cases hadm
  · -- a code
    split at hadm
    · cases hadm
    split at hadm <;> cases hadm
  · -- the public path
    unfold admitPublic at hadm
    split at hadm
    · cases hadm
      rfl
    · dsimp only at hadm
      split at hadm
      · cases hadm
      split at hadm <;> cases hadm

theorem wp_payoutLocked {s : State} (hstart : s.trace = []) :
    wp (f.contract (.payout input) now) (f.EndsPayout input now)
      (f.payoutLocked input now) s s := by
  simp only [payoutLocked, wp_bind, wp_modify, bindPost_ok, wp_read]
  have hprune : (f.contract (.payout input) now).guar s (s.prune f.cfg now) :=
    .single (.prune hstart)
  have htrace : (s.prune f.cfg now).trace = [] := hstart
  cases hadm : admitPayout f.cfg (s.prune f.cfg now) input now with
  | error answer =>
    refine ⟨hprune, payoutEnds_unsettled (fun tx outcome he => ?_) (fun tx he => ?_)
      (fun _ tx he => ?_) fun paid hr hreplay => ?_⟩
    · rw [htrace] at he
      cases he
    · rw [htrace] at he
      cases he
    · rw [htrace] at he
      cases he
    · cases hr
      rw [admit_error_ok hadm] at hreplay
      cases hreplay
  | ok result =>
    obtain ⟨payer, satoshis⟩ := result
    simp only [wp_bind, note, wp_modify, bindPost_ok]
    -- pruned and admitted, the log holds the admission alone
    refine wp_payoutFrom (fun h => (admit_public h hadm).2.2)
      (hprune.tail (.admits rfl htrace hadm)) ?_
    have htrace' : ((s.prune f.cfg now).note (.admitted payer satoshis)).trace =
        [.admitted payer satoshis] := by
      change (s.prune f.cfg now).trace ++ _ = _
      rw [htrace, List.nil_append]
    refine ⟨?_, fun tx => ?_, fun tx outcome => ?_, ?_⟩ <;> rw [htrace'] <;> simp [answers]

theorem payout_meets (input : PayoutRequest) (now : ℤ) (s : State) :
    Actor.Meets (M := f.treasury) f.contract f.EndsWell (.payout input) now s := by
  simp only [Actor.Meets, program, wp_bind]
  refine wp_mono (fun r t₀ t hend => ?_) (wp_payoutLocked rfl)
  obtain ⟨hg, hends⟩ := hend
  have hwell : f.EndsWell (.payout input) now (r.map Reply.payout) t := by
    refine ⟨fun input' hop => ?_, fun _ hop => (by cases hop)⟩
    cases hop
    exact hends
  cases r with
  | error e => exact ⟨hg, hwell⟩
  | ok result => exact ⟨hg, hwell⟩

end Faucet

end DashFaucet

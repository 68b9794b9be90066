import DashFaucet.Treasury.Charges

/-!
# What admission is worth at settlement

Between the checks of a payout and its bookkeeping lie several awaits. Only administration runs
there, and no operation but the payout itself writes the tables it was checked against, so what
the checks found still holds when the payout is settled (`Faucet.Certificate`).

* `Faucet.orderly_kept`: the invariant.
* `Faucet.KeptByBooks`, `Faucet.KeptByBooks.kept`: an invariant about the books has four cases.
-/

namespace DashFaucet

open Async

namespace Faucet

variable (f : Faucet)

/-- What the checks of a payout found, in a state where it has settled nothing yet. -/
def Certificate (s : State) (input : PayoutRequest) : Payer → ℕ → Prop
  | .anyone, satoshis =>
    input.isPublic = true ∧ admitPublic f.cfg s input s.now = .ok (.anyone, satoshis)
  -- the row the request found; the table may have moved on since
  | .apiKey row, satoshis =>
    input.apiKeyHash = some row.hash ∧ keyAmount f.cfg row input.requestedSats = .ok satoshis ∧
      (∃ row' ∈ s.admin.apiKeys.rows, SameKey row row') ∧
      ∀ k, row.perDay = some k → (s.keyHits row.id s.now).length < k
  | .code row, satoshis =>
    input.apiKeyHash = none ∧ input.codeKey.isSome = true ∧ satoshis = row.amountSats ∧
      (∃ row' ∈ s.admin.codes.rows, row'.id = row.id ∧ row'.redemptions = row.redemptions) ∧
      row.redemptions < row.maxRedemptions ∧
      (∃ v ∈ s.codeVersions, v.id = row.id ∧ v.maxRedemptions = row.maxRedemptions) ∧
      ∀ r ∈ s.ledger.codeRedemptions, ¬(r.codeId = row.id ∧ r.address = input.address)

/-- Every code is on record in a version with its own limit. -/
def Versioned (s : State) : Prop :=
  ∀ row ∈ s.admin.codes.rows, ∃ v ∈ s.codeVersions, v.id = row.id ∧
    v.maxRedemptions = row.maxRedemptions

/-- The record of the run is well formed, and the checks of a payout under way still hold. -/
structure Orderly (s : State) : Prop where
  /-- An operation admits once. -/
  admission : ∀ payer satoshis, .admitted payer satoshis ∈ s.trace →
    s.trace.findSome? Event.admission = some (payer, satoshis)
  /-- A payout settles once, -/
  settlement : ∀ input, s.running = some (.payout input) → ∀ tx outcome,
    .settled tx outcome ∈ s.trace → s.trace.findSome? Event.settlement = some (tx, outcome)
  /-- and only an admitted one is charged. -/
  admitted : ∀ input, s.running = some (.payout input) → ∀ tx outcome accepted,
    .settled tx outcome ∈ s.trace → outcome.accepted? = some accepted →
    ∃ payer satoshis, .admitted payer satoshis ∈ s.trace
  certificate : ∀ input payer satoshis, s.running = some (.payout input) →
    .admitted payer satoshis ∈ s.trace → Unsettled s.trace →
    f.Certificate s input payer satoshis
  timely : ∀ c ∈ s.charges, c.time ≤ s.now
  versioned : Versioned s

variable {f} {s s' : State} {input : PayoutRequest} {payer : Payer} {satoshis : ℕ}

/-! ### Certificates -/

/-- A key that is authorized is on record, may be paid the amount, and has room in its daily
limit. -/
theorem authorizeKeyPayout_ok {cfg : FaucetConfig} {hash : String} {requestedSats : Option ℕ}
    {now : ℤ} {row : ApiKeyRow}
    (h : authorizeKeyPayout cfg s hash requestedSats now = .ok (row, satoshis)) :
    (row ∈ s.admin.apiKeys.rows ∧ row.hash = hash) ∧
      keyAmount cfg row requestedSats = .ok satoshis ∧
      ∀ k, row.perDay = some k → (s.keyHits row.id now).length < k := by
  unfold authorizeKeyPayout at h
  split at h
  · cases h
  next row' hfind =>
  have hlisted := Table.find?_eq_some.mp hfind
  split at h
  · cases h
  split at h
  · cases h
  next sats hamount =>
  split at h
  · next hnone =>
    -- the key has no daily limit
    cases h
    refine ⟨hlisted, hamount, fun k hk => ?_⟩
    rw [hnone] at hk
    cases hk
  · next perDay hsome =>
    dsimp only at h
    split at h
    · cases h
    next hroom =>
    cases h
    refine ⟨hlisted, hamount, fun k hk => ?_⟩
    rw [hsome] at hk
    cases hk
    exact not_le.mp hroom

/-- A code that checks out is on record, has redemptions left, and the address has none of them. -/
theorem checkCode_ok {key address : String} {now : ℤ} {row : CodeRow}
    (h : checkCode s key address now = .ok row) :
    row ∈ s.admin.codes.rows ∧ row.redemptions < row.maxRedemptions ∧
      ∀ r ∈ s.ledger.codeRedemptions, ¬(r.codeId = row.id ∧ r.address = address) := by
  unfold checkCode at h
  split at h
  · cases h
  next row' hfind =>
  split at h
  · cases h
  next hlive =>
  split at h
  · cases h
  next hunused =>
  cases h
  simp only [Bool.or_eq_true, decide_eq_true_eq, not_or, not_le] at hlive
  refine ⟨List.mem_of_find?_eq_some hfind, hlive.2, fun r hr hboth => ?_⟩
  exact hunused (List.any_eq_true.mpr ⟨r, hr, by simpa using hboth⟩)

/-- Admission issues a certificate. -/
theorem certificate_of_admitted (hadm : admitPayout f.cfg s input s.now = .ok (payer, satoshis))
    (hver : Versioned s) : f.Certificate s input payer satoshis := by
  cases hkey : input.apiKeyHash with
  | some hash =>
    simp only [admitPayout, hkey] at hadm
    split at hadm
    · cases hadm
    next row sats hauth =>
    cases hadm
    obtain ⟨⟨hmem, hhash⟩, hamount, hroom⟩ := authorizeKeyPayout_ok hauth
    exact ⟨hkey.trans (congrArg some hhash.symm), hamount, ⟨_, hmem, .refl _⟩, hroom⟩
  | none =>
    cases hcode : input.codeKey with
    | some key =>
      simp only [admitPayout, hkey, hcode] at hadm
      split at hadm
      · cases hadm
      split at hadm
      · next row hcheck =>
        cases hadm
        obtain ⟨hmem, hleft, hunused⟩ := checkCode_ok hcheck
        exact ⟨hkey, by rw [hcode]; rfl, rfl, ⟨_, hmem, rfl, rfl⟩, hleft, hver _ hmem, hunused⟩
      · cases hadm
      · cases hadm
    | none =>
      -- neither key nor code: the public limits
      have hpublic : input.isPublic = true := by
        simp [PayoutRequest.isPublic, hkey, hcode]
      obtain ⟨hadm, rfl, -⟩ := admit_public hpublic hadm
      exact ⟨hpublic, hadm⟩

/-- A certificate is about the books. -/
theorem Certificate.of_sameBooks (h : f.Certificate s input payer satoshis)
    (hbooks : SameBooks s s') (hnow : s'.now = s.now) : f.Certificate s' input payer satoshis := by
  -- each kind of payer is checked against its own tables
  cases payer with
  | anyone =>
    obtain ⟨hpublic, hadm⟩ := h
    have hhits : ∀ t, s'.hits input.ip t = s.hits input.ip t := fun t => by
      rw [State.hits, State.hits, hbooks.ipHits]
    have hspent : ∀ day, s'.ledger.spentToday day = s.ledger.spentToday day := fun day => by
      rw [Ledger.spentToday, Ledger.spentToday, hbooks.budget]
    refine ⟨hpublic, ?_⟩
    simp only [admitPublic, hbooks.claims, hhits, hspent, hnow] at hadm ⊢
    exact hadm
  | apiKey row =>
    simp only [Certificate, State.keyHits] at h ⊢
    rw [hbooks.apiKeys, hbooks.keyPayouts, hnow]
    exact h
  | code row =>
    simp only [Certificate] at h ⊢
    rw [hbooks.codes, hbooks.codeRedemptions, hbooks.codeVersions]
    exact h

/-- Administration does not take back what was certified. -/
theorem Certificate.call (h : f.Certificate s input payer satoshis) (c : Call) (t : ℤ) :
    f.Certificate (s.call f.cfg c t) input payer satoshis := by
  have hadm := Call.administered f.cfg t s.admin c
  cases payer with
  | anyone => exact h
  | apiKey row =>
    obtain ⟨hhash, hamount, ⟨row', hrow', hsame⟩, hroom⟩ := h
    obtain ⟨row'', hrow'', husage⟩ := hadm.keys row' hrow'
    exact ⟨hhash, hamount, ⟨row'', hrow'', hsame.trans husage.toSameKey⟩, hroom⟩
  | code row =>
    obtain ⟨hnokey, hcode, hsats, ⟨row', hrow', hid, hred⟩, hroom, ⟨v, hv, hvid, hmax⟩, hfresh⟩ := h
    obtain ⟨row'', hrow'', hid', hred'⟩ := hadm.codes row' hrow'
    exact ⟨hnokey, hcode, hsats, ⟨row'', hrow'', hid'.trans hid, hred'.trans hred⟩, hroom,
      ⟨v, List.mem_append_left _ hv, hvid, hmax⟩, hfresh⟩

/-! ### The record stays well formed -/

theorem admitted_of_append {es : List Event} (h : ∀ e ∈ es, e.admission = none)
    (hmem : .admitted payer satoshis ∈ s.trace ++ es) : .admitted payer satoshis ∈ s.trace := by
  refine (List.mem_append.mp hmem).resolve_right fun he => ?_
  cases h _ he

theorem settled_of_append {es : List Event} (h : ∀ e ∈ es, e.settlement = none) {tx : BuiltTx}
    {outcome : BroadcastSettlement} (hmem : .settled tx outcome ∈ s.trace ++ es) :
    .settled tx outcome ∈ s.trace := by
  refine (List.mem_append.mp hmem).resolve_right fun he => ?_
  cases h _ he

theorem unsettled_append {trace es : List Event} (h : Unsettled (trace ++ es)) :
    Unsettled trace :=
  fun tx outcome he => h tx outcome (List.mem_append_left _ he)

theorem Versioned.of_sameBooks (h : Versioned s) (hbooks : SameBooks s s') : Versioned s' := by
  unfold Versioned
  rw [hbooks.codes, hbooks.codeVersions]
  exact h

/-- Charges depend on the past and on the settlement under way alone. -/
theorem charges_aside (hcont : Continues s s') {es : List Event} (htrace : s'.trace = s.trace ++ es)
    (haside : ∀ e ∈ es, ∀ input, s.running = some (.payout input) → e.Aside) :
    s'.charges = s.charges := by
  refine charges_of_continues hcont fun op hrun => ?_
  cases op with
  | payout input =>
    rw [htrace]
    exact charge_append fun e he => haside e he input hrun
  | _ => rfl

/-- An orderly record stays orderly while events aside are added and the books rest. -/
theorem Orderly.aside (h : f.Orderly s) (hcont : Continues s s') {es : List Event}
    (htrace : s'.trace = s.trace ++ es)
    (haside : ∀ e ∈ es, e.admission = none ∧
      ∀ input, s.running = some (.payout input) → e.Aside)
    (hbooks : SameBooks s s') : f.Orderly s' := by
  have hadm : ∀ e ∈ es, e.admission = none := fun e he => (haside e he).1
  have hset : ∀ input, s.running = some (.payout input) → ∀ e ∈ es, e.settlement = none :=
    fun input hrun e he => ((haside e he).2 input hrun).settlement
  have hcharges : s'.charges = s.charges :=
    charges_aside hcont htrace fun e he => (haside e he).2
  refine ⟨fun payer satoshis he => ?_, fun input hrun tx outcome he => ?_,
    fun input hrun tx outcome accepted he hout => ?_, fun input payer satoshis hrun he hun => ?_,
    ?_, ?_⟩
  -- the admission is still the first of the trace
  · rw [htrace] at he ⊢
    rw [findSome?_append_aside hadm]
    exact h.admission payer satoshis (admitted_of_append hadm he)
  -- the settlement is still the first of the trace
  · rw [hcont.running] at hrun
    rw [htrace] at he ⊢
    rw [findSome?_append_aside (hset input hrun)]
    exact h.settlement input hrun tx outcome (settled_of_append (hset input hrun) he)
  · rw [hcont.running] at hrun
    rw [htrace] at he ⊢
    obtain ⟨payer, satoshis, hmem⟩ := h.admitted input hrun tx outcome accepted
      (settled_of_append (hset input hrun) he) hout
    exact ⟨payer, satoshis, List.mem_append_left _ hmem⟩
  -- the certificate reads books that did not change
  · rw [hcont.running] at hrun
    rw [htrace] at he hun
    exact (h.certificate input payer satoshis hrun (admitted_of_append hadm he)
      (unsettled_append hun)).of_sameBooks hbooks hcont.now
  · rw [hcharges, hcont.now]
    exact h.timely
  · exact h.versioned.of_sameBooks hbooks

/-- A charge keeps every code on record. -/
theorem versioned_charge (h : Versioned s) (c : Charge) : Versioned (s.charge c) := by
  intro row hrow
  -- a charge counts a redemption and leaves the limits alone
  have hkeep : ∃ row₀ ∈ s.admin.codes.rows, row₀.id = row.id ∧
      row₀.maxRedemptions = row.maxRedemptions := by
    rcases c with ⟨payer, input, tx, satoshis, time, accepted⟩
    cases payer with
    | anyone | apiKey => cases accepted <;> exact ⟨row, hrow, rfl, rfl⟩
    | code code =>
      have hrow' : row ∈ (s.admin.codes.update (fun r => r.id = code.id) fun r =>
          { r with redemptions := r.redemptions + 1 }).rows := by cases accepted <;> exact hrow
      obtain ⟨row₀, hrow₀, rfl⟩ := Table.mem_update.mp hrow'
      refine ⟨row₀, hrow₀, ?_⟩
      split <;> exact ⟨rfl, rfl⟩
  have hversions : (s.charge c).codeVersions = s.codeVersions := by
    rcases c with ⟨payer, input, tx, satoshis, time, accepted⟩
    cases payer <;> cases accepted <;> rfl
  obtain ⟨row₀, hrow₀, hid, hmax⟩ := hkeep
  obtain ⟨v, hv, hvid, hvmax⟩ := h row₀ hrow₀
  rw [hversions]
  exact ⟨v, hv, hvid.trans hid, hvmax.trans hmax⟩

/-- An orderly record stays orderly when a payout settles. -/
theorem Orderly.settle (h : f.Orderly s) (hcont : Continues s s') {tx : BuiltTx}
    {outcome : BroadcastSettlement} {es es' : List Event}
    (hun : Unsettled s.trace)
    (htrace : s'.trace = s.trace ++ es ++ .settled tx outcome :: es')
    (haside : ∀ e ∈ es ++ es', e.Aside)
    (hadm : ∀ accepted, outcome.accepted? = some accepted →
      ∃ payer satoshis, .admitted payer satoshis ∈ s.trace)
    (htimely : ∀ c ∈ s'.charges, c.time ≤ s.now) (hver : Versioned s') : f.Orderly s' := by
  -- the new settlement is the first one and no settlement follows it
  obtain ⟨hfirst, hsame⟩ := findSome?_settled tx outcome hun haside
  rw [← htrace] at hfirst hsame
  have honly : ∀ tx' outcome', .settled tx' outcome' ∈ s'.trace →
      tx' = tx ∧ outcome' = outcome := by
    intro tx' outcome' he
    rw [htrace, List.append_assoc] at he
    rcases List.mem_append.mp he with he | he
    · exact absurd he (hun tx' outcome')
    · rcases List.mem_append.mp he with he | he
      · cases (haside _ (List.mem_append_left _ he)).settlement
      · rcases List.mem_cons.mp he with he | he
        · cases he
          exact ⟨rfl, rfl⟩
        · cases (haside _ (List.mem_append_right _ he)).settlement
  have hmem : .settled tx outcome ∈ s'.trace := by
    rw [htrace]
    exact List.mem_append_right _ List.mem_cons_self
  refine ⟨fun payer satoshis he => ?_, fun input' _ tx' outcome' he => ?_,
    fun input' _ tx' outcome' accepted he hout => ?_, fun input' payer satoshis _ _ hun' => ?_,
    ?_, hver⟩
  · rw [hsame]
    refine h.admission payer satoshis ?_
    rw [htrace, List.append_assoc] at he
    refine admitted_of_append (fun e he => ?_) he
    simp only [List.mem_append, List.mem_cons] at he
    rcases he with he | rfl | he
    · exact (haside e (List.mem_append_left _ he)).admission
    · rfl
    · exact (haside e (List.mem_append_right _ he)).admission
  · obtain ⟨rfl, rfl⟩ := honly tx' outcome' he
    exact hfirst
  · obtain ⟨rfl, rfl⟩ := honly tx' outcome' he
    obtain ⟨payer, satoshis, hadm⟩ := hadm accepted hout
    exact ⟨payer, satoshis, hcont.trace.subset hadm⟩
  -- a settlement is in the trace, so the request is no longer unsettled
  · exact absurd hmem (hun' tx outcome)
  · rw [hcont.now]
    exact htimely

/-! ### The invariant, and the rule for others -/

/-- What a step does to the books of an orderly state. -/
inductive Booked (f : Faucet) (s s' : State) : Prop where
  | prune (h : s' = s.prune f.cfg s.now)
  | same (hbooks : SameBooks s s') (hcharges : s'.charges = s.charges)
  | charge (c : Charge) (hcert : f.Certificate s c.input c.payer c.satoshis)
      (htime : c.time = s.now) (hbooks : SameBooks (s.charge c) s')
      (hcharges : s'.charges = s.charges ++ [c])

theorem Orderly.prune (h : f.Orderly s) (hstart : s.trace = []) (t : ℤ) :
    f.Orderly (s.prune f.cfg t) where
  admission payer satoshis he := by
    change _ ∈ s.trace at he
    rw [hstart] at he
    cases he
  settlement input _ tx outcome he := by
    change _ ∈ s.trace at he
    rw [hstart] at he
    cases he
  admitted input _ tx outcome accepted he := by
    change _ ∈ s.trace at he
    rw [hstart] at he
    cases he
  certificate input payer satoshis _ he := by
    change _ ∈ s.trace at he
    rw [hstart] at he
    cases he
  timely := h.timely
  versioned := h.versioned

/-- An admission is the first thing in the record, and charges nobody. -/
theorem Orderly.admits {input : PayoutRequest} {payer : Payer} {satoshis : ℕ} (h : f.Orderly s)
    (hrun : s.running = some (.payout input)) (hstart : s.trace = [])
    (hadm : admitPayout f.cfg s input s.now = .ok (payer, satoshis))
    (hcont : Continues s (s.note (.admitted payer satoshis))) :
    f.Orderly (s.note (.admitted payer satoshis)) ∧
      f.Booked s (s.note (.admitted payer satoshis)) := by
  have hbooks : SameBooks s (s.note (.admitted payer satoshis)) :=
    ⟨rfl, rfl, rfl, rfl, rfl, rfl, rfl, rfl⟩
  -- a payout is admitted first of all
  have htrace : (s.note (.admitted payer satoshis)).trace = [.admitted payer satoshis] := by
    change s.trace ++ _ = _
    rw [hstart, List.nil_append]
  have hun : Unsettled (s.note (.admitted payer satoshis)).trace := by
    intro tx outcome he
    rw [htrace] at he
    cases List.mem_singleton.mp he
  have hcharges : (s.note (.admitted payer satoshis)).charges = s.charges := by
    refine charges_of_continues hcont fun op _ => ?_
    rw [charge_eq_none hun, charge_eq_none (unsettled_append hun)]
  have honly : ∀ payer' satoshis', .admitted payer' satoshis' ∈
      (s.note (.admitted payer satoshis)).trace → payer' = payer ∧ satoshis' = satoshis := by
    intro payer' satoshis' he
    rw [htrace] at he
    cases List.mem_singleton.mp he
    exact ⟨rfl, rfl⟩
  refine ⟨⟨fun payer' satoshis' he => ?_, fun input' _ tx outcome he =>
    absurd he (hun tx outcome), fun input' _ tx outcome _ he => absurd he (hun tx outcome),
    fun input' payer' satoshis' hrun' he _ => ?_, ?_, h.versioned⟩, .same hbooks hcharges⟩
  · obtain ⟨rfl, rfl⟩ := honly payer' satoshis' he
    rw [htrace]
    rfl
  · obtain ⟨rfl, rfl⟩ := honly payer' satoshis' he
    have hinput : some (Op.payout input) = some (Op.payout input') := hrun.symm.trans hrun'
    cases hinput
    exact (certificate_of_admitted hadm h.versioned).of_sameBooks hbooks rfl
  · rw [hcharges]
    exact h.timely

/-- A settlement that accepts nothing charges nobody. -/
theorem charges_rejected {tx : BuiltTx} {outcome : BroadcastSettlement} {es es' : List Event}
    (hcont : Continues s s') (hun : Unsettled s.trace) (hout : outcome.accepted? = none)
    (htrace : s'.trace = s.trace ++ es ++ .settled tx outcome :: es')
    (haside : ∀ e ∈ es ++ es', e.Aside) : s'.charges = s.charges := by
  refine charges_of_continues hcont fun op _ => ?_
  obtain ⟨hsettlement, -⟩ := findSome?_settled tx outcome hun haside
  rw [← htrace] at hsettlement
  rw [charge_eq_none hun]
  unfold OpRecord.charge
  cases op with
  | payout input' =>
    dsimp only
    rw [hsettlement]
    cases s'.trace.findSome? Event.admission with
    | none => rfl
    | some adm =>
      simp only [Option.bind_eq_bind, Option.bind_some, hout]
      rfl
  | _ => rfl

/-- A step of an operation keeps the record orderly, and books in one of three ways. -/
theorem Orderly.step {op : Op} (h : f.Orderly s) (hrun : s.running = some op)
    (hstep : Step f op s.now s s') : f.Orderly s' ∧ f.Booked s s' := by
  have hcont := hstep.continues
  cases hstep.effect with
  | prune hstart heq =>
    subst heq
    exact ⟨h.prune hstart s.now, .prune rfl⟩
  | @admits input payer satoshis hop hstart hadm heq =>
    subst hop heq
    exact h.admits hrun hstart hadm hcont
  | @settle input payer satoshis tx outcome accepted es es' hop hun hadm hout htrace
    haside hbooks =>
    subst hop
    have hcert := h.certificate input payer satoshis hrun hadm hun
    have hver : Versioned s' :=
      (versioned_charge h.versioned ⟨payer, input, tx, satoshis, s.now, accepted⟩).of_sameBooks
        hbooks
    -- the charge needs the record, and the order of the record needs the charge to be timely
    obtain ⟨hsettlement, hadmission⟩ := findSome?_settled tx outcome hun haside
    rw [← htrace] at hsettlement hadmission
    rw [h.admission payer satoshis hadm] at hadmission
    have hcharges := charges_settle hcont hrun hun hadmission hsettlement hout
    refine ⟨h.settle hcont hun htrace haside (fun _ _ => ⟨payer, satoshis, hadm⟩) ?_ hver,
      .charge _ hcert rfl hbooks hcharges⟩
    rw [hcharges]
    intro c hc
    rcases List.mem_append.mp hc with hc | hc
    · exact h.timely c hc
    · rw [List.mem_singleton.mp hc]
  | @reject input tx outcome es es' hop hun hout htrace haside hbooks =>
    have hcharges := charges_rejected hcont hun hout htrace haside
    refine ⟨h.settle hcont hun htrace haside (fun accepted hacc => ?_) ?_
      (h.versioned.of_sameBooks hbooks), .same hbooks hcharges⟩
    · rw [hout] at hacc
      cases hacc
    · rw [hcharges]
      exact h.timely
  | @aside es htrace haside hbooks =>
    have hnew : ∀ e ∈ es, e.admission = none ∧
        ∀ input, s.running = some (.payout input) → e.Aside := by
      refine fun e he => ⟨(haside e he).1, fun input hinput => (haside e he).2 input ?_⟩
      exact Option.some.inj (hrun.symm.trans hinput)
    exact ⟨h.aside hcont htrace hnew hbooks,
      .same hbooks (charges_aside hcont htrace fun e he => (hnew e he).2)⟩

/-- **The record of every run is orderly.** -/
theorem orderly_kept : f.Kept f.Orderly where
  step op s s' hrun hstep _ h := (h.step hrun hstep).1
  answer op q a s _ _ _ h := by
    refine h.aside (.note _ s) rfl (fun e he => ?_) ⟨rfl, rfl, rfl, rfl, rfl, rfl, rfl, rfl⟩
    rw [List.mem_singleton.mp he]
    exact ⟨rfl, fun _ _ => ⟨rfl, rfl⟩⟩
  call c t s hle _ h := by
    refine ⟨h.admission, h.settlement, h.admitted, fun input payer satoshis hrun he hun => ?_,
      h.timely, fun row hrow => ?_⟩
    · exact (h.certificate input payer satoshis hrun he hun).call c t
    · exact ⟨row, List.mem_append_right _ hrow, rfl, rfl⟩
  -- an operation begins and ends with an empty trace
  enter op t s hrun _ hle _ h := by
    refine ⟨fun _ _ he => (by cases he), fun _ _ _ _ he => (by cases he),
      fun _ _ _ _ _ he => (by cases he), fun _ _ _ _ he => (by cases he), fun c hc => ?_,
      h.versioned⟩
    rw [charges_enter hrun] at hc
    exact (h.timely c hc).trans hle
  leave op r s hrun _ _ h := by
    refine ⟨fun _ _ he => (by cases he), fun _ _ _ _ he => (by cases he),
      fun _ _ _ _ _ he => (by cases he), fun _ _ _ _ he => (by cases he), fun c hc => ?_,
      h.versioned⟩
    rw [charges_leave hrun] at hc
    exact h.timely c hc

/-- An invariant about the books and the charges, in four cases. -/
structure KeptByBooks (f : Faucet) (I : State → Prop) : Prop where
  same : ∀ s s', SameBooks s s' → s'.charges = s.charges → s.now ≤ s'.now → I s → I s'
  prune : ∀ s, I s → I (s.prune f.cfg s.now)
  charge : ∀ s s' c, f.Orderly s → f.Certificate s c.input c.payer c.satoshis → c.time = s.now →
    SameBooks (s.charge c) s' → s'.now = s.now → s'.charges = s.charges ++ [c] → I s → I s'
  call : ∀ c t s, I s → I (s.call f.cfg c t)

theorem KeptByBooks.kept {I : State → Prop} (hI : f.KeptByBooks I) : f.KeptUnder f.Orderly I where
  step op s s' hrun hstep h hs := by
    cases (h.step hrun hstep).2 with
    | prune heq =>
      subst heq
      exact hI.prune s hs
    | same hbooks hcharges => exact hI.same s s' hbooks hcharges hstep.continues.now.ge hs
    | charge c hcert htime hbooks hcharges =>
      exact hI.charge s s' c h hcert htime hbooks hstep.continues.now hcharges hs
  answer op q a s _ _ _ hs := by
    refine hI.same s _ ⟨rfl, rfl, rfl, rfl, rfl, rfl, rfl, rfl⟩ ?_ (le_refl _) hs
    refine charges_of_continues (.note _ s) fun op _ => charge_append fun e he => ?_
    rw [List.mem_singleton.mp he]
    exact ⟨rfl, rfl⟩
  call c t s _ _ hs := hI.call c t s hs
  enter op t s hrun _ hle _ hs :=
    hI.same s _ ⟨rfl, rfl, rfl, rfl, rfl, rfl, rfl, rfl⟩ (charges_enter hrun) hle hs
  leave op r s hrun _ _ hs :=
    hI.same s _ ⟨rfl, rfl, rfl, rfl, rfl, rfl, rfl, rfl⟩ (charges_leave hrun) (le_refl _) hs

/-- An accepted payout is charged, and so is one in doubt. -/
theorem Orderly.charge_of_settled (h : f.Orderly s) (hrun : s.running = some (.payout input))
    {tx : BuiltTx} {outcome : BroadcastSettlement} {accepted : Bool}
    (hset : .settled tx outcome ∈ s.trace) (hout : outcome.accepted? = some accepted) :
    ∃ payer satoshis, OpRecord.charge ⟨.payout input, s.now, s.trace⟩ =
      some ⟨payer, input, tx, satoshis, s.now, accepted⟩ := by
  obtain ⟨payer, satoshis, hadm⟩ := h.admitted input hrun tx _ _ hset hout
  refine ⟨payer, satoshis, ?_⟩
  simp [OpRecord.charge, h.admission payer satoshis hadm, h.settlement input hrun tx _ hset, hout]

theorem orderly_initial (clock : ℤ) : f.Orderly (.initial clock) :=
  ⟨fun _ _ he => (by cases he), fun _ _ _ _ he => (by cases he), fun _ _ _ _ _ he => (by cases he),
    fun _ _ _ _ he => (by cases he), fun _ hc => (by cases hc), fun _ hrow => (by cases hrow)⟩

/-- **Invariants about the books hold in every run.** -/
theorem KeptByBooks.reached {I : State → Prop} (hI : f.KeptByBooks I)
    (hinit : ∀ clock, I (.initial clock)) {c : Actor.Config f.treasury} (hc : f.Reached c) :
    f.Aligned c.phase ∧ f.Orderly c.store ∧ I c.store :=
  (KeptUnder.and orderly_kept hI.kept).reached
    (fun clock => ⟨orderly_initial clock, hinit clock⟩) hc

end Faucet

end DashFaucet

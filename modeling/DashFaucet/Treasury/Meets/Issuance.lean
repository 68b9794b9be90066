import DashFaucet.Treasury.Meets.View

/-!
# Giving out vouchers keeps to the contract

Both voucher operations work through lists of vouchers they have read before, while they wait
between one voucher and the next. `Todo` says why that is safe: the vouchers still to come are in
the inventory as they were read, because only this operation writes it and it writes a voucher at
a time.

* `Faucet.MayOffer.mono`: a request that may be offered vouchers may be until it is counted.
* `Faucet.issueInvitation_meets`: what is given out is on the record and in the answer.
-/

namespace DashFaucet

open Async Relation List

/-! ### Lists of vouchers to work through -/

/-- The vouchers of `rows` are in the inventory, each once, and satisfy `P`. -/
structure Todo (P : InvitationRow → Prop) (rows : List InvitationRow) (s : State) : Prop where
  mem : ∀ row ∈ rows, row ∈ s.ledger.inventory.rows ∧ P row
  nodup : (rows.map InvitationRow.id).Nodup

namespace Todo

variable {P : InvitationRow → Prop} {rows rows' : List InvitationRow} {row : InvitationRow}
  {s t : State}

/-- Some of the vouchers a filter finds. -/
theorem of_subperm {p : InvitationRow → Bool} (hsub : rows <+~ s.ledger.inventory.rows.filter p)
    (hp : ∀ row, p row = true → P row) : Todo P rows s where
  mem row hrow := by
    obtain ⟨hmem, htrue⟩ := List.mem_filter.mp (hsub.subset hrow)
    exact ⟨hmem, hp row htrue⟩
  nodup := by
    obtain ⟨rows', hperm, hsub'⟩ := hsub
    rw [← (hperm.map InvitationRow.id).nodup_iff]
    exact s.ledger.inventory.key_nodup.sublist ((hsub'.trans List.filter_sublist).map _)

theorem of_inventory (h : Todo P rows s) (heq : t.ledger.inventory = s.ledger.inventory) :
    Todo P rows t := ⟨heq ▸ h.mem, h.nodup⟩

theorem sublist (h : Todo P rows s) (hsub : rows' <+ rows) : Todo P rows' s :=
  ⟨fun row hrow => h.mem row (hsub.subset hrow), h.nodup.sublist (hsub.map _)⟩

theorem head (h : Todo P (row :: rows) s) : row ∈ s.ledger.inventory.rows ∧ P row :=
  h.mem row List.mem_cons_self

theorem tail (h : Todo P (row :: rows) s) : Todo P rows s := h.sublist (List.sublist_cons_self _ _)

/-- Writing the first voucher leaves the others alone. -/
theorem tail_update (h : Todo P (row :: rows) s) {g : InvitationRow → InvitationRow} {hkey halt} :
    Todo P rows (s.updateVoucher row.id g hkey halt) := by
  refine ⟨fun row' hrow' => ?_, h.tail.nodup⟩
  obtain ⟨hmem, hP⟩ := h.tail.mem row' hrow'
  have hne : row'.id ≠ row.id := by
    rintro heq
    have hnodup := h.nodup
    rw [List.map_cons, List.nodup_cons] at hnodup
    exact hnodup.1 (heq ▸ List.mem_map_of_mem hrow')
  have hkept : row' ∈ (s.ledger.inventory.update (fun r => r.id = row.id) g hkey halt).rows :=
    Table.mem_update.mpr ⟨row', hmem, by simp [hne]⟩
  exact ⟨hkept, hP⟩

end Todo

theorem map_fst_zip_sublist {α β : Type} (l : List α) (l' : List β) :
    (l.zip l').map Prod.fst <+ l := by
  induction l generalizing l' with
  | nil => exact List.Sublist.refl _
  | cons a l ih =>
    cases l' with
    | nil => exact List.nil_sublist _
    | cons b l' => exact (ih l').cons_cons a

/-- Claims that Platform made about the vouchers of a batch. -/
def Claimed (batch : List (InvitationRow × Option Bool)) (s : State) : Prop :=
  ∀ x ∈ batch, ∀ b, x.2 = some b → .io (.identity x.1.prospectiveIdentityId) (some b) ∈ s.trace

namespace Faucet

variable {f : Faucet} {op : Op} {now : ℤ}

/-! ### Parts of both operations -/

theorem reads_openVoucher (row : InvitationRow) (expiresAt : ℤ) :
    (openVoucher row expiresAt).Quiet Reads := by
  refine Quiet.bind ((quiet_ask _).mpr trivial) fun wif => ?_
  cases wif with
  | ok wif => exact quiet_pure _
  | error e => exact quiet_throw _

theorem reads_platformIdentityExists (row : InvitationRow) :
    (platformIdentityExists row).Quiet Reads := (quiet_ask _).mpr trivial

/-- The answers a batch is worked through with are Platform's. -/
theorem claimed_of_transcript {es : List Answered} {rows : List InvitationRow}
    {claims : List (Option Bool)} {s t : State}
    (h : Transcript (forEach platformIdentityExists rows) es (.ok claims))
    (htrace : t.trace = s.trace ++ es.map Answered.event) : Claimed (rows.zip claims) t := by
  intro x hx b hb
  obtain ⟨es', hsub, h'⟩ := transcript_forEach h x hx
  obtain ⟨a, rfl, hr⟩ := transcript_ask.mp h'
  cases hr
  rw [htrace, ← hb]
  exact List.mem_append_right _ (List.mem_map.mpr ⟨_, hsub List.mem_cons_self, rfl⟩)

/-! ### Issuing -/

theorem mem_priorVouchers {s : State} {deviceHash : String} {row : InvitationRow} :
    row ∈ f.priorVouchers s deviceHash now ↔ row ∈ s.ledger.inventory.rows ∧ row.state = .issued ∧
      row.deviceHash = some deviceHash ∧
      ∃ t, row.issuedAt = some t ∧ t > now - f.cfg.invitations.ttlMs := by
  rw [priorVouchers, (List.perm_insertionSort _ _).mem_iff, List.mem_filter]
  simp only [decide_eq_true_eq, Option.any_eq_true, gt_iff_lt]

theorem issuedRows_answers (es : List Answered) : issuedRows (es.map Answered.event) = [] := by
  rw [issuedRows, List.filterMap_map, List.filterMap_eq_nil_iff]
  intro a _
  rfl

/-- Hearing answers gives nothing out. -/
theorem issuedRows_heard {s t : State} {es : List Answered}
    (htrace : t.trace = s.trace ++ es.map Answered.event) :
    issuedRows t.trace = issuedRows s.trace := by
  rw [htrace, issuedRows_append, issuedRows_answers, List.append_nil]

/-- What a request may be offered does not change while nothing is given to its device but what
the record says, and no signal is counted. -/
theorem MayOffer.mono {input : InvitationIssueRequest} {s t : State} (h : f.MayOffer input now s)
    (hhits : t.ledger.invitationHits = s.ledger.invitationHits)
    (hissued : issuedRows s.trace <+: issuedRows t.trace)
    (hprior : ∀ row ∈ f.priorVouchers t input.deviceHash now,
      row ∈ f.priorVouchers s input.deviceHash now ∨
        row.id ∈ (issuedRows t.trace).map InvitationRow.id) : f.MayOffer input now t := by
  intro hwindow
  obtain ⟨hfresh, hrested⟩ := h hwindow
  refine ⟨fun row hrow => ?_, fun kind hash hsignal => ?_⟩
  · rcases hprior row hrow with hold | hnew
    · exact (hissued.map _).subset (hfresh row hold)
    · exact hnew
  · rw [← hrested kind hash hsignal, State.invitationHitTimes, State.invitationHitTimes, hhits]

theorem MayOffer.of_heard {input : InvitationIssueRequest} {s t : State} {es : List Answered}
    (h : f.MayOffer input now s) (hledger : t.ledger = s.ledger)
    (htrace : t.trace = s.trace ++ es.map Answered.event) : f.MayOffer input now t := by
  refine h.mono (congrArg _ hledger) (issuedRows_heard htrace ▸ List.prefix_rfl) fun row hrow => ?_
  rw [mem_priorVouchers, hledger] at hrow
  exact .inl (mem_priorVouchers.mpr hrow)

/-- Taking a voucher off the shelf without giving it out. -/
theorem MayOffer.retire {input : InvitationIssueRequest} {s : State} (h : f.MayOffer input now s)
    (id : String) {g : InvitationRow → InvitationRow} {hkey halt}
    (hg : ∀ r, (g r).state ≠ .issued) : f.MayOffer input now (s.updateVoucher id g hkey halt) := by
  refine h.mono rfl List.prefix_rfl fun row hrow => ?_
  obtain ⟨hmem, hstate, hdevice⟩ := mem_priorVouchers.mp hrow
  rcases State.mem_updateVoucher.mp hmem with ⟨hold, -⟩ | ⟨r, -, -, rfl⟩
  · exact .inl (mem_priorVouchers.mpr ⟨hold, hstate, hdevice⟩)
  · exact absurd hstate (hg r)

/-- Giving a voucher out, on the record. -/
theorem MayOffer.issue {input : InvitationIssueRequest} {s : State} (h : f.MayOffer input now s)
    (row : InvitationRow) (deviceHash : String) :
    f.MayOffer input now ((s.issueVoucher row.id deviceHash now).note (.issued row)) := by
  have hissued : issuedRows ((s.issueVoucher row.id deviceHash now).note (.issued row)).trace =
      issuedRows s.trace ++ [row] := issuedRows_append _ _
  refine h.mono rfl (hissued ▸ List.prefix_append _ _) fun r hr => ?_
  obtain ⟨hmem, hstate, hdevice⟩ := mem_priorVouchers.mp hr
  rcases State.mem_updateVoucher.mp hmem with ⟨hold, -⟩ | ⟨r₀, -, hid, rfl⟩
  · exact .inl (mem_priorVouchers.mpr ⟨hold, hstate, hdevice⟩)
  · refine .inr (List.mem_map.mpr ⟨row, ?_, hid.symm⟩)
    rw [hissued]
    exact List.mem_append_right _ List.mem_cons_self

/-- A request that passed its checks may be offered vouchers. -/
theorem mayOffer_of_checks {input : InvitationIssueRequest} {s : State}
    (hprior : f.priorVouchers s input.deviceHash now = [])
    (hip : f.signalRetryAfter s .ip input.ipHash now ≤ 0)
    (hdevice : f.signalRetryAfter s .device input.deviceHash now ≤ 0) :
    f.MayOffer input now s := by
  -- a signal with an issuance in the window has to wait a second at least
  have hnone : ∀ kind hash, f.signalRetryAfter s kind hash now ≤ 0 →
      s.invitationHitTimes kind hash (now - f.cfg.invitations.rateWindowMs) = [] := by
    intro kind hash hle
    rw [signalRetryAfter] at hle
    split at hle
    · have : 1 ≤ windowRetryAfter f.cfg.invitations.rateWindowMs now (s.invitationHitTimes kind hash
        (now - f.cfg.invitations.rateWindowMs)) := le_max_left _ _
      omega
    · next hzero => exact List.length_eq_zero_iff.mp (by omega)
  intro _
  refine ⟨fun row hrow => ?_, fun kind hash hsignal => ?_⟩
  · rw [hprior] at hrow
    cases hrow
  · rcases hsignal with heq | heq
    · cases heq
      exact hnone _ _ hip
    · cases heq
      exact hnone _ _ hdevice

/-- What the issuance loop knows: it may go on, and the links are those of the vouchers it gave
out. -/
structure Issuing (f : Faucet) (input : InvitationIssueRequest) (now : ℤ) (b : Batch) (s : State) :
    Prop where
  may : f.MayOffer input now s
  links : b.invitations.map (fun i => (i.txid, i.expiresAt)) =
    (issuedRows s.trace).map fun row => (row.txid, now + f.cfg.invitations.ttlMs)

theorem Issuing.of_heard {input : InvitationIssueRequest} {b : Batch} {s t : State}
    {es : List Answered} (h : f.Issuing input now b s) (hledger : t.ledger = s.ledger)
    (htrace : t.trace = s.trace ++ es.map Answered.event) : f.Issuing input now b t :=
  ⟨h.may.of_heard hledger htrace, (issuedRows_heard htrace).symm ▸ h.links⟩

/-- What the issuance loop has of a batch it works through. -/
structure Offering (batch : List (InvitationRow × Option Bool)) (s : State) : Prop where
  todo : Todo (fun row => row.state = .available) (batch.map Prod.fst) s
  claimed : Claimed batch s

theorem Offering.tail {row : InvitationRow} {claim : Option Bool}
    {batch : List (InvitationRow × Option Bool)} {s t : State}
    (h : Offering ((row, claim) :: batch) s) (hgrow : s.trace <+: t.trace)
    (htodo : Todo (fun row => row.state = .available) (batch.map Prod.fst) t) :
    Offering batch t :=
  ⟨htodo, fun x hx b hb => hgrow.subset (h.claimed x (List.mem_cons_of_mem _ hx) b hb)⟩

/-- Opening a voucher either fails or makes its link. -/
theorem openVoucher_transcript {row : InvitationRow} {expiresAt : ℤ} {es : List Answered}
    {r : Except Thrown IssuedInvitation} (h : Transcript (openVoucher row expiresAt) es r) :
    (∃ e e', r = .error e ∧ ⟨.decryptWif row.secret, .error e'⟩ ∈ es) ∨
      ∃ opened, r = .ok opened ∧ (opened.txid, opened.expiresAt) = (row.txid, expiresAt) := by
  obtain ⟨es₁, r₁, h₁, hrest⟩ := transcript_bind.mp h
  obtain ⟨wif, rfl, rfl⟩ := transcript_ask.mp h₁
  obtain ⟨es₂, rfl, h₂⟩ := hrest
  cases wif with
  | ok wif =>
    obtain ⟨rfl, rfl⟩ := transcript_pure.mp h₂
    exact .inr ⟨_, rfl, rfl⟩
  | error e =>
    obtain ⟨rfl, rfl⟩ := transcript_throw.mp h₂
    exact .inl ⟨_, e, rfl, List.mem_cons_self⟩

/-- Asking Platform about vouchers throws nothing. -/
theorem claims_of_transcript {es : List Answered} {rows : List InvitationRow}
    {r : Except Thrown (List (Option Bool))}
    (h : Transcript (forEach platformIdentityExists rows) es r) : ∃ claims, r = .ok claims := by
  rcases transcript_forEach_cases h with ⟨claims, rfl, -⟩ | ⟨e, rfl, row, -, es', -, h'⟩
  · exact ⟨claims, rfl⟩
  · obtain ⟨a, -, ha⟩ := transcript_ask.mp h'
    cases ha

/-- Working through one candidate: it is claimed, spoiled or issued, or left when Platform is
silent. -/
theorem offer_triple {input : InvitationIssueRequest} {b : Batch} {row : InvitationRow}
    {claim : Option Bool} {batch : List (InvitationRow × Option Bool)} {s₀ s : State}
    (hs : (f.contract (.issueInvitation input) now).guar s₀ s)
    (h : Offering ((row, claim) :: batch) s) (hb : f.Issuing input now b s) :
    wp (f.contract (.issueInvitation input) now) (fun r t₀ t =>
        (f.contract (.issueInvitation input) now).guar t₀ t ∧ Offering batch t ∧
          ∃ b', r = .ok b' ∧ f.Issuing input now b' t)
      (f.offer input now b row claim) s₀ s := by
  obtain ⟨hrow, hstate⟩ := h.todo.head
  cases claim with
  -- the claim could not be looked up: the voucher is passed over
  | none => exact ⟨hs, h.tail List.prefix_rfl h.todo.tail, _, rfl, hb.may, hb.links⟩
  | some claimed =>
    have hans := h.claimed _ List.mem_cons_self claimed rfl
    cases claimed with
    -- somebody has claimed it: it leaves the inventory
    | true =>
      exact ⟨hs.tail (.claim hrow (.inr ⟨input, rfl, hstate, hb.may⟩) hans),
        h.tail List.prefix_rfl h.todo.tail_update, b, rfl,
        hb.may.retire row.id fun r h => (by cases h), hb.links⟩
    -- unclaimed: it is opened for the device
    | false =>
      simp only [offer, wp_bind, wp_attempt]
      refine wp_reads (reads_openVoucher _ _) hs fun es r t₀ t hes hlooks hledger htrace hg => ?_
      have hrow' : row ∈ t.ledger.inventory.rows := hlooks.inventory ▸ hrow
      have htodo := h.todo.of_inventory hlooks.inventory
      have hb := hb.of_heard hledger htrace
      rw [bindPost_ok]
      rcases openVoucher_transcript hes with ⟨e, -, rfl, -⟩ | ⟨opened, rfl, hopened⟩
      · exact ⟨hg.tail (.spoil rfl hb.may hrow' hstate),
          h.tail hlooks.isPrefix htodo.tail_update, _, rfl,
          hb.may.retire row.id fun r h => (by cases h), hb.links⟩
      · have hstep := hg.tail (.issue rfl hb.may hrow' hstate (hlooks.mem hans))
        simp only [wp_bind, wp_modify, bindPost_ok, note, wp_pure]
        have htodo' : Todo (fun row => row.state = .available) (batch.map Prod.fst)
            ((t.issueVoucher row.id input.deviceHash now).note (.issued row)) :=
          htodo.tail_update.of_inventory rfl
        refine ⟨hstep, h.tail (hlooks.isPrefix.trans (List.prefix_append _ _)) htodo', _, rfl,
          hb.may.issue row input.deviceHash, ?_⟩
        have hissued : issuedRows ((t.issueVoucher row.id input.deviceHash now).note
            (.issued row)).trace = issuedRows t.trace ++ [row] := issuedRows_append _ _
        rw [hissued, List.map_append, List.map_append, hb.links, List.map_singleton, hopened,
          List.map_singleton]

theorem wp_offerAll {input : InvitationIssueRequest} {b : Batch}
    {batch : List (InvitationRow × Option Bool)} {s₀ s : State}
    (hs : (f.contract (.issueInvitation input) now).guar s₀ s) (h : Offering batch s)
    (hb : f.Issuing input now b s) :
    wp (f.contract (.issueInvitation input) now)
      (fun r t₀ t => (f.contract (.issueInvitation input) now).guar t₀ t ∧
        ∃ b', r = .ok b' ∧ f.Issuing input now b' t)
      (f.offerAll input now b batch) s₀ s := by
  induction batch generalizing b s₀ s with
  | nil => exact ⟨hs, b, rfl, hb⟩
  | cons x batch ih =>
    obtain ⟨row, claim⟩ := x
    rw [offerAll, wp_bind]
    refine wp_mono (fun r t₀ t hend => ?_) (offer_triple hs h hb)
    obtain ⟨hg, hoff, b', hr, hb'⟩ := hend
    subst hr
    exact ih hg hoff hb'

/-- The candidates are vouchers on offer. -/
theorem candidates_todo (s : State) (limit : ℕ) :
    Todo (fun row => row.state = .available) (f.candidates s limit) s := by
  refine Todo.of_subperm ((List.take_sublist _ _).subperm.trans
    (List.perm_insertionSort _ _).subperm) fun row hrow => ?_
  simp only [decide_eq_true_eq] at hrow
  exact hrow.1

/-- The issuance loop, by induction on its fuel: every round is a batch. -/
theorem wp_issueLoop {input : InvitationIssueRequest} {count fuel : ℕ} {b : Batch} {s₀ s : State}
    (hs : (f.contract (.issueInvitation input) now).guar s₀ s) (hb : f.Issuing input now b s) :
    wp (f.contract (.issueInvitation input) now)
      (fun r t₀ t => (f.contract (.issueInvitation input) now).guar t₀ t ∧
        ∃ b', r = .ok b' ∧ f.Issuing input now b' t)
      (f.issueLoop input count now fuel b) s₀ s := by
  -- each round keeps what the batch promises
  induction fuel generalizing b s₀ s with
  | zero => exact ⟨hs, b, rfl, hb⟩
  | succ fuel ih =>
    unfold issueLoop
    split
    · simp only [wp_bind, wp_read, bindPost_ok]
      split
      · exact ⟨hs, b, rfl, hb⟩
      · rw [wp_bind]
        refine wp_reads (Quiet.forEach fun row _ => reads_platformIdentityExists row) hs
          fun es r t₀ t hes hlooks hledger htrace hg => ?_
        obtain ⟨claims, rfl⟩ := claims_of_transcript hes
        -- the identities are looked up in between, and no row has moved
        have hoff : Offering ((f.candidates s (count - b.invitations.length)).zip claims) t :=
          ⟨((candidates_todo s _).of_inventory hlooks.inventory).sublist (map_fst_zip_sublist _ _),
            claimed_of_transcript hes htrace⟩
        simp only [bindPost_ok, wp_bind]
        refine wp_mono (fun r u₀ u hend => ?_) (wp_offerAll hg hoff (hb.of_heard hledger htrace))
        obtain ⟨hg', b', hr, hb'⟩ := hend
        subst hr
        exact ih hg' hb'
    · exact ⟨hs, b, rfl, hb⟩

/-- What an issuance of fresh vouchers promises about its answer. -/
def FreshEnds (f : Faucet) (input : InvitationIssueRequest) (now : ℤ)
    (r : Except Thrown InvitationIssueResult) (t : State) : Prop :=
  ∃ result, r = .ok result ∧
    ((issuedRows t.trace = [] ∧ f.MayOffer input now t ∧
        ∀ invitations replay, result ≠ .ok invitations replay) ∨
      ∃ invitations, result = .ok invitations false ∧ issuedRows t.trace ≠ [] ∧
        invitations.map (fun i => (i.txid, i.expiresAt)) =
          (issuedRows t.trace).map (fun row => (row.txid, now + f.cfg.invitations.ttlMs)) ∧
        ⟨.ip, input.ipHash, now⟩ ∈ t.ledger.invitationHits ∧
        ⟨.device, input.deviceHash, now⟩ ∈ t.ledger.invitationHits)

theorem wp_issueFresh {input : InvitationIssueRequest} {count : ℕ} {s₀ s : State}
    (hs : (f.contract (.issueInvitation input) now).guar s₀ s) (hmay : f.MayOffer input now s)
    (hnone : issuedRows s.trace = []) :
    wp (f.contract (.issueInvitation input) now)
      (fun r t₀ t => (f.contract (.issueInvitation input) now).guar t₀ t ∧
        f.FreshEnds input now r t)
      (f.issueFresh input count now) s₀ s := by
  simp only [issueFresh, wp_bind, wp_read, bindPost_ok]
  have hbegin : f.Issuing input now ⟨[], false, false⟩ s := ⟨hmay, by rw [hnone]; rfl⟩
  refine wp_mono (fun r t₀ t hend => ?_) (wp_issueLoop hs hbegin)
  obtain ⟨hg, b, hr, hb⟩ := hend
  subst hr
  rw [bindPost_ok]
  split
  -- no voucher could be given
  · next hempty =>
    have hnil : b.invitations = [] := List.isEmpty_iff.mp hempty
    have hgiven : issuedRows t.trace = [] := by
      have hlinks := hb.links
      rw [hnil] at hlinks
      exact List.map_eq_nil_iff.mp hlinks.symm
    have hrefused : ∀ {result : InvitationIssueResult},
        (∀ invitations replay, result ≠ .ok invitations replay) →
        f.FreshEnds input now (.ok result) t :=
      fun hnot => ⟨_, rfl, .inl ⟨hgiven, hb.may, hnot⟩⟩
    split
    · exact ⟨hg, hrefused fun _ _ h => by cases h⟩
    split
    · exact ⟨hg, hrefused fun _ _ h => by cases h⟩
    · exact ⟨hg, hrefused fun _ _ h => by cases h⟩
  -- the hits are counted after the last voucher
  · next hsome =>
    have hgiven : issuedRows t.trace ≠ [] := by
      intro hnil
      have hlinks := hb.links
      rw [hnil, List.map_nil, List.map_eq_nil_iff] at hlinks
      exact hsome (List.isEmpty_iff.mpr hlinks)
    simp only [wp_bind, wp_modify, bindPost_ok, wp_pure]
    refine ⟨hg.tail (.count rfl hb.may hgiven), _, rfl, .inr ⟨_, rfl, hgiven, hb.links, ?_, ?_⟩⟩
    · exact List.mem_append_right _ List.mem_cons_self
    · exact List.mem_append_right _ (List.mem_cons_of_mem _ List.mem_cons_self)

/-- A request that is refused, or replayed, gives nothing out. -/
theorem issueEnds_of_fresh {input : InvitationIssueRequest}
    {r : Except Thrown InvitationIssueResult}
    {t : State} (henabled : f.cfg.invitations.enabled = true) (h : f.FreshEnds input now r t) :
    f.IssueEnds input now (r.map Reply.issueInvitation) t := by
  obtain ⟨result, rfl, ⟨hnone, hmay, hnot⟩ | ⟨invitations, rfl, hgiven, hlinks, hhits⟩⟩ := h
  · refine ⟨fun invitations hr => ?_, fun hsome => absurd hnone hsome,
      fun _ hwindow _ hprior _ => ?_⟩
    · cases hr
      exact absurd rfl (hnot invitations false)
    · -- what the device holds would have been given out by this very request
      obtain ⟨row, hrow⟩ := List.exists_mem_of_ne_nil _ hprior
      have hmem := (hmay hwindow).fresh row hrow
      rw [hnone] at hmem
      cases hmem
  · refine ⟨fun invitations' hr => ?_, fun _ => ⟨henabled, invitations, rfl⟩,
      fun _ _ hnone => absurd hnone hgiven⟩
    cases hr
    refine ⟨fun hnil => hgiven ?_, hlinks, hhits⟩
    rw [hnil, List.map_nil] at hlinks
    exact List.map_eq_nil_iff.mp hlinks.symm

/-- What a loop that opens vouchers again returns. -/
theorem links_of_transcript {prior : List InvitationRow} {ttl : ℤ} {es : List Answered}
    {opened : List IssuedInvitation}
    (h : Transcript (forEach (fun row => openVoucher row (row.issuedAt.getD 0 + ttl)) prior) es
      (.ok opened)) :
    opened.map (fun i => (i.txid, i.expiresAt)) =
      prior.map fun row => (row.txid, row.issuedAt.getD 0 + ttl) := by
  -- all were opened, so they correspond one to one
  have hlen : opened.length = prior.length := by
    rcases transcript_forEach_cases h with ⟨bs, hbs, hlen⟩ | ⟨e, he, -⟩
    · cases hbs
      exact hlen
    · cases he
  refine List.ext_getElem (by simp [hlen]) fun i h₁ h₂ => ?_
  rw [List.length_map] at h₁ h₂
  have hzip : (prior[i], opened[i]) ∈ prior.zip opened := by
    refine List.mem_iff_getElem.mpr ⟨i, ?_, List.getElem_zip⟩
    rw [List.length_zip]
    omega
  obtain ⟨es', -, h'⟩ := transcript_forEach h _ hzip
  rw [List.getElem_map, List.getElem_map]
  rcases openVoucher_transcript h' with ⟨e, -, he, -⟩ | ⟨i', hi', heq⟩
  · cases he
  · cases hi'
    exact heq

/-- A repeat request: the same links again. -/
theorem wp_replay {input : InvitationIssueRequest} {s₀ s : State}
    (hs : (f.contract (.issueInvitation input) now).guar s₀ s) (hnone : issuedRows s.trace = []) :
    wp (f.contract (.issueInvitation input) now)
      (fun r t₀ t => (f.contract (.issueInvitation input) now).guar t₀ t ∧
        f.IssueEnds input now (r.map Reply.issueInvitation) t)
      (f.replay (f.priorVouchers s input.deviceHash now)) s₀ s := by
  simp only [replay, wp_bind, wp_attempt]
  refine wp_reads (Quiet.forEach fun row _ => reads_openVoucher row _) hs
    fun es r t₀ t hes _ hledger htrace hg => ?_
  have hissued : issuedRows t.trace = [] := (issuedRows_heard htrace).trans hnone
  have hsame : f.priorVouchers t input.deviceHash now = f.priorVouchers s input.deviceHash now := by
    rw [priorVouchers, priorVouchers, hledger]
  rw [bindPost_ok]
  -- every secret was opened, or one failed to
  rcases transcript_forEach_cases hes with ⟨opened, rfl, -⟩ | ⟨e, rfl, row, -, es', hsub, h'⟩
  · refine ⟨hg, fun _ hr => (by cases hr), fun hsome => absurd hissued hsome,
      fun _ _ _ _ _ => ⟨opened, rfl, ?_⟩⟩
    rw [hsame]
    exact links_of_transcript hes
  · refine ⟨hg, fun _ hr => (by cases hr), fun hsome => absurd hissued hsome,
      fun _ _ _ _ hdecrypt => ?_⟩
    rcases openVoucher_transcript h' with ⟨e', e'', -, hmem⟩ | ⟨opened, hopened, -⟩
    · refine absurd ?_ (hdecrypt row.secret e'')
      rw [htrace]
      exact List.mem_append_right _ (List.mem_map.mpr ⟨_, hsub hmem, rfl⟩)
    · cases hopened

theorem wp_issueInvitationLocked {input : InvitationIssueRequest} {s : State}
    (hstart : s.trace = []) :
    wp (f.contract (.issueInvitation input) now)
      (fun r t₀ t => (f.contract (.issueInvitation input) now).guar t₀ t ∧
        f.IssueEnds input now (r.map Reply.issueInvitation) t)
      (f.issueInvitationLocked input now) s s := by
  have hprune : (f.contract (.issueInvitation input) now).guar s (s.prune f.cfg now) :=
    .single (.prune hstart)
  have hnone : issuedRows (s.prune f.cfg now).trace = [] := by
    change issuedRows s.trace = []
    rw [hstart]
    rfl
  unfold issueInvitationLocked
  dsimp only
  split
  -- vouchers are disabled: nothing is answered and nothing given
  · next hdisabled =>
    refine ⟨.refl, fun _ hr => (by cases hr), fun hsome => ?_, fun henabled => ?_⟩
    · rw [hstart] at hsome
      exact absurd rfl hsome
    · rw [henabled] at hdisabled
      cases hdisabled
  · next henabled =>
    have henabled : f.cfg.invitations.enabled = true := by simpa using henabled
    -- every way to fresh vouchers passes the same checks
    have hfresh : ∀ {count : ℕ}, f.MayOffer input now (s.prune f.cfg now) →
        wp (f.contract (.issueInvitation input) now)
          (fun r t₀ t => (f.contract (.issueInvitation input) now).guar t₀ t ∧
            f.IssueEnds input now (r.map Reply.issueInvitation) t)
          (f.issueFresh input count now) s (s.prune f.cfg now) := fun hmay =>
      wp_mono (fun r t₀ t hend => ⟨hend.1, issueEnds_of_fresh henabled hend.2⟩)
        (wp_issueFresh hprune hmay hnone)
    simp only [wp_bind, wp_modify, bindPost_ok, wp_read]
    split
    -- a device with vouchers of its own gets them again
    · next hwindow =>
      split
      · exact wp_replay hprune hnone
      next hprior =>
      have hprior : f.priorVouchers (s.prune f.cfg now) input.deviceHash now = [] :=
        List.length_eq_zero_iff.mp (by omega)
      split
      · refine ⟨hprune, fun _ hr => (by cases hr), fun hsome => absurd hnone hsome,
          fun _ _ _ hsome => absurd hprior hsome⟩
      · next hretry =>
        refine hfresh (mayOffer_of_checks hprior ?_ ?_)
        · exact (le_max_left _ _).trans (not_lt.mp hretry)
        · exact (le_max_right _ _).trans (not_lt.mp hretry)
    -- no window: nothing to check
    · next hwindow => exact hfresh fun h => absurd h hwindow

theorem issueInvitation_meets (input : InvitationIssueRequest) (now : ℤ) (s : State) :
    Actor.Meets (M := f.treasury) f.contract f.EndsWell (.issueInvitation input) now s := by
  have hend : ∀ (r : Except Thrown InvitationIssueResult) t₀ t,
      (f.contract (.issueInvitation input) now).guar t₀ t →
      f.IssueEnds input now (r.map Reply.issueInvitation) t →
      Actor.endsIn (M := f.treasury) f.contract f.EndsWell (.issueInvitation input) now
        (r.map Reply.issueInvitation) t₀ t :=
    fun r t₀ t hg hends => ⟨hg, fun _ hop => (by cases hop), fun _ hop => (by
      cases hop
      exact hends)⟩
  simp only [Actor.Meets, program, wp_bind]
  refine wp_mono (fun r t₀ t hlocked => ?_) (wp_issueInvitationLocked rfl)
  obtain ⟨hg, hends⟩ := hlocked
  cases r <;> exact hend _ _ _ hg hends

end Faucet

end DashFaucet

import DashFaucet.Treasury.Invitations
import DashFaucet.Treasury.Settle

/-!
# Batches of vouchers

A request for several vouchers works through the shelf in rounds: it asks Platform about the oldest
vouchers on offer, gives out those that nobody claimed and whose key can be opened, retires the
others, and stops when Platform is silent about one. Each round takes something off the shelf, so
there are no more rounds than vouchers, and nothing is given out that is not returned
(`Faucet.batch_issuance`).

* `settle`: what becomes of a voucher that is worked through, from what the world knows of it.
* `after`: the inventory when some vouchers have been. `run_offerAll`: a round, as one such step.
* `Faucet.Progress`: what the loop has done so far, as the list of vouchers it worked through.
  `Faucet.run_issueLoop`: it is kept round after round, by induction on the fuel; the measure is the
  vouchers on the shelf that are still to come.
-/

namespace DashFaucet

open Async List

/-! ### What the world knows of a voucher -/

section World

variable (world : (q : Query) → Answer q)

/-- What Platform answers about a voucher: whether somebody claimed it, if it answers. -/
def claimOf (row : InvitationRow) : Option Bool := world (.identity row.prospectiveIdentityId)

/-- What decrypting the key of a voucher gives. -/
def wifOf (row : InvitationRow) : Except String String := world (.decryptWif row.secret)

/-- Nobody claimed the voucher and its key can be opened. -/
def isGood (row : InvitationRow) : Bool :=
  decide (claimOf world row = some false) && (wifOf world row).isOk

/-- The link that a good voucher is given out with. -/
def linkOf (expiresAt : ℤ) (row : InvitationRow) : Option IssuedInvitation :=
  match claimOf world row, wifOf world row with
  | some false, .ok wif => some ⟨invitationUri row.txid wif, row.txid, expiresAt⟩
  | _, _ => none

/-- A voucher given to a device. -/
def issuedTo (input : InvitationIssueRequest) (now : ℤ) (row : InvitationRow) : InvitationRow :=
  { row with state := .issued, deviceHash := some input.deviceHash, issuedAt := some now }

/-- What becomes of a voucher that is worked through. -/
def settle (input : InvitationIssueRequest) (now : ℤ) (row : InvitationRow) : InvitationRow :=
  match claimOf world row, wifOf world row with
  | none, _ => row
  | some true, _ => { row with state := .claimed, secret := .erased }
  | some false, .error _ => { row with state := .failed }
  | some false, .ok _ => issuedTo input now row

/-- The inventory when the vouchers of some ids have been worked through. -/
def after (input : InvitationIssueRequest) (now : ℤ) (done : List String)
    (rows : List InvitationRow) : List InvitationRow :=
  rows.map fun row => if row.id ∈ done then settle world input now row else row

end World

variable {world : (q : Query) → Answer q} {input : InvitationIssueRequest} {now : ℤ}
  {row : InvitationRow} {rows : List InvitationRow}

@[simp] theorem settle_id : (settle world input now row).id = row.id := by
  unfold settle
  split <;> rfl

theorem settle_of_none (h : claimOf world row = none) : settle world input now row = row := by
  rw [settle, h]

theorem isGood_iff_linkOf {expiresAt : ℤ} :
    isGood world row = (linkOf world expiresAt row).isSome := by
  unfold isGood linkOf
  cases claimOf world row with
  | none => rfl
  | some claimed =>
    cases claimed with
    | true => rfl
    | false => cases wifOf world row <;> rfl

theorem txid_of_linkOf {expiresAt : ℤ} {link : IssuedInvitation}
    (h : linkOf world expiresAt row = some link) : link.txid = row.txid := by
  unfold linkOf at h
  split at h
  · cases h
    rfl
  · cases h

/-- A good voucher is issued. -/
theorem settle_of_isGood (h : isGood world row = true) :
    settle world input now row = issuedTo input now row := by
  unfold isGood at h
  obtain ⟨hclaim, hok⟩ := Bool.and_eq_true_iff.mp h
  rw [settle, of_decide_eq_true hclaim]
  cases hwif : wifOf world row with
  | error e =>
    rw [hwif] at hok
    cases hok
  | ok wif => rfl

/-- A voucher that is worked through but not good is left, retired or spoiled. -/
theorem settle_of_not_isGood (h : isGood world row = false) :
    settle world input now row = row ∨
      (claimOf world row = some true ∧
        settle world input now row = { row with state := .claimed, secret := .erased }) ∨
      (∃ e, wifOf world row = .error e) ∧
        settle world input now row = { row with state := .failed } := by
  unfold isGood at h
  unfold settle
  cases hclaim : claimOf world row with
  | none => exact .inl rfl
  | some claimed =>
    cases claimed with
    | true => exact .inr (.inl ⟨rfl, rfl⟩)
    | false =>
      cases hwif : wifOf world row with
      | error e => exact .inr (.inr ⟨⟨e, rfl⟩, rfl⟩)
      | ok wif =>
        rw [hclaim, hwif] at h
        cases h

/-- Of the vouchers on offer, the good ones are issued and no others. -/
theorem state_settle_issued (h : row.state = .available) :
    (settle world input now row).state = .issued ↔ isGood world row = true := by
  cases hgood : isGood world row with
  | true =>
    rw [settle_of_isGood hgood]
    exact ⟨fun _ => rfl, fun _ => rfl⟩
  | false =>
    refine ⟨fun hissued => ?_, fun h => by cases h⟩
    rcases @settle_of_not_isGood world input now row hgood with heq | ⟨-, heq⟩ | ⟨-, heq⟩
    · rw [heq, h] at hissued
      cases hissued
    · rw [heq] at hissued
      cases hissued
    · rw [heq] at hissued
      cases hissued

/-! ### The inventory after a while -/

theorem map_id_after {done : List String} :
    (after world input now done rows).map InvitationRow.id = rows.map InvitationRow.id := by
  rw [after, List.map_map]
  refine List.map_congr_left fun row _ => ?_
  show (if row.id ∈ done then _ else row : InvitationRow).id = row.id
  split
  · exact settle_id
  · rfl

theorem mem_after {done : List String} {row' : InvitationRow} :
    row' ∈ after world input now done rows ↔
      ∃ row ∈ rows, (if row.id ∈ done then settle world input now row else row) = row' :=
  List.mem_map

theorem after_nil : after world input now [] rows = rows := by
  rw [after]
  simp

/-- Vouchers are worked through one after the other. -/
theorem after_append {done done' : List String} (h : ∀ id ∈ done, id ∉ done') :
    after world input now (done ++ done') rows =
      after world input now done' (after world input now done rows) := by
  rw [after, after, after, List.map_map]
  refine List.map_congr_left fun row _ => ?_
  show _ = if (if row.id ∈ done then settle world input now row else row).id ∈ done' then
    settle world input now _ else _
  by_cases hdone : row.id ∈ done
  · rw [if_pos (List.mem_append_left _ hdone), if_pos hdone, settle_id, if_neg (h _ hdone)]
  · simp only [List.mem_append, hdone, false_or, if_false]

/-- The vouchers that a request is answered with. -/
def InvitationIssueResult.invitations : InvitationIssueResult → List IssuedInvitation
  | .ok invitations _ => invitations
  | _ => []

namespace Faucet

variable {f : Faucet} {b : Batch} {s : State}

/-! ### A round -/

/-- `s'` is `s` with events added and its inventory worked through for some ids. -/
structure WorkedThrough (world : (q : Query) → Answer q) (input : InvitationIssueRequest) (now : ℤ)
    (done : List String) (s s' : State) : Prop where
  rows : s'.ledger.inventory.rows = after world input now done s.ledger.inventory.rows
  trace : s.trace <+: s'.trace

theorem WorkedThrough.refl : WorkedThrough world input now [] s s where
  rows := after_nil.symm
  trace := List.prefix_rfl

theorem WorkedThrough.trans {s' s'' : State} {done done' : List String}
    (h : WorkedThrough world input now done s s') (h' : WorkedThrough world input now done' s' s'')
    (hapart : ∀ id ∈ done, id ∉ done') : WorkedThrough world input now (done ++ done') s s'' where
  rows := by rw [h'.rows, h.rows, after_append hapart]
  trace := h.trace.trans h'.trace

/-- A voucher that is written is worked through when that is what becomes of it. -/
theorem map_eq_after {g : InvitationRow → InvitationRow} {t : Table InvitationRow}
    (hrow : row ∈ t.rows) (hg : g row = settle world input now row) :
    t.rows.map (fun r => if r.id = row.id then g r else r) =
      after world input now [row.id] t.rows := by
  refine List.map_congr_left fun r hr => ?_
  by_cases hid : r.id = row.id
  · -- ids are unique, so it is the voucher itself
    have heq : r = row := t.eq_of_key hr hrow hid
    rw [if_pos hid, if_pos (List.mem_singleton.mpr hid), heq, hg]
  · rw [if_neg hid, if_neg (mt List.mem_singleton.mp hid)]

theorem WorkedThrough.update {g : InvitationRow → InvitationRow}
    {hkey : ∀ r, Keyed.key (g r) = Keyed.key r} {halt : ∀ r, Keyed.alt (g r) = Keyed.alt r}
    (hrow : row ∈ s.ledger.inventory.rows) (hg : g row = settle world input now row) :
    WorkedThrough world input now [row.id] s (s.updateVoucher row.id g hkey halt) where
  rows := by
    rw [← map_eq_after hrow hg]
    refine List.map_congr_left fun r _ => ?_
    simp only [decide_eq_true_eq]
  trace := List.prefix_rfl

/-- One that is left alone is worked through when nothing becomes of it. -/
theorem WorkedThrough.stay (hrow : row ∈ s.ledger.inventory.rows)
    (h : settle world input now row = row) : WorkedThrough world input now [row.id] s s where
  rows := by
    rw [← map_eq_after (g := id) hrow h.symm]
    simp
  trace := List.prefix_rfl

/-- Events change no voucher. -/
theorem WorkedThrough.note {s' : State} {done : List String} {e : Event}
    (h : WorkedThrough world input now done s s') :
    WorkedThrough world input now done s (s'.note e) where
  rows := h.rows
  trace := h.trace.trans (List.prefix_append _ _)

/-- What the loop has after a voucher was worked through. -/
def offered (f : Faucet) (world : (q : Query) → Answer q) (now : ℤ) (b : Batch)
    (row : InvitationRow) : Batch :=
  match claimOf world row, wifOf world row with
  | none, _ => { b with explorerDown := true }
  | some true, _ => b
  | some false, .error _ => { b with decryptFailed := true }
  | some false, .ok wif =>
    { b with
      invitations := b.invitations ++
        [⟨invitationUri row.txid wif, row.txid, now + f.cfg.invitations.ttlMs⟩] }

theorem invitations_offered : (f.offered world now b row).invitations =
    b.invitations ++ (linkOf world (now + f.cfg.invitations.ttlMs) row).toList := by
  unfold offered linkOf
  cases claimOf world row with
  | none => exact (List.append_nil _).symm
  | some claimed =>
    cases claimed with
    | true => exact (List.append_nil _).symm
    | false =>
      cases wifOf world row with
      | error e => exact (List.append_nil _).symm
      | ok wif => rfl

theorem explorerDown_offered : (f.offered world now b row).explorerDown =
    (b.explorerDown || decide (claimOf world row = none)) := by
  unfold offered
  cases claimOf world row with
  | none => exact (Bool.or_true _).symm
  | some claimed =>
    cases claimed with
    | true => exact (Bool.or_false _).symm
    | false => cases wifOf world row <;> exact (Bool.or_false _).symm

/-- Decrypting a voucher's key, and building its link. -/
theorem run_openVoucher (expiresAt : ℤ) (n : ℕ) :
    Async.run alone.emit (fun _ => world) (openVoucher row expiresAt) n s =
      ((match wifOf world row with
        | .ok wif => .ok ⟨invitationUri row.txid wif, row.txid, expiresAt⟩
        | .error e => .error (.error e)), n + 1,
        s.note (.io (.decryptWif row.secret) (wifOf world row))) := by
  unfold openVoucher
  rw [run_bind]
  show Async.run alone.emit (fun _ => world) (match wifOf world row with
    | .ok wif => (pure ⟨invitationUri row.txid wif, row.txid, expiresAt⟩ : Prog IssuedInvitation)
    | .error e => .throw (.error e)) (n + 1)
      (s.note (.io (.decryptWif row.secret) (wifOf world row))) = _
  cases wifOf world row <;> rfl

/-- Working through one voucher. -/
theorem run_offer (hrow : row ∈ s.ledger.inventory.rows) (n : ℕ) :
    ∃ m t, Async.run alone.emit (fun _ => world) (f.offer input now b row (claimOf world row)) n s =
        (.ok (f.offered world now b row), m, t) ∧
      WorkedThrough world input now [row.id] s t := by
  cases hclaim : claimOf world row with
  | none =>
    rw [offered, hclaim]
    exact ⟨n, s, rfl, .stay hrow (settle_of_none hclaim)⟩
  | some claimed =>
    cases claimed with
    | true =>
      rw [offered, hclaim]
      refine ⟨n, s.claimVoucher row.id, rfl, .update hrow ?_⟩
      rw [settle, hclaim]
    | false =>
      -- unclaimed: what happens next is up to decryption
      rw [offer, run_bind, run_attempt, run_openVoucher, offered, hclaim]
      have hrow' : row ∈ (s.note (.io (.decryptWif row.secret)
          (wifOf world row))).ledger.inventory.rows := hrow
      have hio : WorkedThrough world input now [] s (s.note (.io (.decryptWif row.secret)
        (wifOf world row))) := .note .refl
      cases hwif : wifOf world row with
      | error e =>
        rw [hwif] at hrow' hio
        refine ⟨_, _, rfl, hio.trans (.update hrow' ?_) (by simp)⟩
        rw [settle, hclaim, hwif]
      | ok wif =>
        rw [hwif] at hrow' hio
        refine ⟨_, _, rfl, hio.trans (.note (.update hrow' ?_)) (by simp)⟩
        rw [settle, hclaim, hwif]
        rfl

/-- **A round**: the vouchers of a batch are worked through in order, by induction on the batch.
What comes first leaves the rows of the others as they are. -/
theorem run_offerAll (hids : (rows.map InvitationRow.id).Nodup)
    (hrows : ∀ row ∈ rows, row ∈ s.ledger.inventory.rows) (n : ℕ) :
    ∃ m t, Async.run alone.emit (fun _ => world)
        (f.offerAll input now b (rows.map fun row => (row, claimOf world row))) n s =
        (.ok (rows.foldl (f.offered world now) b), m, t) ∧
      WorkedThrough world input now (rows.map InvitationRow.id) s t := by
  induction rows generalizing b s n with
  | nil => exact ⟨n, s, rfl, .refl⟩
  | cons row rows ih =>
    obtain ⟨hfresh, hids⟩ := List.nodup_cons.mp hids
    obtain ⟨m, t, hrun, hwork⟩ :=
      @run_offer world input now row f b s (hrows row List.mem_cons_self) n
    -- the others are still what they were when they were read
    have hrest : ∀ r ∈ rows, r ∈ t.ledger.inventory.rows := by
      intro r hr
      rw [hwork.rows]
      refine mem_after.mpr ⟨r, hrows r (List.mem_cons_of_mem _ hr), if_neg fun hid => hfresh ?_⟩
      exact List.mem_map.mpr ⟨r, hr, List.mem_singleton.mp hid⟩
    obtain ⟨m', t', hrun', hwork'⟩ := ih (b := f.offered world now b row) hids hrest m
    refine ⟨m', t', ?_, ?_⟩
    · rw [List.map_cons, offerAll, run_bind, hrun, List.foldl_cons]
      exact hrun'
    · refine hwork.trans hwork' fun id hid hmem => hfresh ?_
      rw [List.mem_singleton.mp hid] at hmem
      exact hmem

/-- A question about a voucher, and its answer. -/
def askedAbout (world : (q : Query) → Answer q) (row : InvitationRow) : Event :=
  .io (.identity row.prospectiveIdentityId) (claimOf world row)

/-- Platform is asked about every voucher of a batch. -/
theorem run_claims (n : ℕ) : ∃ m,
    Async.run alone.emit (fun _ => world) (forEach platformIdentityExists rows) n s =
      (.ok (rows.map (claimOf world)), m,
        { s with trace := s.trace ++ rows.map (askedAbout world) }) := by
  induction rows generalizing s n with
  | nil => exact ⟨n, by simp [forEach]; rfl⟩
  | cons row rows ih =>
    obtain ⟨m, hrun⟩ := ih (s := s.note (askedAbout world row)) (n + 1)
    refine ⟨m, ?_⟩
    rw [forEach, run_bind]
    show (match Async.run alone.emit (fun _ => world) (forEach platformIdentityExists rows >>= _)
      (n + 1) (s.note (askedAbout world row)) with
      | r => r) = _
    rw [run_bind, hrun]
    simp [State.note]
    rfl

theorem invitations_foldl : (rows.foldl (f.offered world now) b).invitations =
    b.invitations ++ rows.filterMap (linkOf world (now + f.cfg.invitations.ttlMs)) := by
  induction rows generalizing b with
  | nil => exact (List.append_nil _).symm
  | cons row rows ih =>
    rw [List.foldl_cons, ih, invitations_offered, List.append_assoc, List.filterMap_cons]
    cases linkOf world (now + f.cfg.invitations.ttlMs) row <;> rfl

theorem explorerDown_foldl : (rows.foldl (f.offered world now) b).explorerDown =
    (b.explorerDown || rows.any fun row => decide (claimOf world row = none)) := by
  induction rows generalizing b with
  | nil => exact (Bool.or_false _).symm
  | cons row rows ih =>
    rw [List.foldl_cons, ih, explorerDown_offered, Bool.or_assoc, List.any_cons]

/-! ### The shelf -/

/-- The vouchers on offer, in the order of the inventory. -/
def shelf (f : Faucet) (s : State) : List InvitationRow :=
  s.ledger.inventory.rows.filter fun r =>
    r.state = .available ∧ r.amountSats = some (f.cfg.invitations.amountSats : ℤ)

theorem mem_shelf : row ∈ f.shelf s ↔ row ∈ s.ledger.inventory.rows ∧
    row.state = .available ∧ row.amountSats = some (f.cfg.invitations.amountSats : ℤ) := by
  rw [shelf, List.mem_filter, decide_eq_true_eq]

theorem shelf_ids : ((f.shelf s).map InvitationRow.id).Nodup :=
  s.ledger.inventory.key_nodup.sublist (List.filter_sublist.map _)

/-- The candidates of a round are from the shelf. -/
theorem candidates_subperm (limit : ℕ) : f.candidates s limit <+~ f.shelf s :=
  (List.take_sublist _ _).subperm.trans (List.perm_insertionSort _ _).subperm

theorem length_candidates (limit : ℕ) :
    (f.candidates s limit).length = min limit (f.shelf s).length := by
  rw [candidates, List.length_take, List.length_insertionSort]
  rfl

theorem candidates_ids (limit : ℕ) : ((f.candidates s limit).map InvitationRow.id).Nodup := by
  obtain ⟨l, hperm, hl⟩ := f.candidates_subperm (s := s) limit
  exact (hperm.map _).nodup_iff.mp (shelf_ids.sublist (hl.map _))

/-- A voucher that Platform answered about leaves the shelf. -/
theorem state_settle (h : claimOf world row ≠ none) :
    (settle world input now row).state ≠ .available := by
  unfold settle
  cases hclaim : claimOf world row with
  | none => exact absurd hclaim h
  | some claimed =>
    cases claimed with
    | true => exact fun h => by cases h
    | false => cases wifOf world row <;> exact fun h => by cases h

/-! ### The loop -/

/-- What the loop has done since `s₀`: it worked through `done`, with the links of the good ones,
and the explorer is down if Platform was silent about one of them. -/
structure Progress (f : Faucet) (world : (q : Query) → Answer q) (input : InvitationIssueRequest)
    (count : ℕ) (now : ℤ) (s₀ : State) (b : Batch) (s : State) (done : List InvitationRow) :
    Prop where
  work : WorkedThrough world input now (done.map InvitationRow.id) s₀ s
  shelf : done ⊆ f.shelf s₀
  ids : (done.map InvitationRow.id).Nodup
  asked : ∀ es, s.trace = s₀.trace ++ es → ∀ row ∈ done, askedAbout world row ∈ es
  links : b.invitations = done.filterMap (linkOf world (now + f.cfg.invitations.ttlMs))
  down : b.explorerDown = done.any fun row => decide (claimOf world row = none)
  few : b.invitations.length ≤ count

variable {count : ℕ} {s₀ : State} {done : List InvitationRow}

theorem Progress.start (s : State) :
    f.Progress world input count now s ⟨[], false, false⟩ s [] where
  work := .refl
  shelf := List.nil_subset _
  ids := List.nodup_nil
  asked _ _ _ h := by cases h
  links := rfl
  down := rfl
  few := Nat.zero_le _

/-- Only vouchers on the shelf are worked through, each once. -/
theorem Progress.subperm (h : f.Progress world input count now s₀ b s done) :
    done <+~ f.shelf s₀ :=
  List.subperm_of_subset (List.Nodup.of_map _ h.ids) h.shelf

/-- What is still on the shelf has not been worked through, unless Platform was silent. -/
theorem Progress.mem_shelf_iff (h : f.Progress world input count now s₀ b s done)
    (hup : b.explorerDown = false) :
    row ∈ f.shelf s ↔ row ∈ f.shelf s₀ ∧ row.id ∉ done.map InvitationRow.id := by
  have hanswered : ∀ r ∈ done, claimOf world r ≠ none := by
    intro r hr hnone
    rw [h.down, List.any_eq_false] at hup
    exact hup r hr (decide_eq_true hnone)
  rw [mem_shelf, mem_shelf, h.work.rows, mem_after]
  constructor
  · rintro ⟨⟨r, hr, heq⟩, hstate, hamount⟩
    by_cases hdone : r.id ∈ done.map InvitationRow.id
    · -- it was answered about, so it left the shelf
      rw [if_pos hdone] at heq
      obtain ⟨r', hr', hid⟩ := List.mem_map.mp hdone
      have hsame : r' = r :=
        s₀.ledger.inventory.eq_of_key (mem_shelf.mp (h.shelf hr')).1 hr hid
      rw [← heq] at hstate
      exact absurd hstate (state_settle (hanswered r (hsame ▸ hr')))
    · rw [if_neg hdone] at heq
      subst heq
      exact ⟨⟨hr, hstate, hamount⟩, hdone⟩
  · rintro ⟨⟨hr, hoffer⟩, hdone⟩
    exact ⟨⟨row, hr, if_neg hdone⟩, hoffer⟩

/-- The loop ended for a reason of its own. -/
def Ended (f : Faucet) (count : ℕ) (b : Batch) (s : State) : Prop :=
  b.invitations.length < count → b.explorerDown = false →
    f.candidates s (count - b.invitations.length) = []

/-- The candidates, each with Platform's answer. -/
theorem zip_claims : rows.zip (rows.map (claimOf world)) =
    rows.map fun row => (row, claimOf world row) := by
  rw [List.zip_map_right]
  induction rows with
  | nil => rfl
  | cons row rows ih => simp_all

/-- The vouchers of a round are new. -/
theorem Progress.candidates_fresh (h : f.Progress world input count now s₀ b s done)
    (hup : b.explorerDown = false) (limit : ℕ) :
    ∀ row ∈ f.candidates s limit, row ∈ f.shelf s₀ ∧ row.id ∉ done.map InvitationRow.id :=
  fun _ hrow => (h.mem_shelf_iff hup).mp ((f.candidates_subperm limit).subset hrow)

/-- A round asks about the vouchers on offer and works through them. -/
theorem run_round (limit n : ℕ) : ∃ m t, (∀ k : Batch → Prog Batch,
      Async.run alone.emit (fun _ => world) (do
        let claims ← forEach platformIdentityExists (f.candidates s limit)
        let b ← f.offerAll input now b ((f.candidates s limit).zip claims)
        k b) n s =
      Async.run alone.emit (fun _ => world)
        (k ((f.candidates s limit).foldl (f.offered world now) b)) m t) ∧
    WorkedThrough world input now ((f.candidates s limit).map InvitationRow.id) s t ∧
    s.trace ++ (f.candidates s limit).map (askedAbout world) <+: t.trace := by
  have hrows : ∀ row ∈ f.candidates s limit, row ∈ s.ledger.inventory.rows := fun row hrow =>
    (mem_shelf.mp ((f.candidates_subperm limit).subset hrow)).1
  -- all are asked about first, then offered one after the other
  obtain ⟨n₁, hask⟩ := @run_claims world (f.candidates s limit) s n
  obtain ⟨m, t, hrun, hwork⟩ := @run_offerAll world input now (f.candidates s limit) f b
    { s with trace := s.trace ++ (f.candidates s limit).map (askedAbout world) }
    (candidates_ids limit) hrows n₁
  refine ⟨m, t, fun k => ?_, ⟨hwork.rows, ?_⟩, hwork.trace⟩
  · rw [run_bind, hask]
    show Async.run alone.emit (fun _ => world) (f.offerAll input now b
      ((f.candidates s limit).zip ((f.candidates s limit).map (claimOf world))) >>= k) n₁ _ = _
    rw [zip_claims, run_bind, hrun]
  · exact (List.prefix_append _ _).trans hwork.trace

/-- **One round** goes on from where the loop is. -/
theorem Progress.round {limit : ℕ} {t : State} (h : f.Progress world input count now s₀ b s done)
    (hup : b.explorerDown = false) (hlimit : b.invitations.length + limit ≤ count)
    (hwork : WorkedThrough world input now ((f.candidates s limit).map InvitationRow.id) s t)
    (hasked : s.trace ++ (f.candidates s limit).map (askedAbout world) <+: t.trace) :
    f.Progress world input count now s₀ ((f.candidates s limit).foldl (f.offered world now) b) t
      (done ++ f.candidates s limit) := by
  -- no candidate of this round was handled before
  have hfresh := h.candidates_fresh hup limit
  have hapart : ∀ id ∈ done.map InvitationRow.id,
      id ∉ (f.candidates s limit).map InvitationRow.id := by
    intro id hdone hid
    obtain ⟨row, hrow, rfl⟩ := List.mem_map.mp hid
    exact (hfresh row hrow).2 hdone
  refine
    { work := ?_
      shelf := List.append_subset.mpr ⟨h.shelf, fun row hrow => (hfresh row hrow).1⟩
      ids := ?_
      asked := ?_
      links := ?_
      down := ?_
      few := ?_ }
  · rw [List.map_append]
    exact h.work.trans hwork hapart
  · rw [List.map_append, List.nodup_append']
    exact ⟨h.ids, candidates_ids limit, hapart⟩
  · -- what was asked in the round comes after what was asked before
    intro es hes row hrow
    obtain ⟨es₀, hes₀⟩ := h.work.trace
    obtain ⟨es₁, hes₁⟩ := hasked
    rw [← hes₁, ← hes₀, List.append_assoc, List.append_assoc] at hes
    rw [← List.append_cancel_left hes]
    rcases List.mem_append.mp hrow with hrow | hrow
    · exact List.mem_append_left _ (h.asked es₀ hes₀.symm row hrow)
    · exact List.mem_append_right _ (List.mem_append_left _ (List.mem_map.mpr ⟨row, hrow, rfl⟩))
  · rw [invitations_foldl, h.links, List.filterMap_append]
  · rw [explorerDown_foldl, h.down, List.any_append]
  · -- a round asks for no more vouchers than are missing
    rw [invitations_foldl, List.length_append]
    have hround : (f.candidates s limit).length ≤ limit :=
      (length_candidates limit).trans_le (min_le_left _ _)
    have hlinks := List.length_filterMap_le (linkOf world (now + f.cfg.invitations.ttlMs))
      (f.candidates s limit)
    omega

/-- **The loop** ends, and with any further fuel in the same way: by induction on the fuel, for
which every round takes a voucher off the shelf. -/
theorem run_issueLoop {fuel : ℕ} (h : f.Progress world input count now s₀ b s done)
    (hfuel : (f.shelf s₀).length < done.length + fuel) (n : ℕ) :
    ∃ b' m t done', (∀ extra, Async.run alone.emit (fun _ => world)
        (f.issueLoop input count now (fuel + extra) b) n s = (.ok b', m, t)) ∧
      f.Progress world input count now s₀ b' t done' ∧ f.Ended count b' t := by
  induction fuel generalizing b s done n with
  | zero =>
    -- more would have been worked through than there is on the shelf
    have hdone := h.subperm.length_le
    omega
  | succ fuel ih =>
    by_cases hgo : b.invitations.length < count ∧ !b.explorerDown
    · obtain ⟨hmore, hup⟩ := hgo
      have hup : b.explorerDown = false := by simpa using hup
      by_cases hempty : f.candidates s (count - b.invitations.length) = []
      · -- `break`
        refine ⟨b, n, s, done, fun extra => ?_, h, fun _ _ => hempty⟩
        rw [Nat.succ_add, issueLoop, if_pos ⟨hmore, by rw [hup]; rfl⟩]
        show Async.run alone.emit (fun _ => world)
          (if (f.candidates s (count - b.invitations.length)).isEmpty then pure b else _) n s = _
        rw [if_pos (List.isEmpty_iff.mpr hempty)]
        rfl
      · obtain ⟨m₁, t₁, hrun, hwork, hasked⟩ :=
          @run_round world input now f b s (count - b.invitations.length) n
        have hround := h.round hup (Nat.add_sub_cancel' hmore.le).le hwork hasked
        have hshorter := List.length_pos_iff.mpr hempty
        obtain ⟨b', m, t, done', hloop, hdone, hended⟩ := ih hround
          (by rw [List.length_append]; omega) m₁
        refine ⟨b', m, t, done', fun extra => ?_, hdone, hended⟩
        rw [Nat.succ_add, issueLoop, if_pos ⟨hmore, by rw [hup]; rfl⟩]
        show Async.run alone.emit (fun _ => world)
          (if (f.candidates s (count - b.invitations.length)).isEmpty then pure b else _) n s = _
        rw [if_neg (mt List.isEmpty_iff.mp hempty)]
        exact (hrun _).trans (hloop extra)
    · refine ⟨b, n, s, done, fun extra => ?_, h, fun hmore hup => absurd ⟨hmore, ?_⟩ hgo⟩
      · rw [Nat.succ_add, issueLoop, if_neg hgo]
        rfl
      · rw [hup]
        rfl

/-! ### What the loop did -/

theorem Progress.mem_rows (h : f.Progress world input count now s₀ b s done) (hrow : row ∈ done) :
    row ∈ s₀.ledger.inventory.rows := (mem_shelf.mp (h.shelf hrow)).1

/-- A row is worked through when its id is. -/
theorem Progress.mem_ids_iff (h : f.Progress world input count now s₀ b s done)
    (hrow : row ∈ s₀.ledger.inventory.rows) : row.id ∈ done.map InvitationRow.id ↔ row ∈ done := by
  constructor
  · intro hid
    obtain ⟨r, hr, heq⟩ := List.mem_map.mp hid
    have hsame : r = row := s₀.ledger.inventory.eq_of_key (h.mem_rows hr) hrow heq
    exact hsame ▸ hr
  · exact fun hdone => List.mem_map.mpr ⟨row, hdone, rfl⟩

/-- The links are those of the good vouchers that were worked through. -/
theorem Progress.mem_txids_iff (h : f.Progress world input count now s₀ b s done)
    (hrow : row ∈ s₀.ledger.inventory.rows) :
    row.txid ∈ b.invitations.map IssuedInvitation.txid ↔ row ∈ done ∧ isGood world row = true := by
  rw [h.links]
  constructor
  · intro htxid
    obtain ⟨link, hlink, heq⟩ := List.mem_map.mp htxid
    obtain ⟨r, hr, hgood⟩ := List.mem_filterMap.mp hlink
    -- a transaction belongs to one voucher
    have hsame : r = row := s₀.ledger.inventory.eq_of_alt (h.mem_rows hr) hrow
      ((txid_of_linkOf hgood).symm.trans heq)
    subst hsame
    refine ⟨hr, ?_⟩
    rw [isGood_iff_linkOf, hgood]
    rfl
  · rintro ⟨hdone, hgood⟩
    rw [@isGood_iff_linkOf _ _ (now + f.cfg.invitations.ttlMs)] at hgood
    obtain ⟨link, hlink⟩ := Option.isSome_iff_exists.mp hgood
    exact List.mem_map.mpr ⟨link, List.mem_filterMap.mpr ⟨row, hdone, hlink⟩, txid_of_linkOf hlink⟩

theorem Progress.txids (h : f.Progress world input count now s₀ b s done) :
    (b.invitations.map IssuedInvitation.txid).Nodup := by
  obtain ⟨l, hperm, hl⟩ := h.subperm
  have hdone : (done.map InvitationRow.txid).Nodup :=
    (hperm.map _).nodup_iff.mp
      (s₀.ledger.inventory.alt_nodup.sublist ((hl.trans List.filter_sublist).map _))
  rw [h.links, List.Nodup, List.pairwise_map, List.pairwise_filterMap]
  rw [List.Nodup, List.pairwise_map] at hdone
  refine hdone.imp fun hne link hlink link' hlink' => ?_
  rw [txid_of_linkOf hlink, txid_of_linkOf hlink']
  exact hne

/-- Unless Platform was silent, the loop gave out all it could. -/
theorem Progress.full (h : f.Progress world input count now s₀ b s done)
    (hended : f.Ended count b s) (hup : b.explorerDown = false) :
    b.invitations.length = min count ((f.shelf s₀).countP (isGood world)) := by
  have hlinks : b.invitations.length = done.countP (isGood world) := by
    rw [h.links, List.length_filterMap_eq_countP]
    exact List.countP_congr fun row _ => by rw [isGood_iff_linkOf]
  have hdone := h.subperm.countP_le (isGood world)
  by_cases hmore : b.invitations.length < count
  · -- nothing is left on the shelf, so everything on it was worked through
    have hnone := congrArg List.length (hended hmore hup)
    rw [length_candidates, List.length_nil] at hnone
    have hempty : f.shelf s = [] := List.length_eq_zero_iff.mp (by omega)
    have hall : f.shelf s₀ ⊆ done := by
      intro row hrow
      by_contra hnot
      have hleft := (h.mem_shelf_iff hup).mpr
        ⟨hrow, mt (h.mem_ids_iff (mem_shelf.mp hrow).1).mp hnot⟩
      rw [hempty] at hleft
      cases hleft
    have hshelf := (List.subperm_of_subset (List.Nodup.of_map _ shelf_ids) hall).countP_le
      (isGood world)
    omega
  · have hfew := h.few
    omega

/-- A row of the inventory, and what it has become. -/
structure Became (s t : State) (row row' : InvitationRow) : Prop where
  before : row ∈ s.ledger.inventory.rows
  later : row' ∈ t.ledger.inventory.rows
  id : row'.id = row.id

theorem Progress.became {row' : InvitationRow} (h : f.Progress world input count now s₀ b s done)
    (hrow : Became s₀ s row row') :
    row' = if row ∈ done then settle world input now row else row := by
  have hlater := hrow.later
  rw [h.work.rows, mem_after] at hlater
  obtain ⟨r, hr, heq⟩ := hlater
  have hid : r.id = row.id := by
    rw [← hrow.id, ← heq]
    split
    · exact settle_id.symm
    · rfl
  have hsame : r = row := s₀.ledger.inventory.eq_of_key hr hrow.before hid
  rw [← heq, hsame]
  exact if_congr (h.mem_ids_iff hrow.before) rfl rfl

/-- What became of the inventory of `s` when `links` were handed out. -/
structure Handed (f : Faucet) (world : (q : Query) → Answer q) (input : InvitationIssueRequest)
    (count : ℕ) (now : ℤ) (s t : State) (links : List IssuedInvitation) : Prop where
  /-- The links are to different vouchers. -/
  distinct : (links.map IssuedInvitation.txid).Nodup
  /-- They were on offer, nobody claimed them and their key could be opened. -/
  offered : ∀ link ∈ links, ∃ row ∈ f.shelf s,
    linkOf world (now + f.cfg.invitations.ttlMs) row = some link
  /-- No voucher is lost and none is made up. -/
  ids : t.ledger.inventory.rows.map InvitationRow.id = s.ledger.inventory.rows.map InvitationRow.id
  /-- The vouchers that turned issued are those that are returned. -/
  issued_iff : ∀ row row', Became s t row row' →
    (row.state ≠ .issued ∧ row'.state = .issued ↔ row.txid ∈ links.map IssuedInvitation.txid)
  /-- They went to this device, now. -/
  issued : ∀ row row', Became s t row row' → row.txid ∈ links.map IssuedInvitation.txid →
    row' = issuedTo input now row
  /-- The others stay as they are, but for those that somebody claimed or that cannot be opened. -/
  others : ∀ row row', Became s t row row' → row.txid ∉ links.map IssuedInvitation.txid →
    row' = row ∨
      (claimOf world row = some true ∧ row' = { row with state := .claimed, secret := .erased }) ∨
      (∃ e, wifOf world row = .error e) ∧ row' = { row with state := .failed }
  /-- One about which Platform is silent stays as it is. -/
  silent : ∀ row row', Became s t row row' → claimOf world row = none → row' = row
  /-- When Platform answered whatever it was asked, there are as many links as there can be. -/
  full : (∀ es, t.trace = s.trace ++ es → ∀ identityId, Event.io (.identity identityId) none ∉ es) →
    links.length = min count ((f.shelf s).countP (isGood world))

theorem Progress.handed (h : f.Progress world input count now s₀ b s done)
    (hended : f.Ended count b s) : f.Handed world input count now s₀ s b.invitations where
  distinct := h.txids
  offered := by
    intro link hlink
    rw [h.links] at hlink
    obtain ⟨row, hrow, hgood⟩ := List.mem_filterMap.mp hlink
    exact ⟨row, h.shelf hrow, hgood⟩
  ids := by rw [h.work.rows, map_id_after]
  issued_iff := by
    intro row row' hrow
    rw [h.mem_txids_iff hrow.before, h.became hrow]
    by_cases hdone : row ∈ done
    · have havailable : row.state = .available := (mem_shelf.mp (h.shelf hdone)).2.1
      rw [if_pos hdone, state_settle_issued havailable, havailable]
      exact ⟨fun hgood => ⟨hdone, hgood.2⟩, fun hgood => ⟨by decide, hgood.2⟩⟩
    · rw [if_neg hdone]
      exact ⟨fun hissued => absurd hissued.2 hissued.1, fun hgood => absurd hgood.1 hdone⟩
  issued := by
    intro row row' hrow htxid
    obtain ⟨hdone, hgood⟩ := (h.mem_txids_iff hrow.before).mp htxid
    rw [h.became hrow, if_pos hdone, settle_of_isGood hgood]
  others := by
    intro row row' hrow htxid
    rw [h.became hrow]
    by_cases hdone : row ∈ done
    · rw [if_pos hdone]
      refine settle_of_not_isGood ?_
      by_contra hgood
      exact htxid ((h.mem_txids_iff hrow.before).mpr ⟨hdone, by simpa using hgood⟩)
    · exact .inl (if_neg hdone)
  silent := by
    intro row row' hrow hnone
    rw [h.became hrow, settle_of_none hnone, ite_self]
  full := by
    intro hanswered
    refine h.full hended ?_
    -- a silent answer would be in the trace
    rw [h.down, List.any_eq_false]
    intro row hrow hnone
    obtain ⟨es, hes⟩ := h.work.trace
    refine hanswered es hes.symm row.prospectiveIdentityId ?_
    have hasked := h.asked es hes.symm row hrow
    rw [askedAbout, of_decide_eq_true hnone] at hasked
    exact hasked

/-- What the request is answered with is what the loop has. -/
theorem run_issueFresh {n m : ℕ} {t : State}
    (hloop : Async.run alone.emit (fun _ => world) (f.issueLoop input count now
      (s.ledger.inventory.rows.length + 1) ⟨[], false, false⟩) n s = (.ok b, m, t)) :
    ∃ reply u, Async.run alone.emit (fun _ => world) (f.issueFresh input count now) n s =
        (.ok reply, m, u) ∧
      reply.invitations = b.invitations ∧ u.ledger.inventory = t.ledger.inventory := by
  rw [issueFresh]
  show ∃ reply u, Async.run alone.emit (fun _ => world)
    (f.issueLoop input count now (s.ledger.inventory.rows.length + 1) _ >>= _) n s = _ ∧ _
  rw [run_bind, hloop]
  dsimp only
  -- hits are recorded only where a voucher is given
  by_cases hnone : b.invitations = []
  · rw [hnone, List.isEmpty_nil, if_pos rfl]
    by_cases hdown : b.explorerDown = true
    · rw [if_pos hdown]
      exact ⟨.platformUnavailable, t, rfl, rfl, rfl⟩
    · rw [if_neg hdown]
      by_cases hspoiled : b.decryptFailed = true
      · rw [if_pos hspoiled]
        exact ⟨.error "invitation could not be opened", t, rfl, rfl, rfl⟩
      · rw [if_neg hspoiled]
        exact ⟨.unavailable, t, rfl, rfl, rfl⟩
  · rw [if_neg (mt List.isEmpty_iff.mp hnone)]
    exact ⟨.ok b.invitations false, t.recordInvitationHits input.ipHash input.deviceHash now,
      rfl, rfl, rfl⟩

/-- **Batch issuance loses and duplicates no voucher**, whatever Platform and decryption answer: the
loop ends for a reason of its own, however much fuel it is given, and what the request is answered
with is what the inventory says was given out. -/
theorem batch_issuance (f : Faucet) (world : (q : Query) → Answer q)
    (input : InvitationIssueRequest) (count : ℕ) (now : ℤ) (n : ℕ) (s : State) :
    ∃ b m t, (∀ extra, Async.run alone.emit (fun _ => world) (f.issueLoop input count now
        (s.ledger.inventory.rows.length + 1 + extra) ⟨[], false, false⟩) n s = (.ok b, m, t)) ∧
      f.Ended count b t ∧ f.Handed world input count now s t b.invitations ∧
      ∃ reply u, Async.run alone.emit (fun _ => world) (f.issueFresh input count now) n s =
          (.ok reply, m, u) ∧
        reply.invitations = b.invitations ∧ u.ledger.inventory = t.ledger.inventory := by
  have hfuel : (f.shelf s).length < 0 + (s.ledger.inventory.rows.length + 1) := by
    have hshelf : (f.shelf s).length ≤ _ := List.length_filter_le _ _
    omega
  obtain ⟨b, m, t, done, hloop, hdone, hended⟩ := run_issueLoop (.start s) hfuel n
  exact ⟨b, m, t, hloop, hended, hdone.handed hended, run_issueFresh (hloop 0)⟩

end Faucet

end DashFaucet

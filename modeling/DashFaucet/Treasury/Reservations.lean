import DashFaucet.Treasury.Vouchers

/-!
# Reservations

A voucher that is given out is its holder's for the reservation time: only a voucher on offer is
given out, and one that was given out comes back on offer only once its time has run out.

* `Step.issues`: a step gives out one voucher that is on offer, or none.
* `Reserved`: the invariant; a reservation that has not run out is still in the inventory.
* `Faucet.reservations_exclusive`: no voucher is given out again before its reservation ran out.
-/

namespace DashFaucet

open Async

/-! ### Giving out, step by step -/

/-- A voucher as it is given out. -/
def InvitationRow.givenTo (row : InvitationRow) (deviceHash : String) (now : ℤ) : InvitationRow :=
  { row with state := .issued, deviceHash := some deviceHash, issuedAt := some now }

/-- A step gives out one voucher. -/
structure Gives (f : Faucet) (input : InvitationIssueRequest) (now : ℤ) (row : InvitationRow)
    (s s' : State) : Prop where
  may : f.MayOffer input now s
  onShelf : row ∈ s.ledger.inventory.rows
  onOffer : row.state = .available
  trace : s'.trace = s.trace ++ [.issued row]
  given : row.givenTo input.deviceHash now ∈ s'.ledger.inventory.rows

/-- **A step gives out nothing, or one voucher on offer.** -/
theorem Step.issues {f : Faucet} {op : Op} {now : ℤ} {s s' : State} (h : Step f op now s s') :
    issuedRows s'.trace = issuedRows s.trace ∨
      ∃ input row, op = .issueInvitation input ∧ Gives f input now row s s' := by
  -- the other events give out no voucher
  have hnote : ∀ (s : State) (e : Event), (∀ row, e ≠ .issued row) →
      issuedRows (s.note e).trace = issuedRows s.trace := by
    intro s e he
    have hnone : issuedRows [e] = [] := by
      cases e with
      | issued row => exact absurd rfl (he row)
      | _ => rfl
    change issuedRows (s.trace ++ [e]) = _
    rw [issuedRows_append, hnone, List.append_nil]
  have hspend : ∀ (s : State) (tx : BuiltTx), issuedRows (s.recordSpend tx now).trace =
      issuedRows s.trace := by
    intro s tx
    change issuedRows (s.trace ++ [.locked tx] ++ [.recorded tx]) = _
    rw [issuedRows_append, issuedRows_append]
    exact (List.append_nil _).trans (List.append_nil _)
  cases h with
  | prune | verdict | demand | backfill | claim | recycle | spoil | count => exact .inl rfl
  | admits | view | build | mint => exact .inl (hnote _ _ fun _ he => by cases he)
  | @settle tx outcome locks es pre _ _ hset hans honce hbooks =>
    have hconclude : issuedRows (s.conclude tx outcome locks now).trace = issuedRows s.trace := by
      rw [trace_conclude, issuedRows_append, issuedRows_append]
      cases locks <;> exact (List.append_nil _).trans (List.append_nil _)
    refine .inl (Eq.trans ?_ hconclude)
    -- whatever is booked after the settlement, at most the spend is noted
    cases hbooks with
    | @paid _ payer =>
      cases payer <;> exact hspend _ tx
    | @doubtful _ payer => cases payer <;> rfl
    | unpaid | unmaintained | kept | discarded => rfl
    | maintained | awaited => exact hspend _ tx
  | @confirm row =>
    refine .inl ?_
    split
    · exact hspend s row.built
    · rfl
  | @issue input row _ hop hmay hrow hstate hans =>
    refine .inr ⟨input, row, hop, hmay, hrow, hstate, rfl, ?_⟩
    exact State.mem_updateVoucher.mpr (.inr ⟨row, hrow, rfl, rfl⟩)

/-- A reservation that has not run out is left alone. -/
theorem Edit.reserved {f : Faucet} {op : Op} {now : ℤ} {trace : List Event}
    {row row' : InvitationRow} (h : Edit f op now trace row row') (hstate : row.state = .issued)
    {t : ℤ} (hissued : row.issuedAt = some t) (hage : now < t + f.cfg.invitations.ttlMs) :
    row'.state = .issued ∧ row'.issuedAt = some t ∧ row'.deviceHash = row.deviceHash := by
  -- the reservation has not run out
  have hnot : ¬f.Expired now row := by
    rintro ⟨-, t', hissued', hold⟩
    rw [hissued] at hissued'
    cases hissued'
    omega
  have hother : ∀ {state}, row.state = state → state ≠ .issued → False :=
    fun h hne => hne (h.symm.trans hstate)
  cases h with
  | kept | appraised => exact ⟨hstate, hissued, rfl⟩
  | awaited h | discarded _ h | spoiled h | issued _ h => exact (hother h (by simp)).elim
  | confirmed _ h => rcases h with h | h <;> exact (hother h (by simp)).elim
  | claimed h =>
    rcases h with h | h
    · exact (hother h (by simp)).elim
    · exact absurd h hnot
  | recycled h => exact absurd h hnot

/-! ### The invariant -/

/-- The reservation of `row` by the device of `input` at `t` is in the inventory. -/
def Holds (inventory : Table InvitationRow) (input : InvitationIssueRequest) (t : ℤ)
    (row : InvitationRow) : Prop :=
  ∃ r ∈ inventory.rows, r.id = row.id ∧ r.txid = row.txid ∧ r.state = .issued ∧
    r.deviceHash = some input.deviceHash ∧ r.issuedAt = some t

/-- What the log says of reservations, and what the inventory still knows of them. -/
structure Reserved (f : Faucet) (now : ℤ) (inventory : Table InvitationRow) (log : List Entry) :
    Prop where
  timely : ∀ x ∈ log, x.2.1 ≤ now
  held : ∀ op t row, (op, t, .issued row) ∈ log → now < t + f.cfg.invitations.ttlMs →
    ∃ input, op = .issueInvitation input ∧ Holds inventory input t row
  exclusive : ∀ hist op' t' row', hist ++ [(op', t', .issued row')] <+: log →
    ∀ op t row, (op, t, .issued row) ∈ hist → row.id = row'.id →
      t + f.cfg.invitations.ttlMs ≤ t'

namespace Faucet

variable {f : Faucet}

/-- The invariant about reservations, as one of states. -/
abbrev ReservedOf (f : Faucet) (s : State) : Prop := Reserved f s.now s.ledger.inventory s.log

/-- A reservation is still held after an edit of the inventory. -/
theorem holds_of_edits {op : Op} {s s' : State} (hedits : Edits f op s.now s s')
    {input : InvitationIssueRequest} {t : ℤ} {row : InvitationRow}
    (h : Holds s.ledger.inventory input t row) (hage : s.now < t + f.cfg.invitations.ttlMs) :
    Holds s'.ledger.inventory input t row := by
  obtain ⟨r, hr, hid, htxid, hstate, hdevice, hissued⟩ := h
  obtain ⟨r', hr', hedit⟩ := hedits.result r hr
  obtain ⟨hstate', hissued', hdevice'⟩ := hedit.reserved hstate hissued hage
  have hsame : r'.id = r.id ∧ r'.txid = r.txid := by cases hedit <;> exact ⟨rfl, rfl⟩
  exact ⟨r', hr', hsame.1.trans hid, hsame.2.trans htxid, hstate', hdevice'.trans hdevice, hissued'⟩

/-- The log grows by events that give nothing out, or by one that gives out a voucher on offer. -/
theorem reserved_of_entries {s s' : State} {op : Op} {es : List Event} (hs : ReservedOf f s)
    (hnow : s'.now = s.now) (hlog : s'.log = s.log ++ entries op s.now es)
    (hkeep : ∀ input t row, Holds s.ledger.inventory input t row →
      s.now < t + f.cfg.invitations.ttlMs → Holds s'.ledger.inventory input t row)
    (hes : (∀ row, .issued row ∉ es) ∨ ∃ input row, op = .issueInvitation input ∧
      es = [.issued row] ∧ row ∈ s.ledger.inventory.rows ∧ row.state = .available ∧
      Holds s'.ledger.inventory input s.now row) : ReservedOf f s' := by
  -- the log is older than now, its new end included
  have htime : ∀ x ∈ s'.log, x.2.1 ≤ s'.now := by
    intro x hx
    rw [hlog] at hx
    rw [hnow]
    rcases List.mem_append.mp hx with hx | hx
    · exact hs.timely x hx
    · obtain ⟨e, -, rfl⟩ := List.mem_map.mp hx
      exact le_refl _
  -- a reservation of the past is kept as long as it runs
  have hheld : ∀ op' t row, (op', t, .issued row) ∈ s.log →
      s'.now < t + f.cfg.invitations.ttlMs →
      ∃ input, op' = .issueInvitation input ∧ Holds s'.ledger.inventory input t row := by
    intro op' t row hx hage
    rw [hnow] at hage
    obtain ⟨input, hop, hholds⟩ := hs.held op' t row hx hage
    exact ⟨input, hop, hkeep input t row hholds hage⟩
  rcases hes with hnone | ⟨input, row, hop, rfl, hrow, hstate, hgiven⟩
  -- nothing is given out: every voucher of the log is an old one
  · have hnew : ∀ {op' t row}, ((op', t, .issued row) : Entry) ∉ entries op s.now es := by
      intro op' t row hx
      obtain ⟨e, he, heq⟩ := List.mem_map.mp hx
      cases heq
      exact hnone row he
    refine ⟨htime, fun op' t row hx hage => ?_, fun hist op' t' row' hhist => ?_⟩
    · rw [hlog] at hx
      exact hheld op' t row ((List.mem_append.mp hx).resolve_right hnew) hage
    · rw [hlog] at hhist
      exact hs.exclusive hist op' t' row' (prefix_of_not_mem hhist hnew)
  -- one voucher is given out
  · refine ⟨htime, fun op' t row' hx hage => ?_, fun hist op' t' row' hhist op₀ t row₀ hx hid => ?_⟩
    · rw [hlog] at hx
      rcases List.mem_append.mp hx with hx | hx
      · exact hheld op' t row' hx hage
      · cases List.mem_singleton.mp hx
        exact ⟨input, hop, hgiven⟩
    · rw [hlog] at hhist
      rcases List.prefix_concat_iff.mp hhist with heq | hhist
      · -- the voucher given out now was on offer, so its last reservation ran out
        obtain ⟨rfl, hlast⟩ := List.append_inj' heq rfl
        cases hlast
        by_contra hage
        obtain ⟨input', -, r, hr, hrid, -, hrstate, -⟩ := hs.held op₀ t row₀ hx (by omega)
        obtain rfl : r = row := Table.eq_of_key hr hrow (hrid.trans hid)
        rw [hstate] at hrstate
        cases hrstate
      · exact hs.exclusive hist op' t' row' hhist op₀ t row₀ hx hid

theorem mem_issuedRows_of_append {s s' : State} {es : List Event}
    (htrace : s'.trace = s.trace ++ es)
    (hsame : issuedRows s'.trace = issuedRows s.trace) (row : InvitationRow) :
    .issued row ∉ es := by
  have hnil : issuedRows es = [] := by
    rw [htrace, issuedRows_append] at hsame
    exact List.append_cancel_left (hsame.trans (List.append_nil _).symm)
  intro he
  have hmem := mem_issuedRows.mpr he
  rw [hnil] at hmem
  cases hmem

theorem reserved_step {s s' : State} {op : Op} (hrun : s.running = some op)
    (hstep : Step f op s.now s s') (hs : f.ReservedOf s) : f.ReservedOf s' := by
  have hcont := hstep.continues
  obtain ⟨es, htrace⟩ := hcont.trace
  refine reserved_of_entries hs hcont.now (State.log_append hrun hcont htrace.symm)
    (fun input t row hholds hage => ?_) ?_
  · rcases hstep.vouchers with htouch | ⟨row', hmint⟩
    · exact holds_of_edits htouch.edits hholds hage
    · obtain ⟨r, hr, hrest⟩ := hholds
      refine ⟨r, ?_, hrest⟩
      rw [hmint.rows]
      exact List.mem_append_left _ hr
  · rcases hstep.issues with hsame | ⟨input, row, hop, hgives⟩
    · exact .inl (mem_issuedRows_of_append htrace.symm hsame)
    · have hes : es = [.issued row] := List.append_cancel_left (htrace.trans hgives.trace)
      exact .inr ⟨input, row, hop, hes, hgives.onShelf, hgives.onOffer, _, hgives.given, rfl, rfl,
        rfl, rfl, rfl⟩

theorem reserved_kept : f.Kept f.ReservedOf where
  step op s s' hrun hstep _ hs := reserved_step hrun hstep hs
  -- an answer reserves nothing, and coming and going log nothing
  answer op q a s hrun _ _ hs := by
    have hlog : (s.note (.io q a)).log = s.log ++ entries op s.now [.io q a] :=
      State.log_note hrun _
    refine reserved_of_entries hs rfl hlog (fun _ _ _ hholds _ => hholds) (.inl fun row he => ?_)
    cases List.mem_singleton.mp he
  call c t s _ _ hs := hs
  enter op t s hrun _ hle _ hs := by
    have hlog : (s.enter op t).log = s.log := State.log_enter hrun
    refine ⟨fun x hx => ?_, fun op' t' row hx hage => ?_, fun hist op' t' row' hhist => ?_⟩
    · rw [hlog] at hx
      exact (hs.timely x hx).trans hle
    · rw [hlog] at hx
      exact hs.held op' t' row hx (lt_of_le_of_lt hle hage)
    · rw [hlog] at hhist
      exact hs.exclusive hist op' t' row' hhist
  leave op r s hrun _ _ hs := by
    have hlog : (s.leave op s.now r).log = s.log := State.log_leave hrun
    refine ⟨fun x hx => ?_, fun op' t' row hx hage => ?_, fun hist op' t' row' hhist => ?_⟩
    · rw [hlog] at hx
      exact hs.timely x hx
    · rw [hlog] at hx
      exact hs.held op' t' row hx hage
    · rw [hlog] at hhist
      exact hs.exclusive hist op' t' row' hhist

theorem reserved_initial (clock : ℤ) : f.ReservedOf (.initial clock) :=
  ⟨fun _ hx => (by cases hx), fun _ _ _ hx => (by cases hx),
    fun hist _ _ _ hhist => (by simpa using List.prefix_nil.mp hhist)⟩

/-- **Reservations are exclusive.** In every run, whatever Platform answers: a voucher that was
given out at `t` is not given out again before its reservation ran out; and until then it stays
with the device it was given to. -/
theorem reservations_exclusive {c : Actor.Config f.treasury} (hc : f.Reached c) :
    (∀ pre op t row mid op' t' row' post,
      c.store.log = pre ++ (op, t, .issued row) :: mid ++ (op', t', .issued row') :: post →
      row.id = row'.id → t + f.cfg.invitations.ttlMs ≤ t') ∧
    ∀ op t row, (op, t, .issued row) ∈ c.store.log →
      c.store.now < t + f.cfg.invitations.ttlMs →
      ∃ input, op = .issueInvitation input ∧ Holds c.store.ledger.inventory input t row := by
  obtain ⟨-, h⟩ := reserved_kept.reached reserved_initial hc
  refine ⟨fun pre op t row mid op' t' row' post hlog hid => ?_, h.held⟩
  refine h.exclusive (pre ++ (op, t, .issued row) :: mid) op' t' row' ?_ op t row ?_ hid
  · rw [hlog]
    exact ⟨post, by simp⟩
  · exact List.mem_append_right _ List.mem_cons_self

/-- One voucher, given out, taken back when its time has run out, and given out again. -/
def recycling : List (Actor.Input (minting 1).treasury) :=
  let coins : List Utxo := [⟨"a", 0, 3 * coin, "faucet", some 1⟩]
  let request : Op := .issueInvitation { ipHash := "ip", deviceHash := "device" }
  mintRun 1 .maintainInvitations 1000 8 coins (.error "down") (.ok "sent") ++
    mintRun 1 .maintainInvitations 2000 1 coins (.ok ⟨true, some 5, true⟩) (.ok "sent") ++
    mintRun 1 request 3000 2 coins (.error "down") (.ok "sent") ++
    mintRun 1 .maintainInvitations (3000 + 7 * dayMs) 1 coins (.error "down") (.ok "sent") ++
    mintRun 1 request (3000 + 7 * dayMs) 2 coins (.error "down") (.ok "sent")

/-- The instant of an entry that gives a voucher out, and the voucher. -/
def giving : Entry → Option (ℤ × String)
  | (_, t, .issued row) => some (t, row.id)
  | _ => none

theorem reservations_exclusive_minting : ∃ c, (minting 1).Reached c ∧
    ∃ pre op t row mid op' t' row' post, c.store.log =
        pre ++ (op, t, .issued row) :: mid ++ (op', t', .issued row') :: post ∧
      row.id = row'.id ∧ t + 7 * dayMs ≤ t' := by
  have hrun : (mintAfter 1 recycling).map (fun c => c.store.log.filterMap giving) =
      some [(3000, "uuid"), (3000 + 7 * dayMs, "uuid")] := by
    decide +kernel
  obtain ⟨c, hc, hgiving⟩ := Option.map_eq_some_iff.mp hrun
  have hreached := mintAfter_reached hc
  obtain ⟨pre, ⟨op, t, e⟩, rest, hlog, -, hgives, hrest⟩ := List.filterMap_eq_cons_iff.mp hgiving
  obtain ⟨mid, ⟨op', t', e'⟩, post, rfl, -, hgives', -⟩ := List.filterMap_eq_cons_iff.mp hrest
  cases e with
  | issued row =>
    cases e' with
    | issued row' =>
      simp only [giving, Option.some.injEq, Prod.mk.injEq] at hgives hgives'
      -- one voucher, given twice
      have hid : row.id = row'.id := hgives.2.trans hgives'.2.symm
      have hsplit : c.store.log =
          pre ++ (op, t, .issued row) :: mid ++ (op', t', .issued row') :: post := by
        rw [hlog]
        simp
      exact ⟨c, hreached, pre, op, t, row, mid, op', t', row', post, hsplit, hid,
        (reservations_exclusive hreached).1 pre op t row mid op' t' row' post hsplit hid⟩
    | _ => simp [giving] at hgives'
  | _ => simp [giving] at hgives

end Faucet

end DashFaucet

import DashFaucet.Store.Window
import DashFaucet.Treasury.Reservations

/-!
# Issuances

A request for vouchers is answered in one of two ways when it succeeds: with fresh vouchers, which
counts against its two signals for the length of the window, or with the vouchers its device holds
already, which counts for nothing and changes nothing.

* `State.issuances`: the requests that were given fresh vouchers, told from their answers.
* `Spaced`: the invariant; issuances of one signal are a window apart, those of one device also a
  reservation apart.
* `Faucet.one_issuance_per_window`: so no window holds two of them, and a repeat within the
  reservation is a faithful replay.
-/

namespace DashFaucet

open Async

/-- A request that was given fresh vouchers. -/
structure Issuance where
  input : InvitationIssueRequest
  time : ℤ
  invitations : List IssuedInvitation
  rows : List InvitationRow

/-- The issuance an operation was. -/
def issuance : OpRecord × Except Thrown Reply → Option Issuance
  | (⟨.issueInvitation input, now, trace⟩, .ok (.issueInvitation (.ok invitations false))) =>
    some ⟨input, now, invitations, issuedRows trace⟩
  | _ => none

/-- The issuances so far, oldest first. -/
def State.issuances (s : State) : List Issuance := s.past.filterMap issuance

theorem issuance_eq_some {x : OpRecord × Except Thrown Reply} {a : Issuance} :
    issuance x = some a ↔ x.1.op = .issueInvitation a.input ∧ x.1.now = a.time ∧
      x.2 = .ok (.issueInvitation (.ok a.invitations false)) ∧ issuedRows x.1.trace = a.rows := by
  obtain ⟨⟨op, now, trace⟩, reply⟩ := x
  constructor
  · intro h
    unfold issuance at h
    split at h
    · next heq =>
      cases heq
      cases h
      exact ⟨rfl, rfl, rfl, rfl⟩
    · cases h
  · obtain ⟨input, time, invitations, rows⟩ := a
    intro h
    dsimp only at h
    obtain ⟨rfl, rfl, rfl, rfl⟩ := h
    rfl

/-- The events of an operation that ended are in the log. -/
theorem State.mem_log_of_past {s : State} {x : OpRecord × Except Thrown Reply} (hx : x ∈ s.past)
    {e : Event} (he : e ∈ x.1.trace) : ((x.1.op, x.1.now, e) : Entry) ∈ s.log := by
  refine List.mem_flatMap.mpr ⟨x.1, ?_, List.mem_map_of_mem he⟩
  exact List.mem_append_left _ (List.mem_map_of_mem hx)

/-- Between operations, the log is of operations that ended. -/
theorem State.exists_past_of_mem_log {s : State} (hidle : s.running = none) {op : Op} {t : ℤ}
    {e : Event} (h : (op, t, e) ∈ s.log) :
    ∃ x ∈ s.past, x.1.op = op ∧ x.1.now = t ∧ e ∈ x.1.trace := by
  rw [log_idle hidle] at h
  obtain ⟨x, hx, hmem⟩ := List.mem_flatMap.mp h
  obtain ⟨e', he', heq⟩ := List.mem_map.mp hmem
  cases heq
  exact ⟨x, hx, rfl, rfl, he'⟩

/-- Every hit inside the window survives a step. -/
theorem Step.keeps_hits {f : Faucet} {op : Op} {now : ℤ} {s s' : State} (h : Step f op now s s')
    {hit : InvitationHit} (hhit : hit ∈ s.ledger.invitationHits)
    (hage : now - f.cfg.invitations.rateWindowMs < hit.createdAt) :
    hit ∈ s'.ledger.invitationHits := by
  cases h with
  | prune =>
    -- a hit inside the window is not pruned
    refine List.mem_filter.mpr ⟨hhit, ?_⟩
    simp only [Bool.not_eq_true', decide_eq_false_iff_not, not_lt]
    omega
  | admits | verdict | demand | build | backfill | mint | claim | recycle | spoil | issue =>
    exact hhit
  | @view p address script snapshot immature _ hans hmature =>
    obtain ⟨sp, pe, heq⟩ := Ledger.reconcile_eq (snapshot.utxos.map Utxo.outpoint) now s.ledger
    simp only [State.note, State.withLedger, heq]
    exact hhit
  | @settle tx outcome locks es pre _ _ hset hans honce hbooks =>
    have hconclude : (s.conclude tx outcome locks now).ledger.invitationHits =
        s.ledger.invitationHits := by cases locks <;> rfl
    -- the bookkeeping of a payment touches no hit
    rw [← hconclude] at hhit
    cases hbooks with
    | @paid _ payer => cases payer <;> exact hhit
    | @doubtful _ payer => cases payer <;> exact hhit
    | _ => exact hhit
  | count => exact List.mem_append_left _ hhit
  | @confirm row =>
    split
    · exact hhit
    · exact hhit

namespace Faucet

variable {f : Faucet}

/-! ### The invariant -/

/-- `b` comes a window after `a` if they share a signal, and a reservation after `a` if they share
the device. -/
def Apart (f : Faucet) (a : Issuance) (input : InvitationIssueRequest) (time : ℤ) : Prop :=
  (a.input.ipHash = input.ipHash ∨ a.input.deviceHash = input.deviceHash →
    a.time + f.cfg.invitations.rateWindowMs ≤ time) ∧
  (a.input.deviceHash = input.deviceHash → a.time + f.cfg.invitations.ttlMs ≤ time)

/-- What the answers so far, the log and the hits say of issuances. -/
structure Spaced (f : Faucet) (s : State) : Prop where
  apart : s.issuances.Pairwise fun a b => f.Apart a b.input b.time
  timely : ∀ a ∈ s.issuances, a.time ≤ s.now
  /-- Whoever took a voucher said so. -/
  replied : ∀ x ∈ s.past, ∀ input, x.1.op = .issueInvitation input → issuedRows x.1.trace ≠ [] →
    f.cfg.invitations.enabled = true ∧ ∃ a, issuance x = some a
  links : ∀ a ∈ s.issuances, a.rows ≠ [] ∧ a.invitations.map (fun i => (i.txid, i.expiresAt)) =
    a.rows.map (fun row => (row.txid, a.time + f.cfg.invitations.ttlMs))
  counted : ∀ a ∈ s.issuances, s.now - f.cfg.invitations.rateWindowMs < a.time →
    ⟨.ip, a.input.ipHash, a.time⟩ ∈ s.ledger.invitationHits ∧
    ⟨.device, a.input.deviceHash, a.time⟩ ∈ s.ledger.invitationHits
  /-- Whoever takes a voucher now comes late enough. -/
  taking : ∀ input, s.running = some (.issueInvitation input) → issuedRows s.trace ≠ [] →
    ∀ a ∈ s.issuances, f.Apart a input s.now

/-- The vouchers of an issuance are in the log. -/
theorem mem_log_of_issuance {s : State} {a : Issuance} (ha : a ∈ s.issuances)
    {row : InvitationRow} (hrow : row ∈ a.rows) :
    ((.issueInvitation a.input, a.time, .issued row) : Entry) ∈ s.log := by
  obtain ⟨x, hx, hxa⟩ := List.mem_filterMap.mp ha
  obtain ⟨hop, htime, -, hrows⟩ := issuance_eq_some.mp hxa
  rw [← hrows] at hrow
  have hmem := State.mem_log_of_past hx (mem_issuedRows.mp hrow)
  rwa [hop, htime] at hmem

/-- A request that may be offered vouchers comes late enough after every issuance. -/
theorem apart_of_mayOffer (hw : 0 < f.cfg.invitations.rateWindowMs) {s : State}
    {input : InvitationIssueRequest} (hres : f.ReservedOf s) (hs : f.Spaced s)
    (hrun : s.running = some (.issueInvitation input)) (hmay : f.MayOffer input s.now s)
    {a : Issuance} (ha : a ∈ s.issuances) : f.Apart a input s.now := by
  obtain ⟨hfresh, hrested⟩ := hmay hw
  -- a signal that was counted in the window would have to wait
  have hwait : ∀ kind hash, (kind, hash) = (SignalKind.ip, input.ipHash) ∨
      (kind, hash) = (SignalKind.device, input.deviceHash) →
      s.now - f.cfg.invitations.rateWindowMs < a.time →
      ⟨kind, hash, a.time⟩ ∉ s.ledger.invitationHits := by
    intro kind hash hsignal hage hhit
    have hnone := hrested kind hash hsignal
    have hmem : a.time ∈ s.invitationHitTimes kind hash
        (s.now - f.cfg.invitations.rateWindowMs) := by
      refine List.mem_map.mpr ⟨⟨kind, hash, a.time⟩, List.mem_filter.mpr ⟨hhit, ?_⟩, rfl⟩
      simpa using hage
    rw [hnone] at hmem
    cases hmem
  refine ⟨fun hsame => ?_, fun hdevice => ?_⟩
  · by_contra hage
    obtain ⟨hip, hdev⟩ := hs.counted a ha (by omega)
    rcases hsame with hsame | hsame
    · exact hwait .ip input.ipHash (.inl rfl) (by omega) (hsame ▸ hip)
    · exact hwait .device input.deviceHash (.inr rfl) (by omega) (hsame ▸ hdev)
  · by_contra hage
    by_cases hfirst : issuedRows s.trace = []
    · -- the device would still hold what it was given
      obtain ⟨row, hrow⟩ := List.exists_mem_of_ne_nil _ (hs.links a ha).1
      obtain ⟨input', hop, r, hr, -, -, hstate, hdevice', hissued⟩ :=
        hres.held _ _ _ (mem_log_of_issuance ha hrow) (by omega)
      cases hop
      have hprior : r ∈ f.priorVouchers s input.deviceHash s.now := by
        refine mem_priorVouchers.mpr ⟨hr, hstate, hdevice ▸ hdevice', a.time, hissued, by omega⟩
      have hmem := hfresh r hprior
      rw [hfirst] at hmem
      cases hmem
    -- it has been given vouchers by now, and was checked before the first
    · have := (hs.taking input hrun hfirst a ha).2 hdevice
      omega

/-- What does not touch the answers keeps the issuances apart. -/
theorem spaced_continues {s s' : State} (hs : f.Spaced s) (hpast : s'.past = s.past)
    (hnow : s.now ≤ s'.now)
    (hhits : ∀ hit ∈ s.ledger.invitationHits,
      s'.now - f.cfg.invitations.rateWindowMs < hit.createdAt → hit ∈ s'.ledger.invitationHits)
    (htaking : ∀ input, s'.running = some (.issueInvitation input) → issuedRows s'.trace ≠ [] →
      ∀ a ∈ s.issuances, f.Apart a input s'.now) : f.Spaced s' := by
  have hsame : s'.issuances = s.issuances := congrArg (List.filterMap issuance) hpast
  refine ⟨hsame ▸ hs.apart, fun a ha => ?_, hpast ▸ hs.replied, hsame ▸ hs.links,
    fun a ha hage => ?_, hsame ▸ htaking⟩
  · rw [hsame] at ha
    exact (hs.timely a ha).trans hnow
  · rw [hsame] at ha
    obtain ⟨hip, hdevice⟩ := hs.counted a ha (by omega)
    exact ⟨hhits _ hip hage, hhits _ hdevice hage⟩

theorem spaced_step (hw : 0 < f.cfg.invitations.rateWindowMs) {s s' : State} {op : Op}
    (hrun : s.running = some op) (hstep : Step f op s.now s s') (hres : f.ReservedOf s)
    (hs : f.Spaced s) : f.Spaced s' := by
  have hcont := hstep.continues
  refine spaced_continues hs hcont.past hcont.now.ge
    (fun hit hhit hage => hstep.keeps_hits hhit (hcont.now ▸ hage)) fun input hrun' hsome a ha => ?_
  have hop : op = .issueInvitation input := by
    rw [hcont.running, hrun] at hrun'
    exact Option.some.inj hrun'
  subst hop
  rw [hcont.now]
  rcases hstep.issues with hsame | ⟨input', row, hop, hgives⟩
  · rw [hsame] at hsome
    exact hs.taking input hrun hsome a ha
  · cases hop
    exact apart_of_mayOffer hw hres hs hrun hgives.may ha

/-- An operation ends: its answer says whether it was an issuance. -/
theorem spaced_leave {s : State} {op : Op} {r : Except Thrown Reply} (hrun : s.running = some op)
    (hends : f.EndsWell op s.now r s) (hs : f.Spaced s) : f.Spaced (s.leave op s.now r) := by
  -- the operation under way joins the past, with its issuance if it issued
  have hpast : (s.leave op s.now r).issuances =
      s.issuances ++ (issuance (⟨op, s.now, s.trace⟩, r)).toList := by
    change (s.past ++ [_]).filterMap issuance = _
    rw [List.filterMap_append]
    cases h : issuance (⟨op, s.now, s.trace⟩, r) <;> simp [State.issuances, h]
  have hreplied : ∀ x ∈ (s.leave op s.now r).past, ∀ input, x.1.op = .issueInvitation input →
      issuedRows x.1.trace ≠ [] →
      f.cfg.invitations.enabled = true ∧ ∃ a, issuance x = some a := by
    intro x hx input hop hsome
    rcases List.mem_append.mp hx with hx | hx
    · exact hs.replied x hx input hop hsome
    · rw [List.mem_singleton] at hx
      subst hx
      cases hop
      obtain ⟨henabled, invitations, rfl⟩ := (hends.issue input rfl).replied hsome
      exact ⟨henabled, _, rfl⟩
  cases hnew : issuance (⟨op, s.now, s.trace⟩, r) with
  -- it issued nothing
  | none =>
    have hsame : (s.leave op s.now r).issuances = s.issuances := by
      rw [hpast, hnew]
      exact List.append_nil _
    exact ⟨hsame ▸ hs.apart, hsame ▸ hs.timely, hreplied, hsame ▸ hs.links, hsame ▸ hs.counted,
      fun input hrun' => by cases hrun'⟩
  -- its own issuance is the last: apart from the others, counted and timely
  | some b =>
    obtain ⟨hop, htime, hreply, hrows⟩ := issuance_eq_some.mp hnew
    dsimp only at hop htime hreply hrows
    subst hop hreply
    obtain ⟨hne, hlinks, hip, hdevice⟩ := (hends.issue b.input rfl).given b.invitations rfl
    have hissued : issuedRows s.trace ≠ [] := by
      intro hnil
      rw [hnil] at hlinks
      exact hne (List.map_eq_nil_iff.mp hlinks)
    have hmem : ∀ {a}, a ∈ (s.leave (.issueInvitation b.input) s.now
        (.ok (.issueInvitation (.ok b.invitations false)))).issuances ↔
        a ∈ s.issuances ∨ a = b := by
      intro a
      rw [hpast, hnew, List.mem_append]
      simp
    refine ⟨?_, fun a ha => ?_, hreplied, fun a ha => ?_, fun a ha hage => ?_,
      fun input hrun' => by cases hrun'⟩
    · rw [hpast, hnew, List.pairwise_append]
      refine ⟨hs.apart, List.pairwise_singleton _ _, fun a ha b' hb' => ?_⟩
      rw [Option.toList_some, List.mem_singleton] at hb'
      subst hb'
      rw [← htime]
      exact hs.taking b'.input hrun hissued a ha
    · rcases hmem.mp ha with ha | rfl
      · exact hs.timely a ha
      · exact htime.ge
    · rcases hmem.mp ha with ha | rfl
      · exact hs.links a ha
      · rw [← hrows, ← htime]
        exact ⟨hissued, hlinks⟩
    · rcases hmem.mp ha with ha | rfl
      · exact hs.counted a ha hage
      · rw [← htime]
        exact ⟨hip, hdevice⟩

theorem spaced_kept (hw : 0 < f.cfg.invitations.rateWindowMs) :
    f.KeptUnder f.ReservedOf f.Spaced where
  step op s s' hrun hstep hres hs := spaced_step hw hrun hstep hres hs
  answer op q a s hrun _ hres hs := by
    refine spaced_continues hs rfl (le_refl _) (fun _ hhit _ => hhit) fun input hrun' hsome => ?_
    have hsame : issuedRows (s.note (.io q a)).trace = issuedRows s.trace := by
      change issuedRows (s.trace ++ [.io q a]) = _
      rw [issuedRows_append]
      exact List.append_nil _
    rw [hsame] at hsome
    exact hs.taking input hrun' hsome
  call c t s _ _ hs := ⟨hs.apart, hs.timely, hs.replied, hs.links, hs.counted, hs.taking⟩
  enter op t s hrun _ hle _ hs :=
    spaced_continues hs rfl hle (fun _ hhit _ => hhit) fun _ _ hsome => absurd rfl hsome
  leave op r s hrun hends _ hs := spaced_leave hrun hends hs

/-! ### Who holds a voucher -/

/-- A voucher that is given out was given out by a request of its holder. -/
def Owned (s : State) : Prop :=
  ∀ r ∈ s.ledger.inventory.rows, r.state = .issued → ∃ input t row,
    (.issueInvitation input, t, .issued row) ∈ s.log ∧ row.id = r.id ∧ row.txid = r.txid ∧
      r.deviceHash = some input.deviceHash ∧ r.issuedAt = some t

theorem owned_of_edits {s s' : State} {op : Op} (hrun : s.running = some op)
    (hcont : Continues s s') (hedits : Edits f op s.now s s') (hs : Owned s) : Owned s' := by
  intro r' hr' hstate
  obtain ⟨r, hr, hedit⟩ := hedits.source r' hr'
  have hold : r.state = .issued → r'.id = r.id → r'.txid = r.txid →
      r'.deviceHash = r.deviceHash → r'.issuedAt = r.issuedAt →
      ∃ input t row, (.issueInvitation input, t, .issued row) ∈ s'.log ∧ row.id = r'.id ∧
        row.txid = r'.txid ∧ r'.deviceHash = some input.deviceHash ∧ r'.issuedAt = some t := by
    intro hissued hid htxid hdevice hat
    obtain ⟨input, t, row, hmem, hrow⟩ := hs r hr hissued
    rw [hid, htxid, hdevice, hat]
    exact ⟨input, t, row, (State.log_prefix hrun hcont).subset hmem, hrow⟩
  -- an issued row was issued before, or is in this very step
  cases hedit with
  | kept | appraised => exact hold hstate rfl rfl rfl rfl
  | @issued input hop _ hissued =>
    subst hop
    have hmem := State.mem_log (hcont.running.trans hrun) hissued
    rw [hcont.now] at hmem
    exact ⟨input, s.now, r, hmem, rfl, rfl, rfl, rfl⟩
  | _ => cases hstate

theorem owned_kept : f.Kept Owned where
  step op s s' hrun hstep _ hs := by
    rcases hstep.vouchers with htouch | ⟨row, hmint⟩
    · exact owned_of_edits hrun hstep.continues htouch.edits hs
    · intro r hr hstate
      rw [hmint.rows] at hr
      rcases List.mem_append.mp hr with hr | hr
      · obtain ⟨input, t, row', hmem, hrow⟩ := hs r hr hstate
        exact ⟨input, t, row', (State.log_prefix hrun hstep.continues).subset hmem, hrow⟩
      · -- a new voucher is not issued yet
        rw [List.mem_singleton.mp hr, hmint.state.1] at hstate
        cases hstate
  answer op q a s hrun _ _ hs :=
    owned_of_edits (f := f) hrun (.note (.io q a) s) (.of_eq rfl) hs
  call c t s _ _ hs := hs
  enter op t s hrun _ _ _ hs := by
    intro r hr hstate
    rw [State.log_enter hrun]
    exact hs r hr hstate
  leave op r s hrun _ _ hs := by
    intro r hr hstate
    rw [State.log_leave hrun]
    exact hs r hr hstate

/-! ### Replays -/

/-- No voucher was written and no hit added. -/
def Undisturbed (l l' : Ledger) : Prop :=
  l'.inventory = l.inventory ∧ List.Sublist l'.invitationHits l.invitationHits

/-- A request that may not be offered vouchers disturbs nothing. -/
theorem undisturbed_step {s s' : State} {now : ℤ} {input : InvitationIssueRequest}
    (h : Step f (.issueInvitation input) now s s') (hnot : ¬f.MayOffer input now s) :
    Undisturbed s.ledger s'.ledger := by
  have hsame : Undisturbed s.ledger s.ledger := ⟨rfl, List.Sublist.refl _⟩
  cases h with
  | prune => exact ⟨rfl, List.filter_sublist⟩
  | admits | verdict | demand | build => exact ⟨rfl, List.Sublist.refl _⟩
  | @view p address script snapshot immature _ hans hmature =>
    obtain ⟨sp, pe, heq⟩ := Ledger.reconcile_eq (snapshot.utxos.map Utxo.outpoint) now s.ledger
    simp only [State.note, State.withLedger, heq]
    exact ⟨rfl, List.Sublist.refl _⟩
  | settle _ _ _ hbooks =>
    cases hbooks with
    | paid hop | doubtful hop | unpaid hop | maintained hop | unmaintained hop | awaited hop
    | kept hop | discarded hop => cases hop
  | backfill hop | mint hop | confirm hop | recycle hop => cases hop
  -- a request that may not offer claims nothing
  | claim _ hwhy =>
    rcases hwhy with ⟨hop, -⟩ | ⟨input', hop, -, hmay⟩
    · cases hop
    · cases hop
      exact absurd hmay hnot
  | spoil hop hmay | issue hop hmay | count hop hmay =>
    cases hop
    exact absurd hmay hnot

/-- What becomes, from an idle state `b` on, of the next operation when it is a request of the
device `d`, begun before `deadline`. -/
structure Replaying (f : Faucet) (b : State) (d : String) (deadline : ℤ) (s : State) : Prop where
  past : b.past <+: s.past
  now : b.now ≤ s.now
  waiting : s.past = b.past → s.running = none → s.ledger = b.ledger
  working : s.past = b.past → ∀ input, s.running = some (.issueInvitation input) →
    input.deviceHash = d → s.now < deadline →
    Undisturbed b.ledger s.ledger ∧ issuedRows s.trace = []
  ended : ∀ r reply input, s.past = b.past ++ [(r, reply)] → s.running = none →
    r.op = .issueInvitation input → input.deviceHash = d → r.now < deadline →
    b.now ≤ r.now ∧ Undisturbed b.ledger s.ledger ∧
      ((∀ secret e, .io (.decryptWif secret) (.error e) ∉ r.trace) → ∃ invitations,
        reply = .ok (.issueInvitation (.ok invitations true)) ∧
        invitations.map (fun i => (i.txid, i.expiresAt)) = (f.priorVouchers b d r.now).map
          fun row => (row.txid, row.issuedAt.getD 0 + f.cfg.invitations.ttlMs))

theorem priorVouchers_congr {s t : State} (h : t.ledger.inventory = s.ledger.inventory)
    (d : String) (now : ℤ) : f.priorVouchers t d now = f.priorVouchers s d now := by
  rw [priorVouchers, priorVouchers, h]

theorem replaying_kept (hw : 0 < f.cfg.invitations.rateWindowMs)
    (henabled : f.cfg.invitations.enabled = true) {b : State} {d : String} {deadline : ℤ}
    (hprior : ∀ now, b.now ≤ now → now < deadline → f.priorVouchers b d now ≠ []) :
    f.Kept (f.Replaying b d deadline) where
  step op s s' hrun hstep _ hs := by
    have hcont := hstep.continues
    have hbusy : s'.running = some op := hcont.running.trans hrun
    refine ⟨hcont.past ▸ hs.past, hcont.now ▸ hs.now, fun _ hidle => ?_,
      fun hpast input hrun' hdevice hage => ?_, fun _ _ _ _ hidle => ?_⟩
    · rw [hbusy] at hidle
      cases hidle
    · -- the device holds vouchers already, so it is not offered fresh ones
      rw [hbusy] at hrun'
      cases hrun'
      rw [hcont.now] at hage
      obtain ⟨⟨hinv, hhits⟩, hnone⟩ := hs.working (hcont.past ▸ hpast) input hrun hdevice hage
      have hnot : ¬f.MayOffer input s.now s := by
        intro hmay
        obtain ⟨row, hrow⟩ := List.exists_mem_of_ne_nil _ (hprior s.now hs.now hage)
        rw [← priorVouchers_congr hinv, ← hdevice] at hrow
        have hmem := (hmay hw).fresh row hrow
        rw [hnone] at hmem
        cases hmem
      obtain ⟨hinv', hhits'⟩ := undisturbed_step hstep hnot
      refine ⟨⟨hinv'.trans hinv, hhits'.trans hhits⟩, ?_⟩
      rcases hstep.issues with hsame | ⟨input', row, hop, hgives⟩
      · exact hsame.trans hnone
      · cases hop
        exact absurd hgives.may hnot
    · rw [hbusy] at hidle
      cases hidle
  answer op q a s hrun _ _ hs := by
    refine ⟨hs.past, hs.now, hs.waiting, fun hpast input hrun' hdevice hage => ?_, hs.ended⟩
    obtain ⟨hsame, hnone⟩ := hs.working hpast input hrun' hdevice hage
    -- an answer hands no voucher out
    refine ⟨hsame, ?_⟩
    change issuedRows (s.trace ++ [.io q a]) = _
    rw [issuedRows_append, hnone]
    rfl
  call c t s _ _ hs := ⟨hs.past, hs.now, hs.waiting, hs.working, hs.ended⟩
  enter op t s hrun _ hle _ hs := by
    refine ⟨hs.past, hs.now.trans hle, fun _ hidle => (by cases hidle),
      fun hpast input _ _ _ => ?_, fun _ _ _ _ hidle => (by cases hidle)⟩
    -- what begins now finds the books as they were left
    have hledger : (s.enter op t).ledger = b.ledger := hs.waiting hpast hrun
    rw [hledger]
    exact ⟨⟨rfl, List.Sublist.refl _⟩, rfl⟩
  leave op r s hrun hends _ hs := by
    -- the past got longer than the one the device's replay is about
    have hlonger : (s.leave op s.now r).past = s.past ++ [(⟨op, s.now, s.trace⟩, r)] := rfl
    have hlen := hs.past.length_le
    refine ⟨hs.past.trans (List.prefix_append _ _), hs.now, fun hpast => ?_, fun hpast => ?_,
      fun rec reply input hpast _ hop hdevice hage => ?_⟩
    · have := congrArg List.length (hlonger.symm.trans hpast)
      rw [List.length_append, List.length_singleton] at this
      omega
    · have := congrArg List.length (hlonger.symm.trans hpast)
      rw [List.length_append, List.length_singleton] at this
      omega
    · obtain ⟨hold, hlast⟩ := List.append_inj' (hlonger.symm.trans hpast) rfl
      cases hlast
      dsimp only at hop hage ⊢
      subst hop
      obtain ⟨hsame, hnone⟩ := hs.working hold input hrun hdevice hage
      -- it issued nothing and the device holds something: the contract says it replayed
      refine ⟨hs.now, hsame, fun hdecrypt => ?_⟩
      have hheld : f.priorVouchers s input.deviceHash s.now = f.priorVouchers b d s.now := by
        rw [priorVouchers_congr hsame.1, hdevice]
      obtain ⟨invitations, hreply, hlinks⟩ := (hends.issue input rfl).replayed henabled hw hnone
        (hheld ▸ hprior s.now hs.now hage) hdecrypt
      exact ⟨invitations, hreply, hheld ▸ hlinks⟩

/-- **What a device holds** is what its latest issuance gave it, until that runs out. -/
theorem prior_eq_latest {s : State} (hidle : s.running = none) (hres : f.ReservedOf s)
    (hs : f.Spaced s) (hown : Owned s) {l₁ l₂ : List Issuance} {a : Issuance}
    (hlist : s.issuances = l₁ ++ a :: l₂)
    (hlatest : ∀ b ∈ l₂, b.input.deviceHash ≠ a.input.deviceHash) {now : ℤ} (hle : s.now ≤ now)
    (hage : now < a.time + f.cfg.invitations.ttlMs) (x : String × ℤ) :
    x ∈ (f.priorVouchers s a.input.deviceHash now).map
        (fun row => (row.txid, row.issuedAt.getD 0 + f.cfg.invitations.ttlMs)) ↔
      x ∈ a.invitations.map (fun i => (i.txid, i.expiresAt)) := by
  have ha : a ∈ s.issuances := hlist ▸ List.mem_append_right _ List.mem_cons_self
  have hapart := hs.apart
  rw [hlist, List.pairwise_append] at hapart
  rw [(hs.links a ha).2]
  constructor
  · intro hx
    obtain ⟨r, hr, rfl⟩ := List.mem_map.mp hx
    obtain ⟨hmem, hstate, hdevice, t, hissued, hrecent⟩ := mem_priorVouchers.mp hr
    obtain ⟨input, t', row, hlog, -, htxid, hdevice', hissued'⟩ := hown r hmem hstate
    rw [hissued] at hissued'
    cases hissued'
    have hsame : input.deviceHash = a.input.deviceHash := by
      rw [hdevice] at hdevice'
      exact (Option.some.inj hdevice').symm
    -- the request that took it was an issuance, and it can only be the latest one
    obtain ⟨y, hy, hop, hnow, hrow⟩ := State.exists_past_of_mem_log hidle hlog
    have hsome : issuedRows y.1.trace ≠ [] := List.ne_nil_of_mem (mem_issuedRows.mpr hrow)
    obtain ⟨-, b, hb⟩ := hs.replied y hy input hop hsome
    obtain ⟨hbop, hbtime, -, hbrows⟩ := issuance_eq_some.mp hb
    have hbinput : b.input = input := by
      rw [hop] at hbop
      exact (Op.issueInvitation.inj hbop).symm
    have hbmem : b ∈ s.issuances := List.mem_filterMap.mpr ⟨y, hy, hb⟩
    -- an earlier one of this device is a whole window before `a`, and there is no later one
    have hba : b = a := by
      rw [hlist] at hbmem
      rcases List.mem_append.mp hbmem with hb₁ | hb₂
      · have hearly := (hapart.2.2 b hb₁ a List.mem_cons_self).2 (hbinput ▸ hsame)
        have := hs.timely a ha
        omega
      · rcases List.mem_cons.mp hb₂ with heq | hb₂
        · exact heq
        · exact absurd (hbinput ▸ hsame) (hlatest b hb₂)
    subst hba
    refine List.mem_map.mpr ⟨row, ?_, ?_⟩
    · rw [← hbrows]
      exact mem_issuedRows.mpr hrow
    · rw [htxid, hissued, ← hbtime, hnow]
      rfl
  · intro hx
    obtain ⟨row, hrow, rfl⟩ := List.mem_map.mp hx
    -- what was handed out within its lifetime is still reserved for the device
    obtain ⟨input, hop, r, hr, -, htxid, hstate, hdevice, hissued⟩ :=
      hres.held _ _ _ (mem_log_of_issuance ha hrow) (by omega)
    cases hop
    refine List.mem_map.mpr
      ⟨r, mem_priorVouchers.mpr ⟨hr, hstate, hdevice, a.time, hissued, ?_⟩, ?_⟩
    · omega
    · rw [htxid, hissued]
      rfl

/-- Issuances of one signal are never two in a window. -/
theorem within_issuances_le {l : List Issuance} (h : l.Pairwise fun a b => f.Apart a b.input b.time)
    {p : Issuance → Bool} (hp : ∀ a b, p a = true → p b = true →
      a.input.ipHash = b.input.ipHash ∨ a.input.deviceHash = b.input.deviceHash) (t : ℤ) :
    (Window.within Issuance.time f.cfg.invitations.rateWindowMs t (l.filter p)).length ≤ 1 := by
  have hpair : (Window.within Issuance.time f.cfg.invitations.rateWindowMs t (l.filter p)).Pairwise
      fun a b => f.Apart a b.input b.time :=
    (h.sublist List.filter_sublist).sublist List.filter_sublist
  rcases hwin : Window.within Issuance.time f.cfg.invitations.rateWindowMs t (l.filter p)
    with _ | ⟨a, _ | ⟨b, rest⟩⟩
  · exact Nat.zero_le 1
  · exact le_refl 1
  · -- two of them would be a window apart and inside one
    rw [hwin] at hpair
    have hmem : ∀ c ∈ [a, b], p c = true ∧ t - f.cfg.invitations.rateWindowMs < c.time ∧
        c.time ≤ t := by
      intro c hc
      have hc' : c ∈ Window.within Issuance.time f.cfg.invitations.rateWindowMs t (l.filter p) := by
        rw [hwin]
        rcases List.mem_cons.mp hc with rfl | hc
        · exact List.mem_cons_self
        · rw [List.mem_singleton.mp hc]
          exact List.mem_cons_of_mem _ List.mem_cons_self
      obtain ⟨hfilter, htime⟩ := Window.mem_within.mp hc'
      exact ⟨(List.mem_filter.mp hfilter).2, htime⟩
    obtain ⟨hpa, hlow, -⟩ := hmem a List.mem_cons_self
    obtain ⟨hpb, -, hhigh⟩ := hmem b (List.mem_cons_of_mem _ List.mem_cons_self)
    have hfar := ((List.pairwise_cons.mp hpair).1 b List.mem_cons_self).1 (hp a b hpa hpb)
    omega

/-- **One issuance per window, with faithful replay.** With the window on, in every run: no window
holds two issuances to one IP hash, nor two to one device. And from an idle configuration, when
the next operation is a request by a device whose latest issuance is less than a reservation old
and its decryptions succeed, it is answered as a replay of exactly the vouchers of that issuance,
writes no voucher and adds no hit. -/
theorem one_issuance_per_window (hw : 0 < f.cfg.invitations.rateWindowMs)
    {c : Actor.Config f.treasury} (hc : f.Reached c) :
    (∀ hash t, (Window.within Issuance.time f.cfg.invitations.rateWindowMs t
      (c.store.issuances.filter fun a => a.input.ipHash = hash)).length ≤ 1) ∧
    (∀ hash t, (Window.within Issuance.time f.cfg.invitations.rateWindowMs t
      (c.store.issuances.filter fun a => a.input.deviceHash = hash)).length ≤ 1) ∧
    ∀ is c' l₁ a l₂ r reply input, c.store.running = none →
      f.treasury.exec c is = some c' → c'.store.running = none →
      c'.store.past = c.store.past ++ [(r, reply)] → r.op = .issueInvitation input →
      c.store.issuances = l₁ ++ a :: l₂ → a.input.deviceHash = input.deviceHash →
      (∀ b ∈ l₂, b.input.deviceHash ≠ input.deviceHash) →
      r.now < a.time + f.cfg.invitations.ttlMs →
      (∀ secret e, .io (.decryptWif secret) (.error e) ∉ r.trace) →
      ∃ invitations, reply = .ok (.issueInvitation (.ok invitations true)) ∧
        (∀ x, x ∈ invitations.map (fun i => (i.txid, i.expiresAt)) ↔
          x ∈ a.invitations.map fun i => (i.txid, i.expiresAt)) ∧
        Undisturbed c.store.ledger c'.store.ledger := by
  obtain ⟨-, hres, hs⟩ := (KeptUnder.and reserved_kept (spaced_kept hw)).reached
    (fun clock => ⟨reserved_initial clock, List.Pairwise.nil, fun _ ha => (by cases ha),
      fun _ hx => (by cases hx), fun _ ha => (by cases ha), fun _ ha => (by cases ha),
      fun _ hrun => (by cases hrun)⟩) hc
  refine ⟨fun hash t => within_issuances_le hs.apart (fun a b ha hb => .inl ?_) t,
    fun hash t => within_issuances_le hs.apart (fun a b ha hb => .inr ?_) t, ?_⟩
  · rw [of_decide_eq_true ha, of_decide_eq_true hb]
  · rw [of_decide_eq_true ha, of_decide_eq_true hb]
  · intro is c' l₁ a l₂ r reply input hidle hexec hidle' hpast hop hlist hdevice
      hlatest hage hdecrypt
    obtain ⟨-, hown⟩ := owned_kept.reached (fun clock r hr => by cases hr) hc
    have ha : a ∈ c.store.issuances := hlist ▸ List.mem_append_right _ List.mem_cons_self
    rw [← hdevice] at hlatest
    -- the device holds something as long as the issuance is fresh
    have hheld := fun {now : ℤ} (hle : c.store.now ≤ now)
      (hage : now < a.time + f.cfg.invitations.ttlMs) =>
        prior_eq_latest hidle hres hs hown hlist hlatest hle hage
    have hprior : ∀ now, c.store.now ≤ now → now < a.time + f.cfg.invitations.ttlMs →
        f.priorVouchers c.store a.input.deviceHash now ≠ [] := by
      intro now hle hage' hnil
      obtain ⟨hrows, hlinks⟩ := hs.links a ha
      obtain ⟨row, hrow⟩ := List.exists_mem_of_ne_nil _ hrows
      have hmem := (hheld hle hage' (row.txid, a.time + f.cfg.invitations.ttlMs)).mpr (by
        rw [hlinks]
        exact List.mem_map_of_mem hrow)
      rw [hnil] at hmem
      cases hmem
    -- with invitations switched off nothing would have been issued
    have henabled : f.cfg.invitations.enabled = true := by
      obtain ⟨x, hx, hxa⟩ := List.mem_filterMap.mp ha
      obtain ⟨hxop, -, -, hxrows⟩ := issuance_eq_some.mp hxa
      exact (hs.replied x hx a.input hxop (hxrows ▸ (hs.links a ha).1)).1
    obtain ⟨-, hreplay⟩ := (replaying_kept hw henabled hprior).exec hc hexec
      ⟨List.prefix_rfl, le_refl _, fun _ _ => rfl,
        fun _ input' hrun => (by rw [hidle] at hrun; cases hrun),
        fun r reply input' hpast => absurd hpast (by simp)⟩
    obtain ⟨hle, hsame, hanswer⟩ := hreplay.ended r reply input hpast hidle' hop hdevice.symm hage
    obtain ⟨invitations, hreply, hlinks⟩ := hanswer hdecrypt
    exact ⟨invitations, hreply, fun x => hlinks ▸ hheld hle hage x, hsame⟩

/-- Operations that ended stay on record. -/
theorem past_kept (past : List (OpRecord × Except Thrown Reply)) :
    f.Kept fun s => past <+: s.past where
  step _ _ _ _ hstep _ hs := hstep.continues.past ▸ hs
  answer _ _ _ _ _ _ _ hs := hs
  call _ _ _ _ _ hs := hs
  enter _ _ _ _ _ _ _ hs := hs
  leave _ _ _ _ _ _ hs := hs.trans (List.prefix_append _ _)

/-- Whether a secret could not be decrypted. -/
def undecrypted : Event → Bool
  | .io (.decryptWif _) (.error _) => true
  | _ => false

/-- A voucher is given out, and the same device asks again a second later. -/
theorem one_issuance_per_window_minting : ∃ c c' : Actor.Config (minting 1).treasury,
    (minting 1).Reached c ∧
    c.store.issuances.length = 1 ∧ ∃ r reply, c'.store.past = c.store.past ++ [(r, reply)] ∧
      (∃ invitations, reply = .ok (.issueInvitation (.ok invitations true))) ∧
      Undisturbed c.store.ledger c'.store.ledger := by
  let coins : List Utxo := [⟨"a", 0, 3 * coin, "faucet", some 1⟩]
  let request : InvitationIssueRequest := { ipHash := "ip", deviceHash := "device" }
  let is := mintRun 1 .maintainInvitations 1000 8 coins (.error "down") (.ok "sent") ++
    mintRun 1 .maintainInvitations 2000 1 coins (.ok ⟨true, some 5, true⟩) (.ok "sent") ++
    mintRun 1 (.issueInvitation request) 3000 2 coins (.error "down") (.ok "sent")
  let again := mintRun 1 (.issueInvitation request) 4000 1 coins (.error "down") (.ok "sent")
  have hrun : (mintAfter 1 is).bind
    (fun c => ((minting 1).treasury.exec c again).map fun c' => decide (
      c.store.issuances.map (fun a => (a.input, a.time)) = [(request, 3000)] ∧
      c.store.running = none ∧ c'.store.running = none ∧
      c'.store.past.length = c.store.past.length + 1 ∧
      c'.store.past.getLast?.map (fun x => (x.1.op, x.1.now)) =
        some (.issueInvitation request, 4000) ∧
      ∀ x ∈ c'.store.past, ∀ e ∈ x.1.trace, undecrypted e = false)) = some true := by
    decide +kernel
  obtain ⟨c, hc, hrest⟩ := Option.bind_eq_some_iff.mp hrun
  obtain ⟨c', hexec, h⟩ := Option.map_eq_some_iff.mp hrest
  obtain ⟨hissued, hidle, hidle', hlen, hlast, hdecrypt⟩ := of_decide_eq_true h
  have hreached := mintAfter_reached hc
  obtain ⟨-, more, hmore⟩ := (past_kept c.store.past).exec hreached hexec List.prefix_rfl
  obtain ⟨⟨r, reply⟩, rfl⟩ : ∃ x, more = [x] := by
    rw [← hmore, List.length_append] at hlen
    exact List.length_eq_one_iff.mp (by omega)
  obtain ⟨a, hlist, ha⟩ := List.map_eq_singleton_iff.mp hissued
  rw [← hmore, List.getLast?_concat] at hlast
  obtain ⟨hop, hnow⟩ := Prod.mk.inj (Option.some.inj hlast)
  obtain ⟨hinput, htime⟩ := Prod.mk.inj ha
  -- still inside the window
  have hage : r.now < a.time + (minting 1).cfg.invitations.ttlMs := by
    dsimp only at hnow
    rw [hnow, htime]
    decide
  have hr : (r, reply) ∈ c'.store.past := hmore ▸ List.mem_append_right _ List.mem_cons_self
  obtain ⟨invitations, hreply, -, hsame⟩ := (one_issuance_per_window (by decide) hreached).2.2 again
    c' [] a [] r reply request hidle hexec hidle' hmore.symm hop hlist (congrArg _ hinput)
    (fun b hb => by cases hb) hage fun secret e he => by cases hdecrypt _ hr _ he
  exact ⟨c, c', hreached, by rw [hlist]; rfl, r, reply, hmore.symm, ⟨invitations, hreply⟩, hsame⟩

end Faucet

end DashFaucet

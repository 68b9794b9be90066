import DashFaucet.Treasury.Vouchers

/-!
# The keys of vouchers whose asset lock may be live

The broadcast of an asset lock can come back uncertain, in one pass; whether its key is erased is
decided in another, from fresh answers. The key outlives the doubt until Platform reports the
identity, or until a ChainLock source does not know the transaction and every relay asked rejects
it.

* `Refuted`: a later pass had reason to give an asset lock up.
* `Guarded`: the invariant; a key in doubt is kept unless its identity exists or it was refuted.
* `Faucet.voucher_key_kept`: it holds in every run.
-/

namespace DashFaucet

open Async

/-! ### What the log says of keys -/

/-- The vouchers minted, in order. -/
def mintedRows (log : List Entry) : List InvitationRow :=
  log.filterMap fun
    | (_, _, .minted row) => some row
    | _ => none

/-- The asset locks whose broadcast a pass left uncertain. -/
def unsureLocks (log : List Entry) : List BuiltTx :=
  log.filterMap fun
    | (.maintainInvitations, _, .settled tx (.failed _ true)) => some tx
    | _ => none

/-- The identities Platform reported as existing. -/
def existing (log : List Entry) : List String :=
  log.filterMap fun
    | (_, _, .io (.identity id) (some true)) => some id
    | _ => none

theorem mem_mintedRows {log : List Entry} {row : InvitationRow} :
    row ∈ mintedRows log ↔ ∃ op t, (op, t, .minted row) ∈ log := by
  constructor
  · intro h
    obtain ⟨⟨op, t, e⟩, hx, hrow⟩ := List.mem_filterMap.mp h
    cases e with
    | minted r =>
      cases hrow
      exact ⟨op, t, hx⟩
    | _ => cases hrow
  · rintro ⟨op, t, hx⟩
    exact List.mem_filterMap.mpr ⟨_, hx, rfl⟩

theorem mem_existing_of_mem {log : List Entry} {op : Op} {t : ℤ} {id : String}
    (h : (op, t, .io (.identity id) (some true)) ∈ log) : id ∈ existing log :=
  List.mem_filterMap.mpr ⟨_, h, rfl⟩

/-- In one pass, a ChainLock source did not know the asset lock, and then every relay that was
asked to broadcast it again rejected it. -/
def Refuted (row₀ : InvitationRow) (es : List Entry) : Prop :=
  ∃ l₁ l₂ t p status post result,
    es = l₁ ++ entries .maintainInvitations t (.io (.chainLock p row₀.txid) (.ok status) :: post ++
      [.settled row₀.built (.failed result false)]) ++ l₂ ∧
    p.isEvonode = false ∧ status.known = false ∧
    ∀ o ∈ relayOutcomes row₀.built.hex (answers post), Rejects o

theorem Refuted.append {row₀ : InvitationRow} {es : List Entry} (h : Refuted row₀ es)
    (es' : List Entry) : Refuted row₀ (es ++ es') := by
  obtain ⟨l₁, l₂, t, p, status, post, result, rfl, hrest⟩ := h
  exact ⟨l₁, l₂ ++ es', t, p, status, post, result, by simp, hrest⟩

/-! ### The invariant -/

/-- The key of the voucher minted as `row₀` is kept as long as it may be needed, `post` being what
happened since its asset lock was left in doubt. -/
def KeyKept (inventory : Table InvitationRow) (log : List Entry) (row₀ : InvitationRow)
    (post : List Entry) : Prop :=
  ∃ row ∈ inventory.rows, Descends row₀ row ∧
    (row.secret = row₀.secret ∨ row₀.prospectiveIdentityId ∈ existing log ∨ Refuted row₀ post)

/-- What the inventory keeps of the vouchers in the log. -/
structure Guarded (inventory : Table InvitationRow) (log : List Entry) : Prop where
  txid : ∀ row ∈ inventory.rows, row.txid = row.built.txid
  stored : ∀ row₀ ∈ mintedRows log, ∃ row ∈ inventory.rows, Descends row₀ row
  settled : ∀ t tx outcome, (.maintainInvitations, t, .settled tx outcome) ∈ log →
    ∃ row ∈ inventory.rows, row.built = tx
  /-- A voucher is minted before its asset lock is settled. -/
  fresh : ∀ hist op t row₀, hist ++ [(op, t, .minted row₀)] <+: log →
    ∀ t' tx outcome, (.maintainInvitations, t', .settled tx outcome) ∈ hist →
      tx.txid ≠ row₀.built.txid
  safe : ∀ pre t tx result post,
    log = pre ++ (.maintainInvitations, t, .settled tx (.failed result true)) :: post →
    ∀ row₀ ∈ mintedRows log, row₀.built = tx → KeyKept inventory log row₀ post

/-- What becomes of a key in one edit: it is kept, or Platform knows the identity, or the asset
lock is given up. -/
theorem Edit.secret {f : Faucet} {op : Op} {now : ℤ} {trace : List Event} {row row' : InvitationRow}
    (h : Edit f op now trace row row') : row'.secret = row.secret ∨
      .io (.identity row.prospectiveIdentityId) (some true) ∈ trace ∨
      op = .maintainInvitations ∧ ∃ result e pre post,
        trace = pre ++ e :: post ++ [.settled row.built (.failed result false)] ∧
        Unsettled post ∧ (∀ o ∈ relayOutcomes row.built.hex (answers post), Rejects o) ∧
        (e = .minted row ∨ ∃ p status, p.isEvonode = false ∧
          e = .io (.chainLock p row.txid) (.ok status) ∧ status.known = false) := by
  cases h with
  | claimed _ hans => exact .inr (.inl hans)
  | discarded hop _ htrace hpost hrejects hwhy =>
    exact .inr (.inr ⟨hop, _, _, _, _, htrace, hpost, hrejects, hwhy⟩)
  | _ => exact .inl rfl

namespace Faucet

variable {f : Faucet}

/-- The invariant about keys, as one of states. -/
abbrev GuardedOf (s : State) : Prop := Guarded s.ledger.inventory s.log

/-- An edit keeps a key that has to be kept. `hist` is what was logged before the record. -/
theorem keyKept_of_edit {s s' : State} {op : Op} {hist : List Entry}
    (hlog : s'.log = hist ++ entries op s'.now s'.trace)
    (hedits : Edits f op s'.now s s')
    (hfresh : ∀ hist' op' t row₀, hist' ++ [(op', t, .minted row₀)] <+: s'.log →
      ∀ t' tx outcome, (.maintainInvitations, t', .settled tx outcome) ∈ hist' →
        tx.txid ≠ row₀.built.txid)
    {row₀ : InvitationRow} {pre post post' : List Entry} {t : ℤ} {result : PayoutResult}
    (hsplit : s'.log =
      pre ++ (.maintainInvitations, t, .settled row₀.built (.failed result true)) :: post')
    (hpost : post <+: post') (hsub : existing s.log ⊆ existing s'.log)
    (h : KeyKept s.ledger.inventory s.log row₀ post) :
    KeyKept s'.ledger.inventory s'.log row₀ post' := by
  obtain ⟨row, hrow, hdesc, hkept⟩ := h
  obtain ⟨row', hrow', hedit⟩ := hedits.result row hrow
  refine ⟨row', hrow', hdesc.edit hedit, ?_⟩
  rcases hkept with hsecret | hexists | hrefuted
  -- the secret is still there: it was kept, or the edit gave its reason to drop it
  · rcases hedit.secret with hsame | hans |
      ⟨rfl, result', e, before, after, htrace, hun, hrejects, hwhy⟩
    · exact .inl (hsame.trans hsecret)
    · have hmem :
          (op, s'.now, .io (.identity row₀.prospectiveIdentityId) (some true)) ∈ s'.log := by
        rw [hlog, ← hdesc.identity]
        exact List.mem_append_right _ (List.mem_map_of_mem hans)
      exact .inr (.inl (mem_existing_of_mem hmem))
    · -- given up: the doubt is older than the event before the broadcast
      rw [hdesc.built] at htrace hrejects
      have hlog' : s'.log = (hist ++ entries .maintainInvitations s'.now before) ++
          entries .maintainInvitations s'.now
            (e :: after ++ [.settled row₀.built (.failed result' false)]) := by
        rw [hlog, htrace]
        simp
      -- the doubt is no event of this operation's end
      have hnot : ((.maintainInvitations, t, .settled row₀.built (.failed result true)) : Entry) ∉
          entries .maintainInvitations s'.now
            (e :: after ++ [.settled row₀.built (.failed result' false)]) := by
        intro hx
        obtain ⟨e', he', heq⟩ := List.mem_map.mp hx
        cases heq
        rcases List.mem_append.mp he' with he' | he'
        · rcases List.mem_cons.mp he' with rfl | he'
          · rcases hwhy with h | ⟨_, _, _, h, _⟩ <;> cases h
          · exact hun _ _ he'
        · cases List.mem_singleton.mp he'
      obtain ⟨between, hbefore, rfl⟩ := split_of_not_mem (hlog'.symm.trans hsplit) hnot
      rcases hwhy with rfl | ⟨p, status, hconf, rfl, hunknown⟩
      · -- a voucher is not settled before it is minted
        have hfront : (hist ++ entries .maintainInvitations s'.now before) ++
            [(.maintainInvitations, s'.now, .minted row)] <+: s'.log := by
          rw [hlog']
          exact ⟨_, List.append_assoc ..⟩
        refine absurd (congrArg BuiltTx.txid hdesc.built).symm
          (hfresh _ _ _ _ hfront t row₀.built (.failed result true) ?_)
        rw [hbefore]
        exact List.mem_append_right _ List.mem_cons_self
      · rw [hdesc.txid]
        exact .inr (.inr ⟨between, [], s'.now, p, status, after, result', by simp, hconf, hunknown,
          hrejects⟩)
  -- a reason given before is kept
  · exact .inr (.inl (hsub hexists))
  · obtain ⟨more, rfl⟩ := hpost
    exact .inr (.inr (hrefuted.append more))

/-- What steps that mint nothing keep of the keys. -/
theorem guarded_of_touches {s s' : State} {op : Op} (hrun : s.running = some op)
    (hcont : Continues s s') (h : Touches f op s.now s s') (hs : GuardedOf s) : GuardedOf s' := by
  obtain ⟨es, htrace, hminted, hsettled⟩ := h.events
  have hlog : s'.log = s.log ++ entries op s.now es := State.log_append hrun hcont htrace
  have hrecord : s'.log = s'.pastLog ++ entries op s'.now s'.trace :=
    State.log_running (hcont.running.trans hrun)
  have hnow : s'.now = s.now := hcont.now
  -- nothing is minted, so every minted row is an old one
  have hold : ∀ {op' t row₀}, ((op', t, .minted row₀) : Entry) ∉ entries op s.now es := by
    intro op' t row₀ hx
    obtain ⟨e, he, heq⟩ := List.mem_map.mp hx
    cases heq
    exact hminted row₀ he
  have hrows : ∀ row₀ ∈ mintedRows s'.log, row₀ ∈ mintedRows s.log := by
    intro row₀ hrow₀
    obtain ⟨op', t, hx⟩ := mem_mintedRows.mp hrow₀
    rw [hlog] at hx
    exact mem_mintedRows.mpr ⟨op', t, (List.mem_append.mp hx).resolve_right hold⟩
  have hbuilt : ∀ row ∈ s.ledger.inventory.rows, ∃ row' ∈ s'.ledger.inventory.rows,
      row'.built = row.built := by
    intro row hrow
    obtain ⟨row', hrow', hedit⟩ := h.edits.result row hrow
    exact ⟨row', hrow', by cases hedit <;> rfl⟩
  have htxid : ∀ row ∈ s'.ledger.inventory.rows, row.txid = row.built.txid := by
    intro row' hrow'
    obtain ⟨row, hrow, hedit⟩ := h.edits.source row' hrow'
    have hrow := hs.txid row hrow
    cases hedit <;> exact hrow
  -- every voucher that was ever minted has its row, edited or not
  have hstored : ∀ row₀ ∈ mintedRows s'.log, ∃ row ∈ s'.ledger.inventory.rows,
      Descends row₀ row := by
    intro row₀ hrow₀
    obtain ⟨row, hrow, hdesc⟩ := hs.stored row₀ (hrows row₀ hrow₀)
    obtain ⟨row', hrow', hedit⟩ := h.edits.result row hrow
    exact ⟨row', hrow', hdesc.edit hedit⟩
  have hfresh : ∀ hist op' t row₀, hist ++ [(op', t, .minted row₀)] <+: s'.log →
      ∀ t' tx outcome, (.maintainInvitations, t', .settled tx outcome) ∈ hist →
        tx.txid ≠ row₀.built.txid := by
    intro hist op' t row₀ hhist
    rw [hlog] at hhist
    exact hs.fresh hist op' t row₀ (prefix_of_not_mem hhist hold)
  refine ⟨htxid, hstored, fun t tx outcome hx => ?_, hfresh,
    fun pre t tx result post hsplit row₀ hrow₀ htx => ?_⟩
  · rw [hlog] at hx
    rcases List.mem_append.mp hx with hx | hx
    · obtain ⟨row, hrow, rfl⟩ := hs.settled t tx outcome hx
      exact hbuilt row hrow
    · obtain ⟨e, he, heq⟩ := List.mem_map.mp hx
      cases heq
      obtain ⟨row, hrow, rfl, -, -⟩ := hsettled rfl tx outcome he
      exact hbuilt row hrow
  · subst htx
    by_cases hnew : ((.maintainInvitations, t, .settled row₀.built (.failed result true)) : Entry) ∈
        entries op s.now es
    · -- left in doubt just now: the voucher waits for its broadcast, untouched
      obtain ⟨e, he, heq⟩ := List.mem_map.mp hnew
      cases heq
      obtain ⟨row, hrow, hsame, hstate, hquiet⟩ := hsettled rfl _ _ he
      obtain ⟨row', hrow', hdesc⟩ := hstored row₀ hrow₀
      have hrow'' : row' ∈ s.ledger.inventory.rows := hquiet result rfl ▸ hrow'
      have halt : row'.txid = row.txid := by
        rw [hs.txid row' hrow'', hs.txid row hrow, hsame, hdesc.built]
      obtain rfl : row' = row := Table.eq_of_alt hrow'' hrow halt
      refine ⟨row', hrow', hdesc, .inl (hdesc.secret ?_)⟩
      simp [hstate, InvitationState.Live]
    · -- left in doubt before: what was safe then is edited now, by a step that knows why
      have hsplit' := hsplit
      rw [hlog] at hsplit'
      obtain ⟨post', hold', rfl⟩ := split_of_not_mem hsplit' hnew
      refine keyKept_of_edit hrecord (hnow ▸ h.edits) hfresh hsplit (List.prefix_append _ _) ?_
        (hs.safe pre t row₀.built result post' hold' row₀ (hrows row₀ hrow₀) rfl)
      rw [hlog, existing, existing, List.filterMap_append]
      exact List.subset_append_left _ _

/-- What minting keeps of the keys. -/
theorem guarded_of_mints {s s' : State} {op : Op} {row : InvitationRow} (hrun : s.running = some op)
    (hcont : Continues s s') (h : Mints op s.now s s' row) (hs : GuardedOf s) : GuardedOf s' := by
  have hlog : s'.log = s.log ++ [(op, s.now, .minted row)] := State.log_append hrun hcont h.trace
  have hmem : ∀ {r}, r ∈ s'.ledger.inventory.rows ↔ r ∈ s.ledger.inventory.rows ∨ r = row := by
    intro r
    rw [h.rows, List.mem_append, List.mem_singleton]
  -- the new voucher's asset lock is that of no other voucher, so it was never settled
  have hnever : ∀ t tx outcome, (.maintainInvitations, t, .settled tx outcome) ∈ s.log →
      tx.txid ≠ row.built.txid := by
    intro t tx outcome hx heq
    obtain ⟨r, hr, rfl⟩ := hs.settled t tx outcome hx
    refine (h.clashless r hr).2 ?_
    rw [hs.txid r hr, heq, h.txid]
  have hrows : ∀ row₀ ∈ mintedRows s'.log, row₀ ∈ mintedRows s.log ∨ row₀ = row := by
    intro row₀ hrow₀
    rw [hlog, mintedRows, List.filterMap_append] at hrow₀
    exact (List.mem_append.mp hrow₀).imp_right fun hx => List.mem_singleton.mp hx
  refine ⟨fun r hr => ?_, fun row₀ hrow₀ => ?_, fun t tx outcome hx => ?_,
    fun hist op' t row₀ hhist t' tx outcome hx => ?_,
    fun pre t tx result post hsplit row₀ hrow₀ htx => ?_⟩
  · rcases hmem.mp hr with hr | rfl
    · exact hs.txid r hr
    · exact h.txid
  · rcases hrows row₀ hrow₀ with hold | rfl
    · obtain ⟨r, hr, hdesc⟩ := hs.stored row₀ hold
      exact ⟨r, hmem.mpr (.inl hr), hdesc⟩
    · exact ⟨row₀, hmem.mpr (.inr rfl), rfl, rfl, rfl, rfl, fun _ => rfl⟩
  · rw [hlog] at hx
    rcases List.mem_append.mp hx with hx | hx
    · obtain ⟨r, hr, htx⟩ := hs.settled t tx outcome hx
      exact ⟨r, hmem.mpr (.inl hr), htx⟩
    · cases List.mem_singleton.mp hx
  · rw [hlog] at hhist
    -- the mint in question is the new entry or an older one
    rcases List.prefix_concat_iff.mp hhist with heq | hhist
    · obtain ⟨rfl, hlast⟩ := List.append_inj' heq rfl
      cases hlast
      exact hnever t' tx outcome hx
    · exact hs.fresh hist op' t row₀ hhist t' tx outcome hx
  · rw [hlog] at hsplit
    obtain ⟨post', hold, rfl⟩ := split_of_not_mem hsplit (by simp)
    rcases hrows row₀ hrow₀ with hrow₀ | rfl
    · obtain ⟨r, hr, hdesc, hkept⟩ := hs.safe pre t tx result post' hold row₀ hrow₀ htx
      refine ⟨r, hmem.mpr (.inl hr), hdesc, hkept.imp_right fun h =>
        h.imp (fun h => ?_) fun h => ?_⟩
      · rw [hlog, existing, List.filterMap_append]
        exact List.mem_append_left _ h
      · exact h.append _
    · refine absurd (congrArg BuiltTx.txid htx).symm (hnever t tx (.failed result true) ?_)
      rw [hold]
      exact List.mem_append_right _ List.mem_cons_self

theorem guarded_kept : f.Kept GuardedOf where
  step op s s' hrun hstep _ hs := by
    rcases hstep.vouchers with htouch | ⟨row, hmint⟩
    · exact guarded_of_touches hrun hstep.continues htouch hs
    · exact guarded_of_mints hrun hstep.continues hmint hs
  answer op q a s hrun _ _ hs :=
    guarded_of_touches (f := f) hrun (.note _ s) (touches_answer q a s) hs
  call c t s _ _ hs := hs
  enter op t s hrun _ _ _ hs := by
    unfold GuardedOf
    rw [State.log_enter hrun]
    exact hs
  leave op r s hrun _ _ hs := by
    unfold GuardedOf
    rw [State.log_leave hrun]
    exact hs

/-- **A voucher's key outlives the doubt about its asset lock.** In every run, a voucher whose
asset lock a pass left uncertain keeps the ciphertext it was minted with until Platform reports its
identity, or until, in a pass after the doubt, a configured ChainLock source did not know the asset
lock and every relay asked to broadcast it again rejected it. -/
theorem voucher_key_kept {c : Actor.Config f.treasury} (hc : f.Reached c) {pre post : List Entry}
    {t : ℤ} {tx : BuiltTx} {result : PayoutResult}
    (hlog : c.store.log =
      pre ++ (.maintainInvitations, t, .settled tx (.failed result true)) :: post)
    {row₀ : InvitationRow} (hrow₀ : row₀ ∈ mintedRows c.store.log) (htx : row₀.built = tx) :
    ∃ row ∈ c.store.ledger.inventory.rows, row.id = row₀.id ∧ (row.secret = row₀.secret ∨
      row₀.prospectiveIdentityId ∈ existing c.store.log ∨ Refuted row₀ post) := by
  obtain ⟨-, h⟩ := guarded_kept.reached (fun clock => ⟨fun _ hrow => (by cases hrow),
    fun _ hrow => (by cases hrow), fun _ _ _ hx => (by cases hx),
    fun hist _ _ _ hhist => (by simpa using List.prefix_nil.mp hhist),
    fun _ _ _ _ _ hsplit =>
      (List.append_ne_nil_of_right_ne_nil _ (List.cons_ne_nil _ _) hsplit.symm).elim⟩) hc
  obtain ⟨row, hrow, hdesc, hkept⟩ := h.safe pre t tx result post hlog row₀ hrow₀ htx
  exact ⟨row, hrow, hdesc.id, hkept⟩

/-- Whether a ChainLock source was asked. -/
def asksLock : Entry → Bool
  | (_, _, .io (.chainLock ..) _) => true
  | _ => false

/-- An asset lock left uncertain keeps its key. -/
theorem voucher_key_kept_minting : ∃ c, (minting 1).Reached c ∧
    ∃ pre t tx result post row₀ row, c.store.log =
        pre ++ (.maintainInvitations, t, .settled tx (.failed result true)) :: post ∧
      row₀ ∈ mintedRows c.store.log ∧ row₀.built = tx ∧ row ∈ c.store.ledger.inventory.rows ∧
      row.secret = row₀.secret := by
  have hrun : (mintAfter 1
    (mintRun 1 .maintainInvitations 1000 12 [⟨"a", 0, 3 * coin, "faucet", some 1⟩]
      (.error "down") (.error "timeout"))).map (fun c => decide (
        unsureLocks c.store.log = (mintedRows c.store.log).map InvitationRow.built ∧
        (mintedRows c.store.log).length = 1 ∧ existing c.store.log = [] ∧
        ∀ x ∈ c.store.log, asksLock x = false)) = some true := by
    decide +kernel
  obtain ⟨c, hc, h⟩ := Option.map_eq_some_iff.mp hrun
  have hreached := mintAfter_reached hc
  obtain ⟨hunsure, hone, hnone, hquiet⟩ := of_decide_eq_true h
  -- the one minted voucher is the one in doubt
  obtain ⟨row₀, hrows⟩ := List.length_eq_one_iff.mp hone
  have hrow₀ : row₀ ∈ mintedRows c.store.log := by
    rw [hrows]
    exact List.mem_singleton_self _
  rw [hrows, List.map_singleton, unsureLocks] at hunsure
  obtain ⟨pre, x, post, hlog, -, hx, -⟩ := List.filterMap_eq_cons_iff.mp hunsure
  split at hx
  · next t tx result =>
    cases hx
    obtain ⟨row, hrow, -, hsecret | hexists | hrefuted⟩ := voucher_key_kept hreached hlog hrow₀ rfl
    · exact ⟨c, hreached, pre, t, row₀.built, result, post, row₀, row, hlog, hrow₀, rfl, hrow,
        hsecret⟩
    · rw [hnone] at hexists
      cases hexists
    · -- no ChainLock source was asked yet
      obtain ⟨l₁, l₂, t', p, status, post', result', rfl, -⟩ := hrefuted
      have hasked :
          ((.maintainInvitations, t', .io (.chainLock p row₀.txid) (.ok status)) : Entry) ∈
          c.store.log := by
        rw [hlog]
        simp
      cases hquiet _ hasked
  · cases hx

/-- What a weaker reading of the same promise leaves out: that a key in doubt is kept until
Platform reports its identity, whatever a later pass hears. -/
def KeptUntilClaimed (inventory : Table InvitationRow) (log : List Entry) : Prop :=
  ∀ row₀ ∈ mintedRows log, row₀.built ∈ unsureLocks log → ∃ row ∈ inventory.rows,
    row.id = row₀.id ∧ (row.secret = row₀.secret ∨ row₀.prospectiveIdentityId ∈ existing log)

instance (inventory : Table InvitationRow) (log : List Entry) :
    Decidable (KeptUntilClaimed inventory log) := by
  unfold KeptUntilClaimed
  infer_instance

/-- A key that was given up: its asset lock timed out in one pass and was rejected in the next,
where the ChainLock source did not know it. -/
theorem voucher_key_given_up :
    ∃ c, (minting 1).Reached c ∧ ¬KeptUntilClaimed c.store.ledger.inventory c.store.log := by
  have hrun : (mintAfter 1 (
      mintRun 1 .maintainInvitations 1000 12 [⟨"a", 0, 3 * coin, "faucet", some 1⟩] (.error "down")
        (.error "timeout") ++
      mintRun 1 .maintainInvitations 2000 3 [⟨"a", 0, 3 * coin, "faucet", some 1⟩]
        (.ok ⟨false, none, false⟩)
        (.error "txn-mempool-conflict"))).map
      (fun c => decide (KeptUntilClaimed c.store.ledger.inventory c.store.log)) = some false := by
    decide +kernel
  obtain ⟨c, hc, h⟩ := Option.map_eq_some_iff.mp hrun
  exact ⟨c, mintAfter_reached hc, of_decide_eq_false h⟩

end Faucet

end DashFaucet

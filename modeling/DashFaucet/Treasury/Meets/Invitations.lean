import DashFaucet.Treasury.Meets.Issuance

/-!
# Maintaining the vouchers keeps to the contract

A pass takes back what has expired, follows what is not ChainLocked yet and mints what is missing.

* `Faucet.maintainInvitations_meets`.
-/

namespace DashFaucet

open Async Relation List

namespace Faucet

variable {f : Faucet} {op : Op} {now : ℤ}

/-! ### Following vouchers -/

/-- A voucher whose asset lock is not in a ChainLocked block yet. -/
def Unconfirmed (row : InvitationRow) : Prop :=
  row.state = .broadcastUnknown ∨ row.state = .awaitingChainlock

/-- Working through one expired voucher. -/
theorem wp_reclaim {row : InvitationRow} {rows : List InvitationRow} {s₀ s : State}
    (hs : (f.contract .maintainInvitations now).guar s₀ s)
    (h : Todo (f.Expired now) (row :: rows) s) :
    wp (f.contract .maintainInvitations now) (fun _ t₀ t =>
        (f.contract .maintainInvitations now).guar t₀ t ∧ Todo (f.Expired now) rows t)
      (reclaim row) s₀ s := by
  simp only [reclaim, wp_bind]
  refine wp_reads (reads_platformIdentityExists row) hs fun es r t₀ t hes hlooks _ htrace hg => ?_
  obtain ⟨claim, rfl, rfl⟩ := transcript_ask.mp hes
  have htodo := h.of_inventory hlooks.inventory
  obtain ⟨hrow, hexpired⟩ := htodo.head
  have hans : .io (.identity row.prospectiveIdentityId) claim ∈ t.trace := by
    rw [htrace]
    exact List.mem_append_right _ List.mem_cons_self
  rw [bindPost_ok]
  rcases claim with _ | _ | _
  · exact ⟨hg, htodo.tail⟩
  · exact ⟨hg.tail (.recycle rfl hrow hexpired hans), htodo.tail_update⟩
  · exact ⟨hg.tail (.claim hrow (.inl ⟨rfl, hexpired⟩) hans), htodo.tail_update⟩

/-- What the record of a settlement looks like from the event before its broadcast on. -/
theorem trace_settled {s : State} {pre : List Event} {e : Event} {es : List Answered}
    (tx : BuiltTx) (outcome : BroadcastSettlement) (locks : Bool) (now : ℤ)
    (htrace : s.trace = pre ++ [e] ++ es.map Answered.event) :
    ∃ post, (s.conclude tx outcome locks now).trace =
        pre ++ e :: post ++ [.settled tx outcome] ∧ Unsettled post ∧ answers post = es := by
  refine ⟨es.map Answered.event ++ if locks then [.locked tx] else [], ?_, ?_, ?_⟩
  · -- a lock is noted before the outcome
    cases locks with
    | false =>
      change s.trace ++ [.settled tx outcome] = _
      rw [htrace]
      simp
    | true =>
      change s.trace ++ [.locked tx] ++ [.settled tx outcome] = _
      rw [htrace]
      simp
  · intro tx' o he
    rcases List.mem_append.mp he with he | he
    · obtain ⟨a, -, ha⟩ := List.mem_map.mp he
      cases ha
    · cases locks <;> simp at he
  · rw [answers_append, answers_map_event]
    cases locks <;> exact List.append_nil _

/-- Working through one unconfirmed voucher: ChainLocked, or broadcast again, or left. -/
theorem wp_follow {row : InvitationRow} {rows : List InvitationRow} {s₀ s : State}
    (hs : (f.contract .maintainInvitations now).guar s₀ s)
    (h : Todo Unconfirmed (row :: rows) s) :
    wp (f.contract .maintainInvitations now) (fun r t₀ t =>
        (f.contract .maintainInvitations now).guar t₀ t ∧
          ∀ b, r = .ok b → Todo Unconfirmed rows t)
      (f.follow now row) s₀ s := by
  simp only [follow, wp_bind, wp_attempt]
  refine wp_reads (ChainClient.reads_getChainLockStatus _) hs
    fun es r t₀ t hes hlooks _ htrace hg => ?_
  have htodo := h.of_inventory hlooks.inventory
  -- the lookup moved no voucher, so the row is still in the inventory and unconfirmed
  obtain ⟨hrow, hstate⟩ := htodo.head
  rw [bindPost_ok]
  cases r with
  | error e => exact ⟨hg, fun _ _ => htodo.tail⟩
  | ok status =>
    obtain ⟨p, hconf, hp⟩ := ChainClient.getChainLockStatus_ok hes
    obtain ⟨es', rfl⟩ := hp
    rw [List.map_append, ← List.append_assoc] at htrace
    have hans : .io (.chainLock p row.txid) (.ok status) ∈ t.trace := by
      rw [htrace]
      exact List.mem_append_right _ List.mem_cons_self
    dsimp only
    -- chain locked: the row is confirmed, and recorded as spent if the broadcast was in doubt
    split
    · next height hlocked hheight =>
      have hstep := hg.tail (.confirm rfl hrow hstate hconf hans ⟨hlocked, hheight⟩)
      split
      · next hunknown =>
        rw [if_pos hunknown] at hstep
        simp only [wp_bind, wp_modify, bindPost_ok, wp_pure]
        refine ⟨hstep, fun _ _ => ?_⟩
        exact (htodo.of_inventory (t := t.recordSpend row.built now) rfl).tail_update
      · next hunknown =>
        rw [if_neg hunknown] at hstep
        simp only [wp_bind, wp_modify, bindPost_ok, wp_pure]
        exact ⟨hstep, fun _ _ => htodo.tail_update⟩
    -- not locked: a row in doubt is broadcast again, once the chain says it does not know it
    · split
      · next hcond =>
        obtain ⟨hunknown, hnot⟩ := hcond
        simp only [wp_bind]
        refine wp_settle hg (fun hop => absurd rfl hop)
          (fun es e u₀ u _ _ hg' => ⟨hg', fun b hb => by cases hb⟩)
          fun es outcome locks u₀ u hset hledger htrace' hg' hbooks => ?_
        have hinv : (u.conclude row.built outcome locks now).ledger.inventory =
            t.ledger.inventory := by
          have hkeep : (u.conclude row.built outcome locks now).ledger.inventory =
              u.ledger.inventory := by cases locks <;> rfl
          rw [hkeep, hledger]
        have hrow' : row ∈ (u.conclude row.built outcome locks now).ledger.inventory.rows :=
          hinv ▸ hrow
        have htodo' := htodo.of_inventory hinv
        rw [bindPost_ok]
        -- the bookkeeping follows the outcome
        cases outcome with
        | ok accepted =>
          simp only [wp_bind, wp_modify, bindPost_ok, wp_pure]
          refine ⟨hbooks _ (.awaited rfl hrow' hunknown rfl), fun _ _ => ?_⟩
          exact (htodo'.of_inventory (t := State.recordSpend row.built now _) rfl).tail_update
        | failed result uncertain =>
          cases uncertain with
          | true => exact ⟨hbooks _ (.kept rfl hrow' hunknown rfl), fun _ _ => htodo'.tail⟩
          | false =>
            simp only [Bool.false_eq_true, if_false, wp_bind, wp_modify, bindPost_ok, wp_pure]
            obtain ⟨post, hpost, hun, hanswers⟩ := trace_settled row.built
              (.failed result false) locks now (htrace'.trans (congrArg (· ++ _) htrace))
            exact ⟨hbooks _ (.discarded rfl hrow' hunknown rfl hpost hun
              (hanswers ▸ hset.rejects) (.inr ⟨p, status, hconf, rfl, by simpa using hnot⟩)),
              fun _ _ => htodo'.tail_update⟩
      -- the row stays as it is
      · exact ⟨hg, fun _ _ => htodo.tail⟩

/-! ### Minting -/

/-- When the broadcast of a minted voucher is settled, its row is there. -/
theorem minted_conclude {row : InvitationRow} {inventory : Table InvitationRow} {s t : State}
    (now : ℤ) (outcome : BroadcastSettlement) (locks : Bool)
    (hins : s.ledger.inventory.insert? row = some inventory)
    (hledger : t.ledger = { s.ledger with inventory }) :
    row ∈ (t.conclude row.built outcome locks now).ledger.inventory.rows := by
  have hkeep : (t.conclude row.built outcome locks now).ledger.inventory = t.ledger.inventory := by
    cases locks <;> rfl
  rw [hkeep, hledger, (Table.insert?_eq_some hins).1]
  exact List.mem_append_right _ List.mem_cons_self

/-- Minting one voucher: built from the view, stored with its key, then broadcast. -/
theorem wp_mintInvitation {s₀ s : State} (hs : (f.contract .maintainInvitations now).guar s₀ s) :
    wp (f.contract .maintainInvitations now)
      (fun _ t₀ t => (f.contract .maintainInvitations now).guar t₀ t)
      (f.mintInvitation now) s₀ s := by
  simp only [mintInvitation, wp_bind]
  refine wp_reads reads_key hs fun es r t₀ t _ _ _ _ hg => ?_
  cases r with
  | error e => exact hg
  | ok key =>
    simp only [bindPost_ok, wp_bind, wp_attempt]
    refine (spendableUtxos_triple key).wp hg fun r u₀ u hg hfound => ?_
    obtain ⟨-, -, hview⟩ := hfound
    rw [bindPost_ok]
    cases r with
    | error e => exact hg
    | ok view =>
      obtain ⟨hoff, -⟩ := hview view rfl
      simp only [wp_bind]
      refine wp_inquire .voucherKey trivial hg fun voucher v₀ v _ hledger _ hg => ?_
      have hoff := hoff.of_spent (congrArg Ledger.spent hledger)
      simp only [bindPost_ok, wp_bind, wp_attempt]
      refine wp_reads DashTx.reads_buildInvitationAssetLock hg
        fun es r w₀ w hes _ hledger _ hg => ?_
      have hoff := hoff.of_spent (congrArg Ledger.spent hledger)
      rw [bindPost_ok]
      cases r with
      | error e => exact hg
      | ok built =>
        have hwell := hoff.buildable (f := f)
          fun hd => DashTx.buildInvitationAssetLock_spends hd hes
        simp only [wp_bind, note, wp_modify, bindPost_ok]
        refine wp_inquire (.encryptWif voucher.wif) trivial
          (hg.tail (.build hwell fun input hop => by cases hop))
          fun secret x₀ x hlooks _ htrace hg => ?_
        -- what the voucher's row will rest on
        have hbuilt : .built built ∈ x.trace :=
          hlooks.mem (List.mem_append_right _ List.mem_cons_self)
        have hsecret : .io (.encryptWif voucher.wif) secret ∈ x.trace := by
          rw [htrace]
          exact List.mem_append_right _ List.mem_cons_self
        simp only [bindPost_ok, wp_bind]
        refine wp_inquire .randomUUID trivial hg fun id y₀ y hlooks _ _ hg => ?_
        have hbuilt := hlooks.mem hbuilt
        have hsecret := hlooks.mem hsecret
        simp only [bindPost_ok, wp_bind, wp_ofExcept]
        cases prospectiveIdentityId f.sha256 built.txid with
        | error e => exact hg
        | ok identity =>
          simp only [bindPost_ok, wp_bind, wp_read]
          split
          · exact hg
          · next inventory hins =>
            simp only [wp_bind, wp_modify, bindPost_ok]
            have hmint := hg.tail (.mint rfl hins hbuilt rfl hsecret ⟨rfl, rfl, rfl, rfl⟩)
            -- the row is stored before its transaction is sent
            refine wp_settle hmint (fun hop => absurd rfl hop)
              (fun es e z₀ z _ _ hg => hg)
              fun es outcome locks z₀ z hset hledger htrace hg hbooks => ?_
            have hrow := minted_conclude now outcome locks hins hledger
            rw [bindPost_ok]
            cases outcome with
            | ok accepted =>
              simp only [wp_bind, wp_modify, bindPost_ok, wp_pure]
              exact hbooks _ (.awaited rfl hrow rfl rfl)
            | failed result uncertain =>
              -- in doubt it is kept for the next pass, rejected it has nothing left to open
              cases uncertain with
              | true => exact hbooks _ (.kept rfl hrow rfl rfl)
              | false =>
                simp only [Bool.false_eq_true, if_false, wp_bind, wp_modify, bindPost_ok,
                  wp_pure]
                obtain ⟨post, hpost, hun, hanswers⟩ := trace_settled built (.failed result false)
                  locks now htrace
                exact hbooks _ (.discarded rfl hrow rfl rfl hpost hun (hanswers ▸ hset.rejects)
                  (.inl rfl))

/-- Refilling, by induction on the vouchers that are missing. -/
theorem wp_refillInventory {missing minted : ℕ} {s₀ s : State}
    (hs : (f.contract .maintainInvitations now).guar s₀ s) :
    wp (f.contract .maintainInvitations now)
      (fun _ t₀ t => (f.contract .maintainInvitations now).guar t₀ t)
      (f.refillInventory now missing minted) s₀ s := by
  induction missing generalizing minted s₀ s with
  | zero => exact hs
  | succ missing ih =>
    rw [refillInventory, wp_bind]
    refine wp_mono (fun r t₀ t hg => ?_) (wp_mintInvitation hs)
    cases r with
    | error e => exact hg
    | ok detail =>
      rw [bindPost_ok]
      cases detail with
      | some detail => exact hg
      | none => exact ih hg

/-! ### The whole pass -/

/-- A loop over vouchers that the inventory holds: each round leaves the rest as they were. -/
theorem wp_vouchers {α : Type} {P : InvitationRow → Prop} {body : InvitationRow → Prog α}
    (hround : ∀ row rows s₀ s, (f.contract .maintainInvitations now).guar s₀ s →
      Todo P (row :: rows) s → wp (f.contract .maintainInvitations now) (fun r t₀ t =>
        (f.contract .maintainInvitations now).guar t₀ t ∧ ∀ b, r = .ok b → Todo P rows t)
        (body row) s₀ s)
    {rows : List InvitationRow} {s₀ s : State}
    (hs : (f.contract .maintainInvitations now).guar s₀ s) (h : Todo P rows s) :
    wp (f.contract .maintainInvitations now)
      (fun _ t₀ t => (f.contract .maintainInvitations now).guar t₀ t)
      (forEach body rows) s₀ s := by
  refine wp_forEach (fun rows _ s₀ s => (f.contract .maintainInvitations now).guar s₀ s ∧
    Todo P rows s) (fun row rows bs s₀ s hloop => ?_) (fun bs s₀ s h => h.1) ⟨hs, h⟩
  obtain ⟨hs, h⟩ := hloop
  refine wp_mono (fun r t₀ t hend => ?_) (hround row rows s₀ s hs h)
  obtain ⟨hg, htodo⟩ := hend
  cases r with
  | error e => exact hg
  | ok b => exact ⟨hg, htodo b rfl⟩

theorem wp_maintainInvitationsLocked {s : State} (hstart : s.trace = []) :
    wp (f.contract .maintainInvitations now)
      (fun _ t₀ t => (f.contract .maintainInvitations now).guar t₀ t)
      (f.maintainInvitationsLocked now) s s := by
  unfold maintainInvitationsLocked
  dsimp only
  -- disabled, or a dry run: nothing moves
  split
  · exact .refl
  split
  · exact .refl
  simp only [wp_bind, wp_modify, bindPost_ok, wp_read]
  -- the prune and the backfill come first
  have hguar : (f.contract .maintainInvitations now).guar s
      (s.prune f.cfg now).backfillInvitationAmounts :=
    .tail (.single (.prune hstart)) (.backfill rfl)
  have hexpired : Todo (f.Expired now) ((s.prune f.cfg now).backfillInvitationAmounts.ledger
      |>.inventory.rows.filter fun r => r.state = .issued ∧
        r.issuedAt.any fun t => decide (t ≤ now - f.cfg.invitations.ttlMs))
      (s.prune f.cfg now).backfillInvitationAmounts := by
    -- the expired vouchers are reclaimed
    refine Todo.of_subperm (List.Subperm.refl _) fun row hrow => ?_
    simp only [decide_eq_true_eq, Option.any_eq_true] at hrow
    exact ⟨hrow.1, hrow.2.imp fun t ht => ⟨ht.1, ht.2⟩⟩
  refine wp_mono (fun r t₀ t hg => ?_) (wp_vouchers (fun row rows s₀ s hs h =>
    wp_mono (fun r t₀ t hend => ⟨hend.1, fun _ _ => hend.2⟩) (wp_reclaim hs h)) hguar hexpired)
  cases r with
  | error e => exact hg
  | ok reclaimed =>
    simp only [bindPost_ok, wp_bind, wp_read]
    -- the unconfirmed ones are followed
    have hunconfirmed : Todo Unconfirmed (t.ledger.inventory.rows.filter fun r =>
        r.state = .broadcastUnknown ∨ r.state = .awaitingChainlock) t := by
      refine Todo.of_subperm (List.Subperm.refl _) fun row hrow => ?_
      simpa [Unconfirmed] using hrow
    refine wp_mono (fun r u₀ u hg => ?_)
      (wp_vouchers (fun row rows s₀ s hs h => wp_follow hs h) hg hunconfirmed)
    cases r with
    | error e => exact hg
    | ok followed =>
      simp only [bindPost_ok, wp_bind, wp_read]
      -- and the inventory is refilled
      refine wp_mono (fun r v₀ v hg => ?_) (wp_refillInventory hg)
      cases r with
      | error e => exact hg
      | ok refill =>
        obtain ⟨minted, stopped⟩ := refill
        rw [bindPost_ok]
        cases stopped with
        | some detail => exact hg
        | none =>
          dsimp only
          split
          · exact hg
          split <;> exact hg

theorem maintainInvitations_meets (now : ℤ) (s : State) :
    Actor.Meets (M := f.treasury) f.contract f.EndsWell .maintainInvitations now s := by
  have hend : ∀ (r : Except Thrown Reply) t₀ t, (f.contract .maintainInvitations now).guar t₀ t →
      Actor.endsIn (M := f.treasury) f.contract f.EndsWell .maintainInvitations now r t₀ t :=
    fun r t₀ t hg => ⟨hg, fun _ hop => (by cases hop), fun _ hop => (by cases hop)⟩
  simp only [Actor.Meets, program, wp_bind]
  refine wp_mono (fun r t₀ t hg => ?_) (wp_maintainInvitationsLocked rfl)
  cases r <;> exact hend _ _ _ hg

end Faucet

end DashFaucet

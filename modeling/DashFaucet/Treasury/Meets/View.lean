import DashFaucet.Spends
import DashFaucet.Treasury.Steps

/-!
# The parts that operations share

Every part of an operation keeps to the contract: its segments are made of steps. Here are the
parts all spenders share: looking things up, the spendable view, building from it, settling.

* `Looks`: what an operation changes while it looks around before it settles anything.
* `Faucet.spendableUtxos_triple`: the spendable view offers distinct coins that are not spent.
* `Faucet.Offered.buildable`: so what is built from a view spends distinct coins that are not spent.
* `Faucet.wp_settle`: the rule of `settleBroadcast` inside an operation.
-/

namespace DashFaucet

open Async Relation

/-- Events of an operation that looks around. -/
def Event.Plain : Event → Prop
  | .io q _ => Reads q
  | .viewed _ _ => True
  | _ => False

/-- An operation looked around: it saw plain events and left the inventory alone. -/
structure Looks (s t : State) : Prop where
  inventory : t.ledger.inventory = s.ledger.inventory
  trace : ∃ es, t.trace = s.trace ++ es ∧ ∀ e ∈ es, e.Plain

namespace Looks

theorem refl (s : State) : Looks s s := ⟨rfl, [], (List.append_nil _).symm, by simp⟩

theorem trans {s t u : State} (h : Looks s t) (h' : Looks t u) : Looks s u := by
  obtain ⟨es, htrace, hes⟩ := h.trace
  obtain ⟨es', htrace', hes'⟩ := h'.trace
  refine ⟨h'.inventory.trans h.inventory, es ++ es', ?_, ?_⟩
  · rw [htrace', htrace, List.append_assoc]
  · intro e he
    exact (List.mem_append.mp he).elim (hes e) (hes' e)

theorem isPrefix {s t : State} (h : Looks s t) : s.trace <+: t.trace := by
  obtain ⟨es, htrace, -⟩ := h.trace
  exact htrace ▸ List.prefix_append _ _

/-- What was in the record still is. -/
theorem mem {s t : State} (h : Looks s t) {e : Event} (he : e ∈ s.trace) : e ∈ t.trace :=
  h.isPrefix.subset he

/-- Nothing but plain events was added. -/
theorem of_mem {s t : State} (h : Looks s t) {e : Event} (he : e ∈ t.trace) (hp : ¬e.Plain) :
    e ∈ s.trace := by
  obtain ⟨es, htrace, hes⟩ := h.trace
  rw [htrace] at he
  exact (List.mem_append.mp he).resolve_right fun he => hp (hes e he)

theorem unsettled {s t : State} (h : Looks s t) (hs : Unsettled s.trace) : Unsettled t.trace :=
  fun tx outcome he => hs tx outcome (h.of_mem he id)

end Looks

namespace Faucet

variable {f : Faucet} {op : Op} {now : ℤ}

/-- Calls change the administration's tables only. -/
theorem unmoved_of_called {s s' : State} (h : f.Called s s') : Unmoved s s' := by
  induction h with
  | refl => exact ⟨rfl, rfl, rfl, rfl, rfl⟩
  | tail _ hcall ih =>
    obtain ⟨c, t, rfl⟩ := hcall
    exact ⟨ih.ledger, ih.past, ih.running, ih.now, ih.trace⟩

theorem recording : Recording (f.contract op now) where
  emit_eq _ _ := rfl
  guar_refl _ := .refl
  rely_unmoved _ _ := unmoved_of_called
  ask_noRelay _ _ hq := fun _ relays hex _ hrelay => absurd hrelay (hq relays hex)

theorem fits : Actor.Fits (M := f.treasury) f.contract where
  emit _ _ := rfl
  rely_refl _ _ _ := .refl
  rely_trans _ _ _ _ _ h h' := h.trans h'
  rely_call _ _ c t _ := .single ⟨c, t, rfl⟩

/-! ### Looking things up -/

/-- Hearing the answers to reads is looking around, and leaves the ledger alone. -/
theorem looks_of_heard {es : List Answered} {s t : State}
    (h : Heard (f.contract op now) es s t) (hes : ∀ e ∈ es, Reads e.1) :
    Looks s t ∧ t.ledger = s.ledger ∧ t.trace = s.trace ++ es.map Answered.event := by
  obtain ⟨hledger, -, htrace⟩ := recording.heard h
  refine ⟨⟨by rw [hledger], es.map Answered.event, htrace, fun e he => ?_⟩, hledger, htrace⟩
  obtain ⟨a, ha, rfl⟩ := List.mem_map.mp he
  exact hes a ha

/-- The rule of programs that only read the outside world. -/
theorem wp_reads {α : Type} {p : Prog α} (hp : p.Quiet Reads)
    {Post : Except Thrown α → State → State → Prop} {s₀ s : State}
    (hs : (f.contract op now).guar s₀ s)
    (h : ∀ es r t₀ t, Transcript p es r → Looks s t → t.ledger = s.ledger →
      t.trace = s.trace ++ es.map Answered.event → (f.contract op now).guar t₀ t → Post r t₀ t) :
    wp (f.contract op now) Post p s₀ s := by
  refine recording.wp_lookup (hp.mono fun _ => Reads.noRelay) hs fun es r t₀ t hes hh hg => ?_
  obtain ⟨hlooks, hledger, htrace⟩ := looks_of_heard hh (hp.of_mem_transcript hes)
  exact h es r t₀ t hes hlooks hledger htrace hg

/-- The rule of one question that only reads. -/
theorem wp_inquire (q : Query) (hq : Reads q)
    {Post : Except Thrown (Answer q) → State → State → Prop} {s₀ s : State}
    (hs : (f.contract op now).guar s₀ s)
    (h : ∀ a t₀ t, Looks s t → t.ledger = s.ledger → t.trace = s.trace ++ [.io q a] →
      (f.contract op now).guar t₀ t → Post (.ok a) t₀ t) :
    wp (f.contract op now) Post (ask q : Prog (Answer q)) s₀ s := by
  refine wp_reads ((quiet_ask q).mpr hq) hs fun es r t₀ t hes hlooks hledger htrace hg => ?_
  obtain ⟨a, rfl, rfl⟩ := transcript_ask.mp hes
  exact h a t₀ t hlooks hledger htrace hg

theorem reads_key : (f.key : Prog _).Quiet Reads :=
  Quiet.bind ((quiet_ask _).mpr trivial) fun _ => quiet_ofExcept _

theorem reads_scheduleMaintenance (delayMs : ℤ) : (f.scheduleMaintenance delayMs).Quiet Reads := by
  unfold scheduleMaintenance
  split
  · exact (quiet_ask _).mpr trivial
  · exact quiet_pure _

/-! ### The spendable view -/

/-- Caching verdicts is made of steps, and nothing else happens. -/
theorem steps_verdicts {vs : List (String × Bool)} {s : State}
    (h : ∀ v ∈ vs, ∃ p, .io (.isCoinbase p v.1) (.ok v.2) ∈ s.trace) :
    ReflTransGen (Step f op now) s (vs.foldl (fun s v => s.recordVerdict v.1 v.2 now) s) ∧
      Looks s (vs.foldl (fun s v => s.recordVerdict v.1 v.2 now) s) ∧
      (vs.foldl (fun s v => s.recordVerdict v.1 v.2 now) s).trace = s.trace ∧
      ∀ row ∈ s.ledger.coinbaseChecks.rows,
        row ∈ (vs.foldl (fun s v => s.recordVerdict v.1 v.2 now) s).ledger.coinbaseChecks.rows := by
  induction vs generalizing s with
  | nil => exact ⟨.refl, .refl s, rfl, fun row hrow => hrow⟩
  | cons v vs ih =>
    obtain ⟨p, hp⟩ := h v List.mem_cons_self
    have hlooks : Looks s (s.recordVerdict v.1 v.2 now) :=
      ⟨rfl, [], (List.append_nil _).symm, by simp⟩
    obtain ⟨hsteps, hlooks', htrace, hrows⟩ := ih (s := s.recordVerdict v.1 v.2 now)
      fun v' hv' => h v' (List.mem_cons_of_mem _ hv')
    exact ⟨.head (.verdict hp) hsteps, hlooks.trans hlooks', htrace,
      fun row hrow => hrows row (Table.mem_insertOrIgnore_of_mem hrow)⟩

/-- The verdicts of fulfilled lookups were answered. -/
theorem answered_of_fulfilled {es : List Answered} {txids : List String}
    {settled : List (Except Thrown Bool)}
    (h : Transcript (forEach (fun txid => attempt (f.chain.isCoinbase txid)) txids : Prog _) es
      (.ok settled)) :
    ∀ v ∈ fulfilled txids settled, ∃ p, ⟨.isCoinbase p v.1, .ok v.2⟩ ∈ es := by
  intro v hv
  simp only [fulfilled, List.mem_filterMap] at hv
  obtain ⟨⟨txid, r⟩, hmem, hr⟩ := hv
  cases r with
  | error e => cases hr
  | ok b =>
    cases hr
    obtain ⟨es', hsub, h'⟩ := transcript_forEach h _ hmem
    obtain ⟨r', hr', h''⟩ := transcript_attempt.mp h'
    cases hr'
    obtain ⟨p, hp⟩ := ChainClient.isCoinbase_ok h''
    exact ⟨p, hsub hp⟩

/-- What a computed view promises about the state it was computed in. -/
structure Offered (view : UtxoSnapshot) (s : State) : Prop where
  nodup : (view.utxos.map Utxo.outpoint).Nodup
  free : ∀ u ∈ view.utxos, s.ledger.isSpent u.outpoint = false

theorem notYoung_of_not_mem {snapshot : UtxoSnapshot} {u : Utxo} (hu : u ∈ snapshot.utxos)
    (h : u.txid ∉ young snapshot) : NotYoung snapshot.tipHeight u := by
  rw [young, List.mem_eraseDups] at h
  cases hheight : u.height with
  | none =>
    refine absurd (List.mem_map_of_mem (List.mem_filter.mpr ⟨hu, ?_⟩)) h
    rw [hheight]
  | some height =>
    refine ⟨height, hheight, fun hshallow => ?_⟩
    refine absurd (List.mem_map_of_mem (List.mem_filter.mpr ⟨hu, ?_⟩)) h
    rw [hheight]
    exact decide_eq_true hshallow

/-- From `s` to `t` verdicts were looked up: on transactions that had none in the cache, and on no
more than the limit. -/
def LooksUp (s t : State) : Prop :=
  ∃ (es : List Event) (txids : List String), t.trace = s.trace ++ es ∧
    txids.length ≤ maxCoinbaseLookups ∧
    (∀ txid ∈ txids, s.ledger.coinbaseChecks.find? txid = none) ∧
    ∀ p txid a, .io (.isCoinbase p txid) a ∈ es → txid ∈ txids

/-- What comes before and after the lookups looks nothing up. -/
theorem LooksUp.between {s s' t t' : State} (h : LooksUp s' t') {before after : List Event}
    (hbefore : s'.trace = s.trace ++ before) (hafter : t.trace = t'.trace ++ after)
    (hchecks : s'.ledger = s.ledger)
    (hnone : ∀ p txid a, .io (.isCoinbase p txid) a ∉ before ++ after) : LooksUp s t := by
  obtain ⟨es, txids, htrace, hlen, huncached, hasked⟩ := h
  refine ⟨before ++ es ++ after, txids, ?_, hlen, hchecks ▸ huncached, fun p txid a ha => ?_⟩
  · rw [hafter, htrace, hbefore, List.append_assoc, List.append_assoc, List.append_assoc]
  · have hnone := hnone p txid a
    simp only [List.mem_append, not_or] at ha hnone
    rcases ha with (ha | ha) | ha
    · exact absurd ha hnone.1
    · exact hasked p txid a ha
    · exact absurd ha hnone.2

theorem LooksUp.refl (s : State) : LooksUp s s :=
  ⟨[], [], (List.append_nil _).symm, Nat.zero_le _, fun _ h => absurd h List.not_mem_nil,
    fun _ _ _ h => absurd h List.not_mem_nil⟩

/-- What is held back are the transactions of young coins, all but those known to be no
coinbases. -/
theorem immatureTxids_triple (snapshot : UtxoSnapshot) :
    Triple (f.contract op now) (f.immatureTxids snapshot now) fun s r t =>
      Looks s t ∧ (∀ immature, r = .ok immature → ∀ u ∈ snapshot.utxos, u.txid ∉ immature →
        NotYoung snapshot.tipHeight u ∨ Classified t u.txid) ∧ LooksUp s t := by
  intro s₀ s hs
  simp only [immatureTxids, wp_bind, wp_read, bindPost_ok]
  generalize hunknown : ((young snapshot).filter fun txid =>
    (s.ledger.coinbaseChecks.find? txid).isNone).take maxCoinbaseLookups = unknown
  refine wp_reads (Quiet.forEach fun _ _ => (ChainClient.reads_isCoinbase _).attempt) hs
    fun es r t₀ t hes hlooks hledger htrace hg => ?_
  -- only what is unknown is looked up
  have hquiet : (forEach (fun txid => attempt (f.chain.isCoinbase txid)) unknown : Prog _).Quiet
      fun q => ∃ txid ∈ unknown, Classifies txid q :=
    Quiet.forEach fun txid htxid =>
      ((ChainClient.classifies_isCoinbase txid).mono fun q hq => ⟨txid, htxid, hq⟩).attempt
  have hasked : LooksUp s t := by
    refine ⟨_, unknown, htrace, ?_, fun txid htxid => ?_, fun p txid a ha => ?_⟩
    · rw [← hunknown]
      exact List.length_take_le _ _
    · rw [← hunknown] at htxid
      exact Option.isNone_iff_eq_none.mp (List.mem_filter.mp (List.mem_of_mem_take htxid)).2
    · obtain ⟨⟨q, a'⟩, he, heq⟩ := List.mem_map.mp ha
      obtain ⟨txid', htxid', hq⟩ := hquiet.of_mem_transcript hes _ he
      cases heq
      exact hq ▸ htxid'
  cases r with
  | error e => exact ⟨hg, hlooks, fun immature hr => (by cases hr), hasked⟩
  | ok settled =>
    simp only [bindPost_ok, wp_bind, wp_modify, wp_pure]
    -- what was fulfilled is in the record by now
    have hheard : ∀ v ∈ fulfilled unknown settled, ∃ p,
      .io (.isCoinbase p v.1) (.ok v.2) ∈ t.trace := by
      intro v hv
      obtain ⟨p, hp⟩ := answered_of_fulfilled hes v hv
      refine ⟨p, ?_⟩
      rw [htrace]
      exact List.mem_append_right _ (List.mem_map.mpr ⟨_, hp, rfl⟩)
    obtain ⟨(hcached : ReflTransGen (Step f op now) t _), hlooks', htrace', hrows⟩ :=
      steps_verdicts hheard
    refine ⟨hg.trans hcached, hlooks.trans hlooks', ?_, by rwa [LooksUp, htrace']⟩
    rintro immature hr u hu hfree
    cases hr
    by_cases hyoung : u.txid ∈ young snapshot
    · refine .inr ?_
      have hverdict : ((fulfilled unknown settled).lookup u.txid).or
          ((s.ledger.coinbaseChecks.find? u.txid).map CoinbaseCheck.isCoinbase) = some false := by
        rw [List.mem_filter, not_and] at hfree
        have hfalse := Bool.eq_false_iff.mpr (hfree hyoung)
        cases hor : ((fulfilled unknown settled).lookup u.txid).or
            ((s.ledger.coinbaseChecks.find? u.txid).map CoinbaseCheck.isCoinbase) with
        | none =>
          rw [hor] at hfalse
          cases hfalse
        | some b =>
          rw [hor] at hfalse
          exact congrArg some hfalse
      rcases Option.or_eq_some_iff.mp hverdict with hlooked | ⟨-, hchecked⟩
      · -- an answer just heard
        obtain ⟨before, after, hsplit, -⟩ := List.lookup_eq_some_iff.mp hlooked
        obtain ⟨p, hp⟩ := hheard (u.txid, false)
          (hsplit ▸ List.mem_append_right _ List.mem_cons_self)
        exact .inr ⟨p, htrace' ▸ hp⟩
      · -- a verdict that was in the cache before
        obtain ⟨row, hrow, hfalse⟩ := Option.map_eq_some_iff.mp hchecked
        obtain ⟨hrow, htxid⟩ := Table.find?_eq_some.mp hrow
        exact .inl ⟨row, hrows row (hledger ▸ hrow), htxid, hfalse⟩
    · exact .inl (notYoung_of_not_mem hu hyoung)

/-- **The spendable view** is computed by looking around, and offers distinct coins that are not
spent. -/
theorem spendableUtxos_triple (key : FaucetKey) :
    Triple (f.contract op now) (f.spendableUtxos key now) fun s r t =>
      Looks s t ∧ LooksUp s t ∧ ∀ view, r = .ok view →
        Offered view t ∧ ∃ snapshot, .viewed snapshot view ∈ t.trace := by
  intro s₀ s hs
  simp only [spendableUtxos, wp_bind]
  refine wp_reads (ChainClient.reads_getUtxos _) hs fun es r t₀ t hes hlooks hledger htrace hg => ?_
  -- a listing asks for no verdict
  have hnone : ∀ p txid a, .io (.isCoinbase p txid) a ∉ es.map Answered.event := by
    intro p txid a ha
    obtain ⟨⟨q, a'⟩, he, heq⟩ := List.mem_map.mp ha
    have hsurveys := (ChainClient.surveys_getUtxos _).of_mem_transcript hes _ he
    cases heq
    exact hsurveys
  have hnone' : ∀ (after : List Event), (∀ e ∈ after, ∃ snapshot view, e = .viewed snapshot view) →
      ∀ p txid a, .io (.isCoinbase p txid) a ∉ es.map Answered.event ++ after := by
    intro after hafter p txid a ha
    rcases List.mem_append.mp ha with ha | ha
    · exact hnone p txid a ha
    · obtain ⟨_, _, heq⟩ := hafter _ ha
      cases heq
  -- the listing failed
  cases r with
  | error e =>
    refine ⟨hg, hlooks, ?_, fun view hr => ?_⟩
    · exact (LooksUp.refl t).between htrace (List.append_nil _).symm hledger (hnone' [] (by simp))
    · cases hr
  | ok snapshot =>
    simp only [bindPost_ok, wp_bind]
    refine (immatureTxids_triple snapshot).wp hg fun r u₀ u hg' hfound => ?_
    obtain ⟨hlooks', hmature, hup⟩ := hfound
    have hlooks'' := hlooks.trans hlooks'
    -- the immaturity of the coins could not be settled
    cases r with
    | error e =>
      refine ⟨hg', hlooks'', ?_, fun view hr => ?_⟩
      · exact hup.between htrace (List.append_nil _).symm hledger (hnone' [] (by simp))
      · cases hr
    | ok immature =>
      simp only [bindPost_ok, wp_bind, wp_modify, wp_read, wp_pure, note]
      -- the view is the listing, reconciled with the locks and the pending outputs
      obtain ⟨p, hp⟩ := ChainClient.getUtxos_ok hes
      have hans : .io (.listing p key.address) (.ok snapshot.utxos) ∈ u.trace := by
        refine hlooks'.mem ?_
        rw [htrace]
        exact List.mem_append_right _ (List.mem_map.mpr ⟨_, hp, rfl⟩)
      refine ⟨hg'.tail (.view hans (hmature immature rfl)),
        hlooks''.trans ⟨?_, [_], rfl, by simp [Event.Plain]⟩, ?_, ?_⟩
      · obtain ⟨sp, pe, heq⟩ := Ledger.reconcile_eq (snapshot.utxos.map Utxo.outpoint) now u.ledger
        simp only [State.note, State.withLedger, heq]
      · refine hup.between htrace rfl hledger (hnone' _ fun e he => ?_)
        exact ⟨_, _, List.mem_singleton.mp he⟩
      · intro view hr
        cases hr
        refine ⟨⟨Ledger.spendable_nodup _ _ _ _, fun x hx => ?_⟩, snapshot, ?_⟩
        · exact Ledger.isSpent_of_mem_spendable hx
        · exact List.mem_append_right _ List.mem_cons_self

/-! ### Building and settling -/

/-- What spends coins of a view spends distinct ones, and none that is locked. -/
theorem Offered.buildable {view : UtxoSnapshot} {s : State} (h : Offered view s) {amount : ℕ}
    {tx : BuiltTx} (hspends : f.dash.Faithful → DashTx.Spends view.utxos amount tx) :
    f.dash.Faithful → WellBuilt s.ledger tx := by
  intro hd
  refine ⟨(hspends hd).inputs_nodup h.nodup, fun o ho => ?_, (hspends hd).own_txid⟩
  obtain ⟨u, hu, rfl⟩ := (hspends hd).exists_of_mem ho
  exact h.free u hu

/-- The view is still good where the `spent` table is the same. -/
theorem Offered.of_spent {view : UtxoSnapshot} {s t : State} (h : Offered view s)
    (heq : t.ledger.spent = s.ledger.spent) : Offered view t := by
  refine ⟨h.nodup, fun u hu => ?_⟩
  have hfree := h.free u hu
  rw [Ledger.isSpent] at hfree ⊢
  rw [heq, hfree]

/-- **The rule of `settleBroadcast` inside an operation.** When it throws, nothing was done; when
it returns, the operation may go on to any bookkeeping `Books` allows for the outcome. -/
theorem wp_settle {tx : BuiltTx} {Post : Except Thrown BroadcastSettlement → State → State → Prop}
    {s₀ s : State} (hs : (f.contract op now).guar s₀ s)
    (honce : op ≠ .maintainInvitations → Unsettled s.trace ∧ .built tx ∈ s.trace)
    (hthrow : ∀ es e t₀ t, f.Aborts tx es → t.trace = s.trace ++ es.map Answered.event →
      (f.contract op now).guar t₀ t → Post (.error e) t₀ t)
    (hend : ∀ es outcome locks t₀ t, f.Settles tx es outcome locks → t.ledger = s.ledger →
      t.trace = s.trace ++ es.map Answered.event → (f.contract op now).guar t₀ t →
      (∀ s', Books op now tx outcome (t.conclude tx outcome locks now) s' →
        (f.contract op now).guar t₀ s') →
      Post (.ok outcome) t₀ (t.conclude tx outcome locks now)) :
    wp (f.contract op now) Post (f.settleBroadcast tx now) s₀ s := by
  refine wp_settleBroadcast recording hs (fun relays t ht => ?_)
    (fun es e t₀ t hnot hh hg => ?_) (fun es outcome locks t₀ t hset hh hg => ?_)
  · -- only a payout is held to its transaction
    intro input relays' hex hop hq
    cases hq
    subst hop
    exact ⟨tx, ht.subset (honce Op.noConfusion).2, rfl⟩
  -- nobody took the transaction
  · obtain ⟨-, -, htrace⟩ := recording.heard hh
    exact hthrow es e t₀ t hnot htrace hg
  · obtain ⟨hledger, -, htrace⟩ := recording.heard hh
    -- its outcome is known, and the bookkeeping is one step with it
    refine hend es outcome locks t₀ t hset hledger htrace hg fun s' hbooks => ?_
    have hans : answers t.trace = answers s.trace ++ es := by
      rw [htrace, answers_append, answers_map_event]
    refine hg.tail (.settle hset hans (fun hop => ?_) hbooks)
    · obtain ⟨hun, hbuilt⟩ := honce hop
      rw [htrace]
      refine ⟨fun tx' outcome' he => ?_, List.mem_append_left _ hbuilt⟩
      rcases List.mem_append.mp he with he | he
      · exact hun tx' outcome' he
      · obtain ⟨a, -, ha⟩ := List.mem_map.mp he
        cases ha

end Faucet

end DashFaucet

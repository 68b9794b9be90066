import DashFaucet.Chain.Lookups
import DashFaucet.Chain.Redraws
import DashFaucet.Treasury.Spending

/-!
# Settling a broadcast

`settleBroadcast` decides from two rounds of relays and one lookup whether a transaction is on the
network, and locks its inputs unless it is certain that it is not.

* `Faucet.Settles`: the six ways a settlement ends, each with the answers that lead there.
* `Faucet.wp_settleBroadcast`: the rule of `settleBroadcast` under any contract that records
  answers; every spender of the Treasury is verified with it.
* `Faucet.Settles.vouched`, `Faucet.Settles.rejects`: what an acceptance and a rejection prove.
* `Faucet.settleBroadcast_frees_no_live_coin`: no coin that may be gone is freed.
-/

namespace DashFaucet

open Async

/-- An answer as an event. -/
def Answered.event (e : Answered) : Event := .io e.1 e.2

/-- The answers among some events, in order. -/
def answers (es : List Event) : List Answered :=
  es.filterMap fun
    | .io q a => some ⟨q, a⟩
    | _ => none

@[simp] theorem answers_append (es es' : List Event) :
    answers (es ++ es') = answers es ++ answers es' := List.filterMap_append ..

@[simp] theorem answers_map_event (es : List Answered) : answers (es.map Answered.event) = es := by
  induction es with
  | nil => rfl
  | cons e es ih => simpa [answers, Answered.event] using ih

/-- `s'` differs from `s` in the administration's tables at most. -/
structure Unmoved (s s' : State) : Prop where
  ledger : s'.ledger = s.ledger
  past : s'.past = s.past
  running : s'.running = s.running
  now : s'.now = s.now
  trace : s'.trace = s.trace

/-- Contracts under which the record grows by the answers, and by nothing while waiting. -/
structure Recording (C : Contract Query Answer State) : Prop where
  emit_eq : ∀ q a, C.emit q a = State.note (.io q a)
  guar_refl : ∀ s, C.guar s s
  rely_unmoved : ∀ s s', C.rely s s' → Unmoved s s'
  ask_noRelay : ∀ q s, NoRelay q → C.ask q s

/-- Waiting adds the answers to the record and changes nothing else of the run. -/
theorem Recording.heard {C : Contract Query Answer State} (hC : Recording C) {es : List Answered}
    {s t : State} (h : Heard C es s t) :
    t.ledger = s.ledger ∧ (t.past = s.past ∧ t.running = s.running ∧ t.now = s.now) ∧
      t.trace = s.trace ++ es.map Answered.event := by
  induction h with
  | nil s => simp
  | cons q a hrely _ ih =>
    have hun := hC.rely_unmoved _ _ hrely
    rw [hC.emit_eq] at ih
    simpa [State.note, hun.ledger, hun.past, hun.running, hun.now, hun.trace, Answered.event]
      using ih

/-- The rule of programs that only look things up. -/
theorem Recording.wp_lookup {C : Contract Query Answer State} (hC : Recording C) {α : Type}
    {p : Prog α} (hp : p.Quiet NoRelay) {Post : Except Thrown α → State → State → Prop}
    {s₀ s : State} (hs : C.guar s₀ s)
    (h : ∀ es r t₀ t, Transcript p es r → Heard C es s t → C.guar t₀ t → Post r t₀ t) :
    wp C Post p s₀ s :=
  wp_quiet hC.guar_refl hp hs (fun q _ _ t' hq _ _ => hC.ask_noRelay q t' hq) h

/-- The rule of a broadcast, which has to be allowed to hand its bytes to relays. -/
theorem Recording.wp_broadcast {C : Contract Query Answer State} (hC : Recording C)
    {cc : ChainClient} {rawHex txid : String}
    {Post : Except Thrown BroadcastResult → State → State → Prop} {s₀ s : State}
    (hs : C.guar s₀ s)
    (hask : ∀ relays t, s.trace <+: t.trace → C.ask (.relay relays rawHex) t)
    (h : ∀ es r t₀ t, Transcript (cc.broadcast rawHex txid : Prog _) es r → Heard C es s t →
      C.guar t₀ t → Post r t₀ t) :
    wp C Post (cc.broadcast rawHex txid : Prog _) s₀ s := by
  refine wp_quiet hC.guar_refl ChainClient.quiet_broadcast hs (fun q es t t' hq ht ht' => ?_) h
  rcases hq with hq | ⟨relays, rfl⟩
  · exact hC.ask_noRelay q t' hq.noRelay
  · refine hask relays t' ⟨es.map Answered.event, ?_⟩
    obtain ⟨-, -, htrace⟩ := hC.heard ht
    rw [(hC.rely_unmoved t t' ht').trace, htrace]

/-- Whether a broadcast that may be live was accepted; `none` when it is certain that it is
not live. -/
def BroadcastSettlement.accepted? : BroadcastSettlement → Option Bool
  | .ok _ => some true
  | .failed _ true => some false
  | .failed _ false => none

/-- Some relay was handed this transaction and did not explicitly reject it. -/
def MayBeLive (hex : String) (es : List Answered) : Prop :=
  ∃ o ∈ relayOutcomes hex es, ¬Rejects o

/-- How a settlement leaves the state: the inputs locked or not, and the outcome on record. -/
def State.conclude (built : BuiltTx) (outcome : BroadcastSettlement) (locks : Bool) (now : ℤ)
    (s : State) : State :=
  (if locks then s.lockInputs built now else s).note (.settled built outcome)

/-- Concluding asks nothing. -/
theorem answers_conclude (built : BuiltTx) (outcome : BroadcastSettlement) (locks : Bool) (now : ℤ)
    (s : State) : answers (s.conclude built outcome locks now).trace = answers s.trace := by
  cases locks with
  | false =>
    change answers (s.trace ++ [.settled built outcome]) = _
    rw [answers_append]
    exact List.append_nil _
  | true =>
    change answers (s.trace ++ [.locked built] ++ [.settled built outcome]) = _
    rw [answers_append, answers_append]
    exact (List.append_nil _).trans (List.append_nil _)

namespace Faucet

variable {f : Faucet} {built : BuiltTx} {es : List Answered}

/-- The ways a settlement ends: what was answered, the outcome, and whether it locks the inputs. -/
inductive Settles (f : Faucet) (built : BuiltTx) :
    List Answered → BroadcastSettlement → Bool → Prop where
  /-- The first broadcast was accepted. -/
  | accepted {es : List Answered} {res : BroadcastResult}
      (h : Transcript (f.chain.broadcast built.hex built.txid : Prog _) es (.ok res))
      (hacc : res.accepted ≠ []) : Settles f built es (.ok res.accepted) false
  /-- The first broadcast was in doubt, the second was accepted. -/
  | acceptedAgain {es es' : List Answered} {res res' : BroadcastResult}
      (h : Transcript (f.chain.broadcast built.hex built.txid : Prog _) es (.ok res))
      (hacc : res.accepted = []) (hamb : res.ambiguous ≠ [])
      (h' : Transcript (f.chain.broadcast built.hex built.txid : Prog _) es' (.ok res'))
      (hacc' : res'.accepted ≠ []) : Settles f built (es ++ es') (.ok res'.accepted) false
  /-- Both broadcasts were in doubt, and a provider knows the transaction. -/
  | observed {es es' es'' : List Answered} {res res' : BroadcastResult}
      (h : Transcript (f.chain.broadcast built.hex built.txid : Prog _) es (.ok res))
      (hacc : res.accepted = []) (hamb : res.ambiguous ≠ [])
      (h' : Transcript (f.chain.broadcast built.hex built.txid : Prog _) es' (.ok res'))
      (hacc' : res'.accepted = [])
      (h'' : Transcript (f.chain.anyKnowsTx built.txid : Prog _) es'' (.ok (some true))) :
      Settles f built (es ++ es' ++ es'') (.ok ["observed on-chain"]) false
  /-- Nothing resolved the doubt. -/
  | uncertain {es es' es'' : List Answered} {res res' : BroadcastResult} {known : Option Bool}
      (h : Transcript (f.chain.broadcast built.hex built.txid : Prog _) es (.ok res))
      (hacc : res.accepted = []) (hamb : res.ambiguous ≠ [])
      (h' : Transcript (f.chain.broadcast built.hex built.txid : Prog _) es' (.ok res'))
      (hacc' : res'.accepted = [])
      (h'' : Transcript (f.chain.anyKnowsTx built.txid : Prog _) es'' (.ok known))
      (hknown : known ≠ some true) :
      Settles f built (es ++ es' ++ es'')
        (.failed (.chainUnavailable "broadcast could not be confirmed, please retry") true) true
  /-- Every relay rejected, one of them because a coin is gone. -/
  | stale {es : List Answered} {res : BroadcastResult}
      (h : Transcript (f.chain.broadcast built.hex built.txid : Prog _) es (.ok res))
      (hacc : res.accepted = []) (hamb : res.ambiguous = []) :
      Settles f built es
        (.failed (.chainUnavailable "stale coin view, please retry") false) true
  /-- Every relay rejected. -/
  | rejected {es : List Answered} {res : BroadcastResult}
      (h : Transcript (f.chain.broadcast built.hex built.txid : Prog _) es (.ok res))
      (hacc : res.accepted = []) (hamb : res.ambiguous = []) :
      Settles f built es (.failed (.chainUnavailable "broadcast rejected") false) false

/-- The ways a settlement throws, with what was answered. -/
inductive Aborts (f : Faucet) (built : BuiltTx) : List Answered → Prop where
  /-- The first broadcast threw. -/
  | unasked {es : List Answered} {e : Thrown}
      (h : Transcript (f.chain.broadcast built.hex built.txid : Prog _) es (.error e)) :
      Aborts f built es
  /-- The first broadcast was in doubt, the second threw. -/
  | again {es es' : List Answered} {res : BroadcastResult} {e : Thrown}
      (h : Transcript (f.chain.broadcast built.hex built.txid : Prog _) es (.ok res))
      (hacc : res.accepted = []) (hamb : res.ambiguous ≠ [])
      (h' : Transcript (f.chain.broadcast built.hex built.txid : Prog _) es' (.error e)) :
      Aborts f built (es ++ es')
  /-- Both broadcasts were in doubt, and the lookup threw. -/
  | lookup {es es' es'' : List Answered} {res res' : BroadcastResult} {e : Thrown}
      (h : Transcript (f.chain.broadcast built.hex built.txid : Prog _) es (.ok res))
      (hacc : res.accepted = []) (hamb : res.ambiguous ≠ [])
      (h' : Transcript (f.chain.broadcast built.hex built.txid : Prog _) es' (.ok res'))
      (hacc' : res'.accepted = [])
      (h'' : Transcript (f.chain.anyKnowsTx built.txid : Prog _) es'' (.error e)) :
      Aborts f built (es ++ es' ++ es'')

/-! ### What an outcome proves -/

/-- The transaction is on the network: a configured relay took it, or a configured provider
knows it. -/
def Vouched (built : BuiltTx) (es : List Answered) : Prop :=
  (∃ o ∈ relayOutcomes built.hex es, Vouches o) ∨ ∃ e ∈ es, Knows built.txid e

/-- The result of a broadcast that did not throw. -/
theorem broadcast_result {res : BroadcastResult}
    (h : Transcript (f.chain.broadcast built.hex built.txid : Prog _) es (.ok res)) :
    res = (f.chain.tally built.txid (relayOutcomes built.hex es)).result built.txid := by
  rcases ChainClient.broadcast_transcript h with ⟨e, he, -⟩ | hok
  · cases he
  · injection hok

/-- A broadcast with an acceptance has a configured relay to vouch for it. -/
theorem vouches_of_accepted {res : BroadcastResult}
    (h : Transcript (f.chain.broadcast built.hex built.txid : Prog _) es (.ok res))
    (hacc : res.accepted ≠ []) : ∃ o ∈ relayOutcomes built.hex es, Vouches o := by
  rw [broadcast_result h, ChainClient.result_accepted_ne_nil] at hacc
  exact (ChainClient.accepted_ne_nil _ _).mp hacc

theorem not_vouched_append {es' : List Answered} (h : ¬Vouched built es)
    (h' : ¬Vouched built es') : ¬Vouched built (es ++ es') := by
  rintro (⟨o, ho, hv⟩ | ⟨e, he, hk⟩)
  · rw [relayOutcomes_append, List.mem_append] at ho
    exact ho.elim (fun ho => h (.inl ⟨o, ho, hv⟩)) fun ho => h' (.inl ⟨o, ho, hv⟩)
  · exact (List.mem_append.mp he).elim (fun he => h (.inr ⟨e, he, hk⟩))
      fun he => h' (.inr ⟨e, he, hk⟩)

/-- A broadcast that throws asked no relay. -/
theorem not_vouched_of_throw {e : Thrown}
    (h : Transcript (f.chain.broadcast built.hex built.txid : Prog _) es (.error e)) :
    ¬Vouched built es := by
  rintro (⟨o, ho, -⟩ | ⟨e, he, hk⟩)
  · rcases ChainClient.broadcast_transcript h with ⟨e, -, hnil⟩ | hok
    · rw [hnil] at ho
      cases ho
    · cases hok
  · exact ChainClient.not_knows_of_broadcast h e he hk

/-- A broadcast without an acceptance has nobody to vouch for it. -/
theorem not_vouched_of_broadcast {res : BroadcastResult}
    (h : Transcript (f.chain.broadcast built.hex built.txid : Prog _) es (.ok res))
    (hacc : res.accepted = []) : ¬Vouched built es := by
  rintro (hv | ⟨e, he, hk⟩)
  · rw [broadcast_result h] at hacc
    exact ChainClient.result_accepted_ne_nil.mpr
      ((ChainClient.accepted_ne_nil f.chain _).mpr hv) hacc
  · exact ChainClient.not_knows_of_broadcast h e he hk

/-- A lookup that does not say yes vouches for nothing. -/
theorem not_vouched_of_lookup {r : Except Thrown (Option Bool)}
    (h : Transcript (f.chain.anyKnowsTx built.txid : Prog _) es r) (hr : r ≠ .ok (some true)) :
    ¬Vouched built es := by
  rintro (⟨o, ho, -⟩ | hk)
  · rw [ChainClient.relayOutcomes_eq_nil
      (ChainClient.quiet_anyKnowsTx.of_mem_transcript h)] at ho
    cases ho
  · exact hr ((ChainClient.anyKnowsTx_transcript h).mpr hk)

/-- A settlement that throws vouches for nothing. -/
theorem Aborts.not_vouched (h : f.Aborts built es) : ¬Vouched built es := by
  cases h with
  | unasked h => exact not_vouched_of_throw h
  | again h hacc _ h' =>
    exact not_vouched_append (not_vouched_of_broadcast h hacc) (not_vouched_of_throw h')
  | lookup h hacc _ h' hacc' h'' =>
    refine not_vouched_append (not_vouched_append (not_vouched_of_broadcast h hacc)
      (not_vouched_of_broadcast h' hacc')) (not_vouched_of_lookup h'' ?_)
    rintro ⟨⟩

/-- **The rule of `settleBroadcast`.** It ends in one of the ways of `Settles`, or throws in one of
those of `Aborts` with nothing done. -/
theorem wp_settleBroadcast {C : Contract Query Answer State} (hC : Recording C) {now : ℤ}
    {Post : Except Thrown BroadcastSettlement → State → State → Prop} {s₀ s : State}
    (hs : C.guar s₀ s)
    (hask : ∀ relays t, s.trace <+: t.trace → C.ask (.relay relays built.hex) t)
    (hthrow : ∀ es e t₀ t, f.Aborts built es → Heard C es s t → C.guar t₀ t →
      Post (.error e) t₀ t)
    (hend : ∀ es outcome locks t₀ t, Settles f built es outcome locks → Heard C es s t →
      C.guar t₀ t → Post (.ok outcome) t₀ (t.conclude built outcome locks now)) :
    wp C Post (f.settleBroadcast built now) s₀ s := by
  simp only [settleBroadcast, wp_bind]
  refine hC.wp_broadcast hs hask fun es r t₀ t h hh hg => ?_
  cases r with
  | error e => exact hthrow es e t₀ t (.unasked h) hh hg
  | ok res =>
    rw [bindPost_ok]
    by_cases hacc : res.accepted = []
    -- no relay accepted
    · simp only [hacc, ne_eq, not_true, if_false]
      by_cases hamb : res.ambiguous = []
      · simp only [hamb, not_true, if_false]
        split
        · exact hend es _ true t₀ t (.stale h hacc hamb) hh hg
        · exact hend es _ false t₀ t (.rejected h hacc hamb) hh hg
      · -- in doubt: the same bytes again
        simp only [hamb, not_false_eq_true, if_true, wp_bind]
        obtain ⟨-, -, htrace⟩ := hC.heard hh
        refine hC.wp_broadcast hg (fun relays u hu => hask relays u ?_)
          fun es' r' t₀ t' h' hh' hg' => ?_
        · exact (htrace ▸ List.prefix_append _ _ : s.trace <+: t.trace).trans hu
        have hheard := hh.trans hh'
        cases r' with
        | error e => exact hthrow _ e t₀ t' (.again h hacc hamb h') hheard hg'
        | ok res' =>
          rw [bindPost_ok]
          by_cases hacc' : res'.accepted = []
          · simp only [hacc', not_true, if_false, wp_bind]
            -- still in doubt: the providers are asked whether they know it
            refine hC.wp_lookup ChainClient.quiet_anyKnowsTx hg'
              fun es'' r'' t₀ t'' h'' hh'' hg'' => ?_
            have hheard' := hheard.trans hh''
            cases r'' with
            | error e => exact hthrow _ e t₀ t'' (.lookup h hacc hamb h' hacc' h'') hheard' hg''
            | ok known =>
              rw [bindPost_ok]
              by_cases hknown : known = some true
              · subst hknown
                exact hend _ _ false t₀ t'' (.observed h hacc hamb h' hacc' h'') hheard' hg''
              · simp only [hknown, if_false]
                exact hend _ _ true t₀ t'' (.uncertain h hacc hamb h' hacc' h'' hknown) hheard'
                  hg''
          · simp only [hacc', not_false_eq_true, if_true]
            -- the second round was accepted
            exact hend _ _ false t₀ t' (.acceptedAgain h hacc hamb h' hacc') hheard hg'
    · simp only [hacc, ne_eq, not_false_eq_true, if_true]
      -- the first round was accepted
      exact hend es _ false t₀ t (.accepted h hacc) hh hg

/-- **An acceptance is vouched** by a configured relay or a configured provider. -/
theorem Settles.vouched {accepted : List String} {locks : Bool}
    (h : Settles f built es (.ok accepted) locks) : Vouched built es := by
  cases h with
  | accepted h hacc => exact .inl (vouches_of_accepted h hacc)
  | acceptedAgain _ _ _ h' hacc' =>
    obtain ⟨o, ho, hv⟩ := vouches_of_accepted h' hacc'
    rw [Vouched, relayOutcomes_append]
    exact .inl ⟨o, List.mem_append_right _ ho, hv⟩
  | observed _ _ _ _ _ h'' =>
    obtain ⟨e, he, hk⟩ := (ChainClient.anyKnowsTx_transcript h'').mp rfl
    exact .inr ⟨e, List.mem_append_right _ he, hk⟩

/-- A broadcast in doubt was not rejected by everybody. -/
theorem mayBeLive_of_ambiguous {res : BroadcastResult}
    (h : Transcript (f.chain.broadcast built.hex built.txid : Prog _) es (.ok res))
    (hamb : res.ambiguous ≠ []) : MayBeLive built.hex es := by
  rw [broadcast_result h] at hamb
  exact ChainClient.exists_not_rejects_of_ambiguous f.chain hamb

theorem mayBeLive_append_left {hex : String} {es es' : List Answered} (h : MayBeLive hex es) :
    MayBeLive hex (es ++ es') := by
  obtain ⟨o, ho, hnot⟩ := h
  refine ⟨o, ?_, hnot⟩
  rw [relayOutcomes_append]
  exact List.mem_append_left _ ho

theorem mayBeLive_append_right {hex : String} {es es' : List Answered} (h : MayBeLive hex es') :
    MayBeLive hex (es ++ es') := by
  obtain ⟨o, ho, hnot⟩ := h
  refine ⟨o, ?_, hnot⟩
  rw [relayOutcomes_append]
  exact List.mem_append_right _ ho

/-- **What is accepted, or left in doubt**, may be live. -/
theorem Settles.mayBeLive {outcome : BroadcastSettlement} {locks : Bool}
    (h : Settles f built es outcome locks) (hout : outcome.accepted?.isSome) :
    MayBeLive built.hex es := by
  cases h with
  | accepted h hacc =>
    obtain ⟨o, ho, hv⟩ := vouches_of_accepted h hacc
    exact ⟨o, ho, ChainClient.not_rejects_of_vouches hv⟩
  | acceptedAgain h _ hamb => exact mayBeLive_append_left (mayBeLive_of_ambiguous h hamb)
  | observed h _ hamb | uncertain h _ hamb =>
    exact mayBeLive_append_left (mayBeLive_append_left (mayBeLive_of_ambiguous h hamb))
  | stale | rejected => cases hout

/-- Nobody vouches for a transaction whose settlement failed. -/
theorem Settles.not_vouched {result : PayoutResult} {uncertain locks : Bool}
    (h : Settles f built es (.failed result uncertain) locks) : ¬Vouched built es := by
  cases h with
  | uncertain h hacc _ h' hacc' h'' hknown =>
    refine not_vouched_append (not_vouched_append (not_vouched_of_broadcast h hacc)
      (not_vouched_of_broadcast h' hacc')) (not_vouched_of_lookup h'' ?_)
    intro hr
    exact hknown (Except.ok.inj hr)
  | stale h hacc | rejected h hacc => exact not_vouched_of_broadcast h hacc

/-- **A certain failure is unanimous.** Every relay asked rejected the transaction. -/
theorem Settles.rejects {result : PayoutResult} {locks : Bool}
    (h : Settles f built es (.failed result false) locks) :
    ∀ o ∈ relayOutcomes built.hex es, Rejects o := by
  cases h with
  | stale h hacc hamb | rejected h hacc hamb =>
    rw [broadcast_result h] at hacc hamb
    exact ChainClient.rejects_of_not_ambiguous _ hacc hamb

/-- And what may be live is accepted or left in doubt. -/
theorem Settles.accepted?_isSome {outcome : BroadcastSettlement} {locks : Bool}
    (h : Settles f built es outcome locks) (hlive : MayBeLive built.hex es) :
    outcome.accepted?.isSome := by
  cases outcome with
  | ok accepted => rfl
  | failed result uncertain =>
    cases uncertain with
    | true => rfl
    | false =>
      obtain ⟨o, ho, hnot⟩ := hlive
      exact absurd (h.rejects o ho) hnot

/-- **A settlement that throws** was of nothing a relay had been asked for, if samples can be drawn
again: nothing that may be live is left behind without an outcome. -/
theorem Aborts.not_mayBeLive (h : f.Aborts built es) {before : List Answered}
    (hbefore : ∀ e ∈ before, NoRelay e.1) (hcan : f.chain.CanRepeat (before ++ es)) :
    ¬MayBeLive built.hex es := by
  have hrelayed : ∀ (relays : List Provider) (settled : Answer (.relay relays built.hex)),
      ¬NoRelay (⟨.relay relays built.hex, settled⟩ : Answered).1 :=
    fun relays _ hno => hno relays built.hex rfl
  cases h with
  | unasked h =>
    rintro ⟨o, ho, -⟩
    rcases ChainClient.broadcast_transcript h with ⟨e, -, hnil⟩ | hok
    · rw [hnil] at ho
      cases ho
    · cases hok
  | again h hacc hamb h' =>
    -- the second broadcast draws what it needs, and does not throw
    exfalso
    obtain ⟨draw, origins, hdraw, ⟨e, he, -⟩ | ⟨hfirst, -, relays, settled, rest, rfl, hrest⟩⟩ :=
      ChainClient.broadcast_draws h
    · cases he
    obtain ⟨draw', origins', hdraw', ⟨e, -, rfl, hnot⟩ | ⟨-, ⟨res', hres⟩, -⟩⟩ :=
      ChainClient.broadcast_draws h'
    · rw [← List.append_assoc] at hcan
      refine hnot ⟨hcan.allUrls hdraw' ?_,
        hcan.hasRelay hbefore hdraw hfirst (hrelayed relays settled) hrest hdraw'⟩
      exact ⟨_, List.mem_append_right _ (List.mem_append_right _ List.mem_cons_self),
        hrelayed relays settled⟩
    · cases hres
  | lookup h hacc hamb h' hacc' h'' =>
    exfalso
    obtain ⟨draw, origins, hdraw, ⟨e, he, -⟩ | ⟨-, -, relays, settled, rest, rfl, -⟩⟩ :=
      ChainClient.broadcast_draws h
    · cases he
    obtain ⟨origins', hdraw', hnot⟩ := ChainClient.anyKnowsTx_draws h''
    rw [← List.append_assoc] at hcan
    refine hnot (hcan.allUrls hdraw' ⟨⟨.relay relays built.hex, settled⟩, ?_, hrelayed _ _⟩)
    simp

/-- A failure is never an answer that reports a payment. -/
theorem Settles.result_ne_ok {result : PayoutResult} {uncertain locks : Bool}
    (h : Settles f built es (.failed result uncertain) locks) (paid : Paid) :
    result ≠ .ok paid := by
  cases h <;> exact PayoutResult.noConfusion

/-- Nobody who is asked about something else vouches. -/
theorem not_vouched_of_reads (h : ∀ e ∈ es, Reads e.1) : ¬Vouched built es := by
  rintro (⟨o, ho, -⟩ | ⟨e, he, providers, settled, rfl, -⟩)
  · rw [ChainClient.relayOutcomes_eq_nil fun e he => (h e he).noRelay] at ho
    cases ho
  · exact h _ he

/-- Nothing that was only read about may be live. -/
theorem not_mayBeLive_of_reads {hex : String} (h : ∀ e ∈ es, Reads e.1) : ¬MayBeLive hex es := by
  rintro ⟨o, ho, -⟩
  rw [ChainClient.relayOutcomes_eq_nil fun e he => (h e he).noRelay] at ho
  cases ho

/-- A failure that locks nothing is certain. -/
theorem Settles.certain_of_not_locks {result : PayoutResult} {uncertain : Bool}
    (h : Settles f built es (.failed result uncertain) false) : uncertain = false := by
  cases h
  rfl

/-- An uncertain failure locks the inputs. -/
theorem Settles.locks_of_uncertain {result : PayoutResult} {locks : Bool}
    (h : Settles f built es (.failed result true) locks) : locks = true := by
  cases h
  rfl

/-! ### One uninterrupted settlement -/

/-- The contract of a program that runs alone. -/
def alone : Contract Query Answer State where
  emit q a := State.note (.io q a)
  rely s s' := s' = s
  guar _ _ := True
  ask _ _ := True

theorem recording_alone : Recording alone where
  emit_eq _ _ := rfl
  guar_refl _ := trivial
  rely_unmoved := by
    rintro s _ rfl
    exact ⟨rfl, rfl, rfl, rfl, rfl⟩
  ask_noRelay _ _ _ := trivial

/-- **Settlement never frees a coin that may be gone.** Whatever the relays and the lookups
answer: `settleBroadcast` returns ok only for a transaction a configured relay or provider vouches
for; when it fails and leaves an input unlocked, every relay it asked rejected the transaction;
and in every broadcast each relay asked has one entry in one of the three lists. -/
theorem settleBroadcast_frees_no_live_coin (f : Faucet) (built : BuiltTx) (now : ℤ)
    (o : ℕ → (q : Query) → Answer q) (n : ℕ) (s : State) :
    (let r := Async.run alone.emit o (f.settleBroadcast built now) n s
     ∃ es, answers r.2.2.trace = answers s.trace ++ es ∧
      (∀ accepted, r.1 = .ok (.ok accepted) → Vouched built es) ∧
      (∀ result uncertain, r.1 = .ok (.failed result uncertain) →
        (∃ i ∈ built.inputs, r.2.2.ledger.isSpent i = false) →
        ∀ outcome ∈ relayOutcomes built.hex es, Rejects outcome)) ∧
    (let r := Async.run alone.emit o (f.chain.broadcast built.hex built.txid) n s
     ∃ es, answers r.2.2.trace = answers s.trace ++ es ∧
      ∀ res, r.1 = .ok res →
        f.chain.OneEntryEach built.txid (relayOutcomes built.hex es) res) := by
  constructor
  · have hwp : wp alone (fun r _ t => ∃ es, answers t.trace = answers s.trace ++ es ∧
        (∀ accepted, r = .ok (.ok accepted) → Vouched built es) ∧
        (∀ result uncertain, r = .ok (.failed result uncertain) →
          (∃ i ∈ built.inputs, t.ledger.isSpent i = false) →
          ∀ outcome ∈ relayOutcomes built.hex es, Rejects outcome))
        (f.settleBroadcast built now) s s := by
      -- the first goal is a settlement that throws, the second one that answers
      refine wp_settleBroadcast recording_alone trivial (fun _ _ _ => trivial)
        (fun es e t₀ t _ hh _ => ?_) (fun es outcome locks t₀ t hset hh _ => ?_)
      · obtain ⟨-, -, htrace⟩ := recording_alone.heard hh
        refine ⟨es, by simp [htrace], ?_, ?_⟩
        · intro accepted hr
          cases hr
        · intro result uncertain hr
          cases hr
      · obtain ⟨-, -, htrace⟩ := recording_alone.heard hh
        refine ⟨es, ?_, ?_, ?_⟩
        · rw [answers_conclude, htrace]
          simp
        · intro accepted hr
          cases hr
          exact hset.vouched
        · rintro result uncertain hr ⟨i, hi, hfree⟩
          cases hr
          cases locks with
          | true =>
            -- every input is locked
            have hspent : (t.ledger.lockInputs built now).isSpent i = true :=
              Ledger.isSpent_lockInputs hi
            simp only [State.conclude, State.note, State.lockInputs, State.withLedger,
              if_true] at hfree
            rw [hspent] at hfree
            cases hfree
          | false =>
            obtain rfl := hset.certain_of_not_locks
            exact hset.rejects
    obtain ⟨t₀, h⟩ := wp_run (fun s => rfl) o hwp n
    exact h
  · have hwp : wp alone (fun r _ t => ∃ es, answers t.trace = answers s.trace ++ es ∧
        ∀ res, r = .ok res → f.chain.OneEntryEach built.txid (relayOutcomes built.hex es) res)
        (f.chain.broadcast built.hex built.txid : Prog _) s s := by
      refine recording_alone.wp_broadcast trivial (fun _ _ _ => trivial)
        fun es r t₀ t h hh _ => ?_
      obtain ⟨-, -, htrace⟩ := recording_alone.heard hh
      refine ⟨es, by simp [htrace], fun res hr => ?_⟩
      subst hr
      rw [broadcast_result h]
      exact f.chain.result_columns built.txid _
    obtain ⟨t₀, h'⟩ := wp_run (fun s => rfl) o hwp n
    exact h'

end Faucet

end DashFaucet

import DashFaucet.Treasury.Conservation
import DashFaucet.Treasury.MergeSafety

/-!
# A pass of maintenance

What a pass that split or merged did, when it ran alone: it computed the view, built one transaction
from it, and recorded that one.

* `Faucet.Reshapes`: what maintenance builds from a view.
* `Faucet.maintain_ran`: the anatomy of such a pass.
-/

namespace DashFaucet

open Async List Relation

namespace Faucet

variable {f : Faucet} {o : ℕ → (q : Query) → Answer q} {key : FaucetKey} {now : ℤ} {s s' : State}

/-! ### Running the parts of a program -/

section Ran

variable {α β : Type} {p : Prog α}

/-- A sequence that returns ran its parts one after the other. -/
theorem Ran.bind {g : α → Prog β} {b : β} (h : Ran o (p >>= g) s (.ok b) s') :
    ∃ a t, Ran o p s (.ok a) t ∧ Ran o (g a) t (.ok b) s' := by
  obtain ⟨n, hres, rfl⟩ := h
  rw [run_bind] at hres
  rw [run_bind]
  rcases hp : Async.run alone.emit o p n s with ⟨r, m, t⟩
  rw [hp] at hres
  cases r with
  | error e => cases hres
  | ok a => exact ⟨a, t, ⟨n, by rw [hp], by rw [hp]⟩, m, hres, rfl⟩

theorem Ran.attempt {r : Except Thrown α} (h : Ran o p.attempt s (.ok r) s') :
    Ran o p s r s' := by
  obtain ⟨n, hres, rfl⟩ := h
  rw [run_attempt] at hres ⊢
  exact ⟨n, Except.ok.inj hres, rfl⟩

theorem Ran.pure {a b : α} (h : Ran o (pure a) s (.ok b) s') : b = a ∧ s' = s := by
  obtain ⟨n, hres, rfl⟩ := h
  exact ⟨(Except.ok.inj hres).symm, rfl⟩

theorem Ran.modify {g : State → State} {u : Unit} (h : Ran o (Async.modify g) s (.ok u) s') :
    s' = g s := by
  obtain ⟨n, -, rfl⟩ := h
  rfl

theorem Ran.read (h : Ran o Async.read s (.ok s') s') : s' = s := by
  obtain ⟨n, -, rfl⟩ := h
  rfl

end Ran

/-! ### The transactions a pass records -/

/-- The transactions recorded among some events, in order. -/
def recordings (es : List Event) : List BuiltTx :=
  es.filterMap fun
    | .recorded tx => some tx
    | _ => none

theorem recordings_append (es es' : List Event) :
    recordings (es ++ es') = recordings es ++ recordings es' := List.filterMap_append ..

/-- Looking around records nothing. -/
theorem recordings_of_looks (h : Looks s s') : recordings s'.trace = recordings s.trace := by
  obtain ⟨es, htrace, hes⟩ := h.trace
  have hnone : recordings es = [] := by
    refine List.filterMap_eq_nil_iff.mpr fun e he => ?_
    cases e with
    | recorded tx => exact (hes _ he).elim
    | _ => rfl
  rw [htrace, recordings_append, hnone, List.append_nil]

/-- Answers are added to the record. -/
theorem foldl_emit (es : List Answered) (s : State) :
    es.foldl (fun s e => alone.emit e.1 e.2 s) s =
      { s with trace := s.trace ++ es.map Answered.event } := by
  induction es generalizing s with
  | nil => simp
  | cons e es ih =>
    rw [List.foldl_cons, ih]
    change { s with trace := s.trace ++ [e.event] ++ es.map Answered.event } = _
    rw [List.append_assoc, List.map_cons, List.singleton_append]

/-- A program that only reads looks around. -/
theorem looks_of_reads {α : Type} {p : Prog α} (hp : p.Quiet Reads) {r : Except Thrown α}
    (h : Ran o p s r s') : Looks s s' ∧ s'.ledger = s.ledger := by
  obtain ⟨n, rfl, rfl⟩ := h
  obtain ⟨es, hes, -, hstore⟩ := run_quiet alone.emit o hp n s
  rw [hstore, foldl_emit]
  refine ⟨⟨rfl, es.map Answered.event, rfl, fun e he => ?_⟩, rfl⟩
  obtain ⟨a, ha, rfl⟩ := List.mem_map.mp he
  exact hp.of_mem_transcript hes a ha

theorem looks_of_spendableUtxos {r : Except Thrown UtxoSnapshot}
    (h : Ran o (f.spendableUtxos key now) s r s') : Looks s s' := by
  obtain ⟨n, -, rfl⟩ := h
  have hwp : wp (f.contract .maintain now) (fun _ _ t => Looks s t)
    (f.spendableUtxos key now) s s :=
    (spendableUtxos_triple key).wp .refl fun _ _ _ _ hlooks => hlooks.1
  obtain ⟨t₀, h⟩ := wp_run (fun _ => ReflTransGen.refl) o hwp n
  exact h

/-- An accepted broadcast records nothing by itself. -/
theorem recordings_of_accepted {built : BuiltTx} {accepted : List String}
    (h : Ran o (f.settleBroadcast built now) s (.ok (.ok accepted)) s') :
    recordings s'.trace = recordings s.trace := by
  obtain ⟨n, hres, rfl⟩ := h
  have hwp : wp alone (fun r _ t => ∀ accepted, r = .ok (.ok accepted) →
      recordings t.trace = recordings s.trace) (f.settleBroadcast built now) s s := by
    refine wp_settleBroadcast recording_alone trivial (fun _ _ _ => trivial)
      (fun es e t₀ t _ _ _ accepted hr => (by cases hr))
      fun es outcome locks t₀ t hset hh _ accepted hr => ?_
    cases hr
    obtain ⟨-, -, htrace⟩ := recording_alone.heard hh
    have hnone : recordings (es.map Answered.event) = [] := by
      refine List.filterMap_eq_nil_iff.mpr fun e he => ?_
      obtain ⟨a, -, rfl⟩ := List.mem_map.mp he
      rfl
    -- accepted, so nothing is locked
    have hunlocked : t.conclude built (.ok accepted) locks now =
        t.note (.settled built (.ok accepted)) := by cases hset <;> rfl
    rw [hunlocked]
    change recordings (t.trace ++ [_]) = _
    rw [htrace, recordings_append, recordings_append, hnone]
    exact (List.append_nil _).trans (List.append_nil _)
  obtain ⟨t₀, h⟩ := wp_run (fun s => rfl) o hwp n
  exact h accepted hres

/-- From `s` to `s'`, `built` was recorded and nothing else. -/
structure Recorded (now : ℤ) (built : BuiltTx) (s s' : State) : Prop where
  ledger : s'.ledger = s.ledger.recordSpend built now
  trace : recordings s'.trace = recordings s.trace ++ [built]

/-- The common end of a split and a merge: settle, and record what was accepted. -/
theorem recorded_of_settled {built : BuiltTx} {accepted : List String} {t : State}
    (hsettled : Ran o (f.settleBroadcast built now) (s.note (.built built))
      (.ok (.ok accepted)) t) :
    Recorded now built s (t.recordSpend built now) where
  ledger := by
    have hledger : t.ledger = (s.note (.built built)).ledger := ledger_of_accepted hsettled
    change t.ledger.recordSpend built now = _
    rw [hledger]
    rfl
  trace := by
    have htrace := recordings_of_accepted hsettled
    change recordings (t.trace ++ [.locked built] ++ [.recorded built]) = _
    rw [recordings_append, recordings_append, htrace]
    change recordings (s.trace ++ [.built built]) ++ [] ++ [built] = _
    rw [recordings_append, List.append_nil]
    exact congrArg (· ++ [built]) (List.append_nil _)

/-! ### The anatomy of a pass -/

/-- A pass that put a transaction on the network. -/
def Productive (result : MaintenanceResult) : Prop :=
  result.action = .split ∨ result.action = .consolidate

/-- A merge that maintenance plans for a view. -/
def Planned (f : Faucet) (view : UtxoSnapshot) (inputs : List Utxo) : Prop :=
  (∃ goal reaches, 0 < goal ∧ f.planMerge view goal = .merge inputs reaches) ∨
    ∃ reaches, f.cfg.planTidy view = some (.merge inputs reaches)

/-- What maintenance builds from a view: a split of one of its coins into two pool coins or more,
no more than are wanted, or a planned merge. -/
inductive Reshapes (f : Faucet) (view : UtxoSnapshot) (built : BuiltTx) : Prop where
  | split {biggest : Utxo} {key : FaucetKey} {es : List Answered} (hcoin : biggest ∈ view.utxos)
      (htwo : 2 ≤ f.splitCount ((f.cfg.poolTarget : ℤ) - (f.poolCoins view).length)
        biggest.satoshis)
      (h : Transcript (f.dash.buildSplit key [biggest] (f.splitCount
        ((f.cfg.poolTarget : ℤ) - (f.poolCoins view).length) biggest.satoshis).toNat
        f.cfg.poolUtxoSats : Prog _) es (.ok built))
  | merge {inputs : List Utxo} {key : FaucetKey} {es : List Answered}
      (hplan : f.Planned view inputs)
      (h : Transcript (f.dash.buildConsolidation key inputs : Prog _) es (.ok built))

variable {result : MaintenanceResult} {view : UtxoSnapshot}

/-- The result of a pass that did nothing. -/
theorem not_productive {detail : String} {txid : Option String} {action : MaintenanceAction}
    (haction : action ≠ .split ∧ action ≠ .consolidate) : ¬Productive ⟨action, detail, txid⟩ := by
  rintro (h | h)
  · exact haction.1 h
  · exact haction.2 h

/-- The common tail of a split and a merge that built something. -/
theorem settled_ran {built : BuiltTx} {blocked done : MaintenanceResult}
    (hblocked : ¬Productive blocked) (h : Ran o (do
      note (.built built)
      match ← f.settleBroadcast built now with
      | .failed .. => pure blocked
      | .ok _ =>
        modify (State.recordSpend built now)
        pure done) s (.ok result) s') (hact : Productive result) : Recorded now built s s' := by
  obtain ⟨u, t, hnote, h⟩ := h.bind
  obtain rfl := hnote.modify
  obtain ⟨outcome, t', hsettle, h⟩ := h.bind
  -- a productive pass was accepted
  cases outcome with
  | failed r uncertain =>
    obtain ⟨rfl, -⟩ := h.pure
    exact absurd hact hblocked
  | ok accepted =>
    obtain ⟨u', t'', hrecord, h⟩ := h.bind
    obtain rfl := hrecord.modify
    obtain ⟨-, rfl⟩ := h.pure
    exact recorded_of_settled hsettle

/-- What was recorded after looking around was recorded. -/
theorem Recorded.of_looks {built : BuiltTx} {t : State} (h : Recorded now built t s')
    (hlooks : Looks s t) (hledger : t.ledger = s.ledger) : Recorded now built s s' where
  ledger := by rw [h.ledger, hledger]
  trace := by rw [h.trace, recordings_of_looks hlooks]

theorem merge_ran {inputs : List Utxo} {reaches : Bool}
    (h : Ran o (f.merge key inputs reaches now) s (.ok result) s') (hact : Productive result) :
    ∃ built es, Transcript (f.dash.buildConsolidation key inputs : Prog _) es (.ok built) ∧
      Recorded now built s s' := by
  unfold merge at h
  split at h
  · obtain ⟨rfl, -⟩ := h.pure
    exact absurd hact (not_productive (by decide))
  · obtain ⟨r, t, hbuild, h⟩ := h.bind
    have hbuild := hbuild.attempt
    cases r with
    | error e =>
      obtain ⟨rfl, -⟩ := h.pure
      exact absurd hact (not_productive (by decide))
    | ok built =>
      obtain ⟨hlooks, hledger⟩ := looks_of_reads DashTx.reads_buildConsolidation hbuild
      obtain ⟨⟨es, hes⟩, -⟩ := transcript_of_ran DashTx.reads_buildConsolidation hbuild
      have hrec := settled_ran (not_productive (by decide)) h hact
      exact ⟨built, es, hes, hrec.of_looks hlooks hledger⟩

theorem split_ran {biggest : Utxo} {poolCount : ℕ}
    (h : Ran o (f.split key biggest poolCount now) s (.ok result) s') (hact : Productive result) :
    2 ≤ f.splitCount ((f.cfg.poolTarget : ℤ) - poolCount) biggest.satoshis ∧
      ∃ built es, Transcript (f.dash.buildSplit key [biggest] (f.splitCount
        ((f.cfg.poolTarget : ℤ) - poolCount) biggest.satoshis).toNat f.cfg.poolUtxoSats : Prog _) es
        (.ok built) ∧ Recorded now built s s' := by
  unfold split at h
  dsimp only at h
  split at h
  · obtain ⟨rfl, -⟩ := h.pure
    exact absurd hact (not_productive (by decide))
  next htwo =>
    split at h
    · obtain ⟨rfl, -⟩ := h.pure
      exact absurd hact (not_productive (by decide))
    · obtain ⟨r, t, hbuild, h⟩ := h.bind
      have hbuild := hbuild.attempt
      cases r with
      | error e =>
        obtain ⟨rfl, -⟩ := h.pure
        exact absurd hact (not_productive (by decide))
      -- only a split that was built and accepted is productive
      | ok built =>
        obtain ⟨hlooks, hledger⟩ := looks_of_reads DashTx.reads_buildSplit hbuild
        obtain ⟨⟨es, hes⟩, -⟩ := transcript_of_ran DashTx.reads_buildSplit hbuild
        have hrec := settled_ran (not_productive (by decide)) h hact
        exact ⟨by omega, built, es, hes, hrec.of_looks hlooks hledger⟩

/-- A merge this plan asks for is a planned one. -/
def Plans (f : Faucet) (view : UtxoSnapshot) : MergePlan → Prop
  | .merge inputs _ => f.Planned view inputs
  | _ => True

theorem planMerge_plans {goal : ℕ} (hgoal : 0 < goal) : f.Plans view (f.planMerge view goal) := by
  cases h : f.planMerge view goal with
  | none _ => trivial
  | waiting _ => trivial
  | merge inputs reaches => exact .inl ⟨goal, reaches, hgoal, h⟩

theorem tidied_plans {plan : MergePlan} : f.Plans view plan → f.Plans view (match plan with
    | .none _ => if f.merging then (f.cfg.planTidy view).getD plan else plan
    | _ => plan) := by
  intro h
  split
  · split
    · cases ht : f.cfg.planTidy view with
      | none => exact h
      | some plan' =>
        cases plan' with
        | none _ => trivial
        | waiting _ => trivial
        | merge inputs reaches => exact .inr ⟨reaches, ht⟩
    · trivial
  · exact h

theorem planGoals_ran {demand : ℕ} {goals : List ℕ} {plan plan' : MergePlan}
    (hgoals : ∀ goal ∈ goals, 0 < goal) (hplan : f.Plans view plan)
    (h : Ran o (f.planGoals view demand goals plan) s (.ok plan') s') :
    Redemanded s s' ∧ f.Plans view plan' := by
  -- goal by goal; only demands are dropped on the way
  induction goals generalizing plan s with
  | nil =>
    obtain ⟨rfl, rfl⟩ := Ran.pure h
    exact ⟨.refl _, hplan⟩
  | cons goal goals ih =>
    have hrest := fun g hg => hgoals g (List.mem_cons_of_mem goal hg)
    have hmerge : f.Plans view (f.planMerge view goal) :=
      planMerge_plans (hgoals goal List.mem_cons_self)
    unfold planGoals at h
    split at h
    · dsimp only at h
      split at h
      · obtain ⟨u, t, hdrop, h⟩ := h.bind
        obtain rfl := hdrop.modify
        obtain ⟨hre, hplan'⟩ := ih hrest (by trivial) h
        exact ⟨(Redemanded.filterDemand _ s).trans hre, hplan'⟩
      · exact ih hrest (by trivial) h
    · obtain ⟨rfl, rfl⟩ := h.pure
      exact ⟨.refl _, hmerge⟩

/-- After merge demands changed, and looking around, a transaction was recorded. -/
def RecordedAfter (now : ℤ) (built : BuiltTx) (s s' : State) : Prop :=
  ∃ t, Redemanded s t ∧ Recorded now built t s'

theorem consolidate_ran {poolCount : ℕ}
    (h : Ran o (f.consolidate key view poolCount now) s (.ok result) s')
    (hact : Productive result) :
    ∃ built, f.Reshapes view built ∧ RecordedAfter now built s s' := by
  unfold consolidate at h
  obtain ⟨demand, t, hdemand, h⟩ := h.bind
  -- reading the demand drops what is out of date
  have hre : Redemanded s t := by
    obtain ⟨u, t₁, hdrop, hdemand⟩ := hdemand.bind
    obtain rfl := hdrop.modify
    obtain ⟨s₁, t₂, hread, hdemand⟩ := hdemand.bind
    obtain ⟨n, -, rfl⟩ := hread
    obtain ⟨-, rfl⟩ := hdemand.pure
    exact Redemanded.filterDemand _ s
  obtain ⟨plan, t', hgoals, h⟩ := h.bind
  obtain ⟨hre', hplan⟩ := planGoals_ran (f := f) goals_pos (by trivial) hgoals
  dsimp only at h
  split at h
  · next inputs reaches heq =>
    have hplanned : f.Plans view (.merge inputs reaches) := by
      rw [← heq]
      exact tidied_plans hplan
    obtain ⟨built, es, hes, hrec⟩ := merge_ran h hact
    exact ⟨built, .merge hplanned hes, t', hre.trans hre', hrec⟩
  · obtain ⟨rfl, -⟩ := h.pure
    exact absurd hact (not_productive (by decide))
  · obtain ⟨rfl, -⟩ := h.pure
    exact absurd hact (not_productive (by decide))

theorem refill_ran (hpool : 1 ≤ f.cfg.poolUtxoSats)
    (h : Ran o (f.refill key view (f.poolCoins view).length now) s (.ok result) s')
    (hact : Productive result) :
    ∃ built, f.Reshapes view built ∧ RecordedAfter now built s s' := by
  unfold refill at h
  dsimp only at h
  split at h
  · next inputs reaches heq =>
    split at heq
    · obtain ⟨built, es, hes, hrec⟩ := merge_ran h hact
      exact ⟨built, .merge (.inl ⟨_, reaches, by omega, heq⟩) hes, s, .refl s, hrec⟩
    · cases heq
  · split at h
    · obtain ⟨rfl, -⟩ := h.pure
      exact absurd hact (not_productive (by decide))
    · next biggest hbig =>
      obtain ⟨htwo, built, es, hes, hrec⟩ := split_ran h hact
      exact ⟨built, .split (mem_of_splittable hbig) htwo hes, s, .refl s, hrec⟩

/-- **The anatomy of a pass.** A pass that split or merged computed the view on a pruned ledger,
built a transaction from it, and recorded it and no other. -/
theorem maintain_ran (hpool : 1 ≤ f.cfg.poolUtxoSats)
    (h : Ran o (f.maintain now) s (.ok result) s') (hact : Productive result) :
    ∃ key view s₀ s₁ built demands, s₀.ledger = s.ledger.prune f.cfg now ∧
      Ran o (f.spendableUtxos key now) s₀ (.ok view) s₁ ∧ f.Reshapes view built ∧
      s'.ledger = { s₁.ledger with mergeDemand := demands }.recordSpend built now ∧
      recordings s'.trace = recordings s.trace ++ [built] := by
  unfold maintain at h
  obtain ⟨result', t, hlocked, h⟩ := h.bind
  -- booking the next pass only asks
  have hbooked : result' = result ∧ Looks t s' ∧ s'.ledger = t.ledger := by
    dsimp only at h
    split at h
    · obtain ⟨u, t', hbook, h⟩ := h.bind
      obtain ⟨rfl, rfl⟩ := h.pure
      exact ⟨rfl, looks_of_reads (reads_scheduleMaintenance _) hbook⟩
    · obtain ⟨u, t', hbook, h⟩ := h.bind
      obtain ⟨rfl, rfl⟩ := h.pure
      exact ⟨rfl, looks_of_reads (reads_scheduleMaintenance _) hbook⟩
    · obtain ⟨u, t', hbook, h⟩ := h.bind
      obtain ⟨rfl, rfl⟩ := h.pure
      exact ⟨rfl, looks_of_reads (reads_scheduleMaintenance _) hbook⟩
    · obtain ⟨rfl, rfl⟩ := h.pure
      exact ⟨rfl, .refl _, rfl⟩
    · obtain ⟨rfl, rfl⟩ := h.pure
      exact ⟨rfl, .refl _, rfl⟩
  obtain ⟨rfl, hlooks, hledger⟩ := hbooked
  -- prune, the key, the view: what comes before the decision changes no book
  unfold maintainLocked at hlocked
  obtain ⟨u, t₀, hprune, hlocked⟩ := hlocked.bind
  obtain rfl := hprune.modify
  obtain ⟨key, s₀, hkey, hlocked⟩ := hlocked.bind
  obtain ⟨hlooks₀, hledger₀⟩ := looks_of_reads reads_key hkey
  obtain ⟨r, s₁, hview, hlocked⟩ := hlocked.bind
  have hview := hview.attempt
  cases r with
  | error e =>
    obtain ⟨rfl, -⟩ := hlocked.pure
    exact absurd hact (not_productive (by decide))
  -- a pool that is full is consolidated, a low one refilled
  | ok view =>
    have hdone : ∃ built, f.Reshapes view built ∧ RecordedAfter now built s₁ t := by
      dsimp only at hlocked
      split at hlocked
      · exact consolidate_ran hlocked hact
      · exact refill_ran hpool hlocked hact
    obtain ⟨built, hbuilt, t', ⟨demands, rfl⟩, hrec⟩ := hdone
    refine ⟨key, view, s₀, s₁, built, demands, hledger₀, hview, hbuilt, ?_, ?_⟩
    · rw [hledger, hrec.ledger]
      rfl
    · rw [recordings_of_looks hlooks, hrec.trace]
      change recordings s₁.trace ++ [built] = _
      rw [recordings_of_looks (looks_of_spendableUtxos hview), recordings_of_looks hlooks₀]
      rfl

end Faucet

end DashFaucet

import DashFaucet.Async.Clients
import DashFaucet.Treasury.Runs

/-!
# The Treasury's record, step by step

What the state records of its operations grows with every step: by the operation that begins, and
by what an operation ends with.

* `Faucet.journal`: the record.
* `Faucet.Reached.journal_step`: what a step adds to it.
* `Faucet.Reached.paidWell`: every payout of the record ended as its contract says.
-/

namespace DashFaucet

open Async

namespace Faucet

variable {f : Faucet}

/-- What a state records of its operations: those that began and when, and how they ended. -/
def journal (s : State) : List (Op × ℤ) × List (Except Thrown Reply) :=
  (s.records.map fun r => (r.op, r.now), s.past.map Prod.snd)

theorem journal_continues {s s' : State} (h : Continues s s') : journal s' = journal s := by
  have hrecords : (s'.records.map fun r => (r.op, r.now)) =
      s.records.map fun r => (r.op, r.now) := by
    rw [State.records, State.records, h.past, h.running, List.map_append, List.map_append]
    cases s.running with
    | none => rfl
    | some op => rw [Option.map_some, Option.map_some, h.now]; rfl
  rw [journal, journal, hrecords, h.past]

theorem journal_enter {s : State} (hidle : s.running = none) (op : Op) (t : ℤ) :
    journal (s.enter op t) = ((journal s).1 ++ [(op, t)], (journal s).2) := by
  simp [journal, State.records, State.enter, hidle]

theorem journal_leave {s : State} {op : Op} (hrun : s.running = some op)
    (r : Except Thrown Reply) :
    journal (s.leave op s.now r) = ((journal s).1, (journal s).2 ++ [r]) := by
  simp [journal, State.records, State.leave, hrun]

/-- An operation that goes on, and may end. -/
theorem journal_park {op : Op} {now : ℤ} {s : State} {p : Prog Reply} (clock : ℤ)
    (hrun : s.running = some op) (hnow : s.now = now)
    (h : wp (f.contract op now) (Actor.endsIn (M := f.treasury) f.contract f.EndsWell op now)
      p s s) :
    journal (f.treasury.park clock op now (Actor.advance p s)).store =
      ((journal s).1, (journal s).2 ++ (Actor.ended (Actor.advance p s).1).toList) := by
  obtain ⟨hguar, -⟩ := @Actor.advance_spec _ _ _ _ f.treasury _ _ op now p s s h
  have hcont := continues_of_steps hguar
  have hjournal := journal_continues hcont
  rcases hadvance : Actor.advance p s with ⟨p', s'⟩
  rw [hadvance] at hcont hjournal
  have hrun' : s'.running = some op := hcont.running.trans hrun
  have hnow' : s'.now = now := hcont.now.trans hnow
  subst hnow'
  -- it has ended, or waits
  cases p' with
  | ret r =>
    rw [← hjournal]
    exact journal_leave hrun' (.ok r)
  | throw e =>
    rw [← hjournal]
    exact journal_leave hrun' (.error e)
  | get | set | await =>
    rw [← hjournal]
    exact Prod.ext rfl (List.append_nil _).symm

/-- **What a step records**: the operation it begins, and what an operation ends with. -/
theorem Reached.journal_step {c c' : Actor.Config f.treasury} {i : Actor.Input f.treasury}
    (h : f.Reached c) (hstep : f.treasury.step c i = some c') :
    journal c'.store =
      ((journal c.store).1 ++ i.begun, (journal c.store).2 ++ (Actor.outcome c i).toList) := by
  obtain ⟨-, -, hsound⟩ := h.moves
  have haligned := h.aligned
  obtain ⟨clock, s, running⟩ := c
  cases i with
  | «begin» op t =>
    cases running with
    | some r => simp [Actor.step] at hstep
    | none =>
      simp only [Actor.step] at hstep
      split at hstep
      · cases hstep
        have hidle : s.running = none := haligned.running
        -- the operation that starts runs to its first wait
        refine (@journal_park f op t (s.enter op t) (f.program t op) t rfl rfl
          (meets op t s)).trans ?_
        rw [journal_enter hidle]
        rfl
      · cases hstep
  | resume ans =>
    rcases running with _ | ⟨op, t, p⟩
    · simp [Actor.step] at hstep
    · have hwait := hsound op t p rfl
      cases p with
      | ret | throw | get | set => exact hwait.elim
      | await q k =>
        simp only [Actor.step, Option.some.injEq] at hstep
        subst hstep
        obtain ⟨-, hk⟩ := hwait s (fits.rely_refl op t s)
        -- a resumed one runs to its next, or to its end
        refine (@journal_park f op t (s.note (.io q (ans q))) (k (ans q)) clock haligned.running
          (haligned.time op t rfl) (hk (ans q))).trans ?_
        rw [journal_continues (.note _ s)]
        exact Prod.ext (List.append_nil _).symm rfl
  | call a t =>
    simp only [Actor.step] at hstep
    split at hstep
    · cases hstep
      exact Prod.ext (List.append_nil _).symm (List.append_nil _).symm
    · cases hstep

/-- The payouts of a record ended as their contract says. -/
def PaidWell (f : Faucet) (s : State) : Prop :=
  ∀ x ∈ s.past, ∀ input, x.1.op = .payout input → f.PayoutEnds input x.2 x.1.trace

theorem paidWell_kept : f.Kept f.PaidWell where
  step _ _ _ _ hstep _ h := by
    intro x hx
    rw [hstep.continues.past] at hx
    exact h x hx
  answer _ _ _ _ _ _ _ h := h
  call _ _ _ _ _ h := h
  enter _ _ _ _ _ _ _ h := h
  leave op r s hrun hends _ h := by
    intro x hx input hop
    rcases List.mem_append.mp hx with hx | hx
    · exact h x hx input hop
    · rw [List.mem_singleton.mp hx] at hop ⊢
      exact hends.payout input hop

theorem Reached.paidWell {c : Actor.Config f.treasury} (h : f.Reached c) : f.PaidWell c.store :=
  (paidWell_kept.reached (fun _ _ hx => absurd hx List.not_mem_nil) h).2

end Faucet

end DashFaucet

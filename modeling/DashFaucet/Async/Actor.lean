import Mathlib.Data.Int.Notation
import DashFaucet.Async.Program

/-!
# Single-threaded actors

An actor owns a store. Its *operations* are asynchronous programs that hold a lock: one runs at a
time, from start to end, though it waits at its awaits. Its *calls* are synchronous and take no
lock, so they run whenever the thread is free, in particular while an operation waits. One clock
never goes backwards.

* `Actor`, `Actor.Config`, `Actor.step`, `Actor.exec`: the actor as an executable transition
  system. An input begins an operation, answers the query the running one waits on, or makes a
  call; `exec` folds a list of inputs and is `none` when one of them is not possible.
* `Actor.Phase`, `Actor.Move`: the same system at the grain of a contract. Programs are gone: a
  running operation takes segments its guarantee allows and ends as its postcondition says.
* `Actor.refines`: if every operation meets its contract, every configuration an execution reaches
  is reached by moves. Invariants are then checked move by move (`Actor.invariant`).
-/

open Async

variable {Q : Type} {A : Q → Type} {σ ε : Type}

/-- A single-threaded owner of a store, with operations under a lock and calls outside it. -/
structure Actor (Q : Type) (A : Q → Type) (σ ε : Type) : Type 1 where
  /-- Operations: serialised, may wait. -/
  Op : Type
  /-- Calls: atomic, not serialised with the operations. -/
  Call : Type
  /-- What an operation returns. -/
  Reply : Type
  /-- The program of an operation begun at a given time. -/
  program : Op → ℤ → Async Q A σ ε Reply
  /-- How the store records an answer. -/
  emit : (q : Q) → A q → σ → σ
  /-- How the store records that an operation begins. -/
  enter : Op → ℤ → σ → σ
  /-- How the store records that an operation ends. -/
  leave : Op → ℤ → Except ε Reply → σ → σ
  /-- The effect of a call made at a given time. -/
  call : Call → ℤ → σ → σ

namespace Actor

variable {M : Actor Q A σ ε}

/-! ### The transition system -/

/-- Run a program up to its next await, or to its end. -/
def advance {α : Type} : Async Q A σ ε α → σ → Async Q A σ ε α × σ
  | .ret a, s => (.ret a, s)
  | .throw e, s => (.throw e, s)
  | .get k, s => advance (k s) s
  | .set s k, _ => advance k s
  | .await q k, s => (.await q k, s)

/-- A configuration: the clock, the store, and the operation that holds the lock. -/
structure Config (M : Actor Q A σ ε) where
  clock : ℤ
  store : σ
  running : Option (M.Op × ℤ × Async Q A σ ε M.Reply)

/-- What can happen next. -/
inductive Input (M : Actor Q A σ ε) : Type where
  /-- The lock is free and an operation takes it at time `t`. -/
  | begin (op : M.Op) (t : ℤ)
  /-- The running operation gets its answer: `ans q` when it waits on `q`. -/
  | resume (ans : (q : Q) → A q)
  /-- A call is made at time `t`. -/
  | call (c : M.Call) (t : ℤ)

/-- Put an advanced program back: release the lock if it ended. -/
def park (M : Actor Q A σ ε) (clock : ℤ) (op : M.Op) (t : ℤ) :
    Async Q A σ ε M.Reply × σ → Config M
  | (.ret r, s) => ⟨clock, M.leave op t (.ok r) s, none⟩
  | (.throw e, s) => ⟨clock, M.leave op t (.error e) s, none⟩
  | (p, s) => ⟨clock, s, some (op, t, p)⟩

/-- One step, or `none` when the input is not possible. -/
def step (M : Actor Q A σ ε) (c : Config M) : Input M → Option (Config M)
  | .begin op t =>
    match c.running with
    | none =>
      if c.clock ≤ t then some (M.park t op t (advance (M.program op t) (M.enter op t c.store)))
      else none
    | some _ => none
  | .resume ans =>
    match c.running with
    | some (op, t, .await q k) =>
      some (M.park c.clock op t (advance (k (ans q)) (M.emit q (ans q) c.store)))
    | _ => none
  -- a method without awaits runs at any time, also while an operation waits
  | .call a t =>
    if c.clock ≤ t then some ⟨t, M.call a t c.store, c.running⟩ else none

/-- Run a list of inputs. -/
def exec (M : Actor Q A σ ε) (c : Config M) (is : List (Input M)) : Option (Config M) :=
  is.foldlM M.step c

@[simp] theorem exec_nil (c : Config M) : M.exec c [] = some c := rfl

theorem exec_cons (c : Config M) (i : Input M) (is : List (Input M)) :
    M.exec c (i :: is) = (M.step c i).bind fun c' => M.exec c' is := rfl

theorem exec_append (c : Config M) (is js : List (Input M)) :
    M.exec c (is ++ js) = (M.exec c is).bind fun c' => M.exec c' js := by
  simp only [exec, List.foldlM_append]
  rfl

/-! ### The system of moves -/

/-- A configuration without programs: only which operation holds the lock, and since when. -/
structure Phase (M : Actor Q A σ ε) where
  clock : ℤ
  busy : Option (M.Op × ℤ)
  store : σ

/-- The phase of a configuration. -/
def Config.phase (c : Config M) : Phase M :=
  ⟨c.clock, c.running.map fun r => (r.1, r.2.1), c.store⟩

variable (C : M.Op → ℤ → Contract Q A σ) (fin : M.Op → ℤ → Except ε M.Reply → σ → Prop)

/-- One move: what a contract lets be seen of a step. -/
inductive Move : Phase M → Phase M → Prop where
  /-- An operation takes the free lock. -/
  | begin (op : M.Op) {clock t : ℤ} (s : σ) (hle : clock ≤ t) :
      Move ⟨clock, none, s⟩ ⟨t, some (op, t), M.enter op t s⟩
  /-- The running operation completes a segment. -/
  | work {op : M.Op} {t clock : ℤ} {s s' : σ} (hguar : (C op t).guar s s') :
      Move ⟨clock, some (op, t), s⟩ ⟨clock, some (op, t), s'⟩
  /-- The running operation gets an answer. -/
  | answer {op : M.Op} {t clock : ℤ} {s : σ} (q : Q) (a : A q) (hask : (C op t).ask q s) :
      Move ⟨clock, some (op, t), s⟩ ⟨clock, some (op, t), M.emit q a s⟩
  /-- A call is made. -/
  | call (a : M.Call) {clock t : ℤ} (busy : Option (M.Op × ℤ)) (s : σ) (hle : clock ≤ t) :
      Move ⟨clock, busy, s⟩ ⟨t, busy, M.call a t s⟩
  /-- The running operation ends. -/
  | finish {op : M.Op} {t clock : ℤ} {s : σ} (r : Except ε M.Reply) (hfin : fin op t r s) :
      Move ⟨clock, some (op, t), s⟩ ⟨clock, none, M.leave op t r s⟩

/-- Everything moves can lead to. -/
abbrev Moves : Phase M → Phase M → Prop := Relation.ReflTransGen (Move C fin)

/-- The moves an operation's contract is about match its interference and its answers. -/
structure Fits (C : M.Op → ℤ → Contract Q A σ) : Prop where
  emit : ∀ op t, (C op t).emit = M.emit
  rely_refl : ∀ op t s, (C op t).rely s s
  rely_trans : ∀ op t s₁ s₂ s₃, (C op t).rely s₁ s₂ → (C op t).rely s₂ s₃ → (C op t).rely s₁ s₃
  rely_call : ∀ op t a t' s, (C op t).rely s (M.call a t' s)

/-- The postcondition every operation is verified against. -/
def endsIn (op : M.Op) (t : ℤ) (r : Except ε M.Reply) (s₀ s : σ) : Prop :=
  (C op t).guar s₀ s ∧ fin op t r s

/-- Operation `op` begun at `t` in store `s` meets its contract. -/
def Meets (op : M.Op) (t : ℤ) (s : σ) : Prop :=
  wp (C op t) (endsIn C fin op t) (M.program op t) (M.enter op t s) (M.enter op t s)

/-- The rest of a waiting program is still within its contract. -/
def Waiting (op : M.Op) (t : ℤ) (s : σ) : Async Q A σ ε M.Reply → Prop
  | .await q k => ∀ s', (C op t).rely s s' → (C op t).ask q s' ∧
      ∀ a, wp (C op t) (endsIn C fin op t) (k a) ((C op t).emit q a s') ((C op t).emit q a s')
  | _ => False

variable {C fin}

/-- What `advance` leaves of a program that meets its contract. -/
theorem advance_spec {op : M.Op} {t : ℤ} {p : Async Q A σ ε M.Reply} {s₀ s : σ}
    (h : wp (C op t) (endsIn C fin op t) p s₀ s) :
    (C op t).guar s₀ (advance p s).2 ∧
      match (advance p s).1 with
      | .ret r => fin op t (.ok r) (advance p s).2
      | .throw e => fin op t (.error e) (advance p s).2
      | p' => Waiting C fin op t (advance p s).2 p' := by
  induction p generalizing s with
  | ret r => exact h
  | throw e => exact h
  | get k ih => exact ih s h
  | set s' k ih => exact ih h
  | await q k _ => exact h

/-- A verified configuration: whoever holds the lock waits within its contract. -/
def Sound (C : M.Op → ℤ → Contract Q A σ) (fin : M.Op → ℤ → Except ε M.Reply → σ → Prop)
    (c : Config M) : Prop :=
  ∀ op t p, c.running = some (op, t, p) → Waiting C fin op t c.store p

/-- Parking an advanced program takes the moves of its segment, and of its end. -/
theorem park_moves (clock : ℤ) {op : M.Op} {t : ℤ} {p : Async Q A σ ε M.Reply} {s : σ}
    (h : wp (C op t) (endsIn C fin op t) p s s) :
    Moves C fin ⟨clock, some (op, t), s⟩ (M.park clock op t (advance p s)).phase ∧
      Sound C fin (M.park clock op t (advance p s)) := by
  obtain ⟨hguar, hrest⟩ := advance_spec h
  rcases hadv : advance p s with ⟨p', s'⟩
  rw [hadv] at hguar hrest
  have hwork : Moves C fin ⟨clock, some (op, t), s⟩ ⟨clock, some (op, t), s'⟩ :=
    .single (.work hguar)
  cases p' with
  | ret r => exact ⟨hwork.tail (.finish (.ok r) hrest), fun _ _ _ hr => by cases hr⟩
  | throw e => exact ⟨hwork.tail (.finish (.error e) hrest), fun _ _ _ hr => by cases hr⟩
  | await q k => exact ⟨hwork, fun _ _ _ hr => by cases hr; exact hrest⟩
  | get k => exact hrest.elim
  | set s'' k => exact hrest.elim

/-- One step of a verified configuration is made of moves, and the next one is verified. -/
theorem step_moves (hfits : Fits C) {c c' : Config M} {i : Input M}
    (hmeets : ∀ op t, c.clock ≤ t → c.running = none → Meets C fin op t c.store)
    (hc : Sound C fin c) (h : M.step c i = some c') :
    Moves C fin c.phase c'.phase ∧ Sound C fin c' := by
  obtain ⟨clock, s, running⟩ := c
  cases i with
  | «begin» op t =>
    cases running with
    | some r => simp [step] at h
    | none =>
      simp only [step] at h
      -- an operation starts from its requirements, at the time it is given
      split at h
      · next hle =>
        cases h
        obtain ⟨hm, hs⟩ := park_moves t (hmeets op t hle rfl)
        exact ⟨.head (.begin op s hle) hm, hs⟩
      · cases h
  | resume ans =>
    rcases running with _ | ⟨op, t, p⟩
    · simp [step] at h
    · have hw := hc op t p rfl
      cases p with
      -- a parked program waits for an answer
      | ret | throw | get | set => exact hw.elim
      | await q k =>
        simp only [step, Option.some.injEq] at h
        subst h
        -- between the wait and its answer nothing moved: that is an interference like any other
        obtain ⟨hask, hk⟩ := hw s (hfits.rely_refl op t s)
        rw [hfits.emit] at hk
        obtain ⟨hm, hs⟩ := park_moves clock (hk (ans q))
        exact ⟨.head (.answer q (ans q) hask) hm, hs⟩
  | call a t =>
    simp only [step] at h
    split at h
    · next hle =>
      cases h
      -- the call runs while the program waits, so it joins the program's interference
      refine ⟨.single (.call a _ s hle), fun op t' p hr => ?_⟩
      have hw := hc op t' p hr
      cases p with
      | ret | throw | get | set => exact hw.elim
      | await q k =>
        exact fun s' hs' => hw s' (hfits.rely_trans op t' s _ s' (hfits.rely_call op t' a t s) hs')
    · cases h

/-- **One step.** Other than a call it is a segment of one operation, which takes the lock or gets
its answer, and at the end of which it may release the lock. -/
theorem step_segment (hfits : Fits C) {c c' : Config M} {i : Input M}
    (hmeets : ∀ op t, c.running = none → Meets C fin op t c.store) (hc : Sound C fin c)
    (h : M.step c i = some c') :
    (∃ a t, i = .call a t ∧ c.clock ≤ t ∧ c' = ⟨t, M.call a t c.store, c.running⟩) ∨
    ∃ op t s s',
      ((c.clock ≤ t ∧ c'.clock = t ∧ s = M.enter op t c.store) ∨
        ∃ p q a, c.running = some (op, t, p) ∧ c'.clock = c.clock ∧ s = M.emit q a c.store) ∧
      (C op t).guar s s' ∧ (c'.store = s' ∨ ∃ r, c'.store = M.leave op t r s') := by
  -- parking only leaves the operation, when its program ended
  have hpark : ∀ (clock : ℤ) (op : M.Op) (t : ℤ) (p : Async Q A σ ε M.Reply) (s : σ),
      (M.park clock op t (p, s)).clock = clock ∧ ((M.park clock op t (p, s)).store = s ∨
        ∃ r, (M.park clock op t (p, s)).store = M.leave op t r s) := by
    intro clock op t p s
    cases p with
    | ret r => exact ⟨rfl, .inr ⟨.ok r, rfl⟩⟩
    | throw e => exact ⟨rfl, .inr ⟨.error e, rfl⟩⟩
    | get | set | await => exact ⟨rfl, .inl rfl⟩
  obtain ⟨clock, s, running⟩ := c
  cases i with
  | «begin» op t =>
    right
    cases running with
    | some r => simp [step] at h
    | none =>
      simp only [step] at h
      split at h
      · next hle =>
        cases h
        -- from the start to the first wait
        obtain ⟨hclock, hstore⟩ := hpark t op t (advance (M.program op t) (M.enter op t s)).1
          (advance (M.program op t) (M.enter op t s)).2
        have hguar := (advance_spec (hmeets op t rfl)).1
        exact ⟨op, t, _, _, .inl ⟨hle, hclock, rfl⟩, hguar, hstore⟩
      · cases h
  | resume ans =>
    right
    rcases running with _ | ⟨op, t, p⟩
    · simp [step] at h
    · have hw := hc op t p rfl
      cases p with
      | ret | throw | get | set => exact hw.elim
      | await q k =>
        simp only [step, Option.some.injEq] at h
        subst h
        -- from an answer to the next wait
        obtain ⟨-, hk⟩ := hw s (hfits.rely_refl op t s)
        rw [hfits.emit] at hk
        obtain ⟨hclock, hstore⟩ := hpark clock op t (advance (k (ans q)) (M.emit q (ans q) s)).1
          (advance (k (ans q)) (M.emit q (ans q) s)).2
        have hguar := (advance_spec (hk (ans q))).1
        exact ⟨op, t, _, _, .inr ⟨_, q, ans q, rfl, hclock, rfl⟩, hguar, hstore⟩
  | call a t =>
    left
    simp only [step] at h
    split at h
    · next hle =>
      cases h
      exact ⟨a, t, rfl, hle, rfl⟩
    · cases h

/-- **Refinement.** If every operation meets its contract wherever moves lead, an execution from
a verified configuration only makes moves, and leads to a verified one. -/
theorem exec_moves (hfits : Fits C) {x : Phase M}
    (hmeets : ∀ op t clock s, Moves C fin x ⟨clock, none, s⟩ → clock ≤ t → Meets C fin op t s)
    {is : List (Input M)} {c c' : Config M} (hx : Moves C fin x c.phase) (hc : Sound C fin c)
    (h : M.exec c is = some c') : Moves C fin c.phase c'.phase ∧ Sound C fin c' := by
  induction is generalizing c with
  | nil =>
    cases h
    exact ⟨.refl, hc⟩
  | cons i is ih =>
    rw [exec_cons] at h
    obtain ⟨c₂, hstep, hrest⟩ := Option.bind_eq_some_iff.mp h
    obtain ⟨hm, hs⟩ := step_moves hfits (fun op t hle hidle => by
      refine hmeets op t c.clock c.store ?_ hle
      simpa [Config.phase, hidle] using hx) hc hstep
    obtain ⟨hm', hs'⟩ := ih (hx.trans hm) hs hrest
    exact ⟨hm.trans hm', hs'⟩

/-- An execution from an unlocked store only makes moves. -/
theorem refines (hfits : Fits C) {clock₀ : ℤ} {s₀ : σ}
    (hmeets : ∀ op t clock s, Moves C fin ⟨clock₀, none, s₀⟩ ⟨clock, none, s⟩ → clock ≤ t →
      Meets C fin op t s)
    {is : List (Input M)} {c : Config M} (h : M.exec ⟨clock₀, s₀, none⟩ is = some c) :
    Moves C fin ⟨clock₀, none, s₀⟩ c.phase ∧ Sound C fin c :=
  exec_moves hfits hmeets (c := ⟨clock₀, s₀, none⟩) .refl (fun _ _ _ hr => by cases hr) h

/-- What holds at first and is kept by every move holds wherever moves lead. -/
theorem invariant {I : Phase M → Prop} {x y : Phase M} (h : Moves C fin x y) (hx : I x)
    (hmove : ∀ a b, I a → Move C fin a b → I b) : I y := by
  induction h with
  | refl => exact hx
  | tail _ hstep ih => exact hmove _ _ ih hstep

end Actor

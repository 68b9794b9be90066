import Mathlib.Data.Nat.Notation
import Mathlib.Logic.Relation

/-!
# Asynchronous programs over a shared store

A program of a single-threaded host with `await`: it reads and writes a store, and it may
suspend on a query that the outside world answers. Between two awaits nothing else runs, so the
code between them is atomic; at an await, anything the host allows may run and change the store.

* `Async Q A σ ε α`: programs with queries `q : Q` answered in `A q`, a store `σ`, thrown values
  `ε` and a result `α`. `Async.attempt` is `try … catch`.
* `Contract`: what a program may assume of the others at an await (`rely`), what each of its
  atomic segments may do (`guar`), what must hold when it asks (`ask`), and how an answer is
  recorded in the store (`emit`).
* `Async.wp`: the weakest precondition under a contract. A postcondition sees the store at the
  last await and the store now, so it speaks of the segment that is still open.
* `Async.Quiet`, `Async.Transcript`: programs that only ask, and the answers with which they
  return what. `Async.wp_quiet` reduces the verification of one to its transcripts.
* `Async.Triple`: a program that keeps its contract and relates the store it finds to the one it
  leaves.
* `Async.run`: one uninterrupted execution against an oracle of answers.
* `Async.Yields`: what a program returns at all.
* `Async.handle`: a program whose queries are answered by programs on other queries.
-/

/-- A program that reads and writes a store `σ`, may throw `ε`, and suspends on queries. -/
inductive Async (Q : Type) (A : Q → Type) (σ ε α : Type) : Type where
  /-- Return. -/
  | ret (a : α)
  /-- Throw. -/
  | throw (e : ε)
  /-- Read the store. -/
  | get (k : σ → Async Q A σ ε α)
  /-- Write the store. -/
  | set (s : σ) (k : Async Q A σ ε α)
  /-- Suspend until the outside world answers `q`. -/
  | await (q : Q) (k : A q → Async Q A σ ε α)

namespace Async

variable {Q : Type} {A : Q → Type} {σ ε α β : Type}

/-! ### The monad -/

/-- Sequencing. A thrown value skips the rest. -/
protected def bind : Async Q A σ ε α → (α → Async Q A σ ε β) → Async Q A σ ε β
  | .ret a, f => f a
  | .throw e, _ => .throw e
  | .get k, f => .get fun s => (k s).bind f
  | .set s k, f => .set s (k.bind f)
  | .await q k, f => .await q fun a => (k a).bind f

instance : Monad (Async Q A σ ε) where
  pure := .ret
  bind := Async.bind

/-- Catch whatever `p` throws and hand it on as a value. -/
def attempt : Async Q A σ ε α → Async Q A σ ε (Except ε α)
  | .ret a => .ret (.ok a)
  | .throw e => .ret (.error e)
  | .get k => .get fun s => (k s).attempt
  | .set s k => .set s k.attempt
  | .await q k => .await q fun a => (k a).attempt

/-- Read the store. -/
def read : Async Q A σ ε σ := .get .ret

/-- Change the store by `f`. -/
def modify (f : σ → σ) : Async Q A σ ε Unit := .get fun s => .set (f s) (.ret ())

/-- Suspend on `q` and return the answer. -/
def ask (q : Q) : Async Q A σ ε (A q) := .await q .ret

/-- A computed result, thrown when it is an error. -/
def ofExcept : Except ε α → Async Q A σ ε α
  | .ok a => .ret a
  | .error e => .throw e

/-- Run `f` over a list in order and collect the results. -/
def forEach (f : α → Async Q A σ ε β) : List α → Async Q A σ ε (List β)
  | [] => pure []
  | a :: as => do
    let b ← f a
    let bs ← forEach f as
    pure (b :: bs)

/-! ### Contracts and weakest preconditions -/

/-- The terms on which a program shares its store. -/
structure Contract (Q : Type) (A : Q → Type) (σ : Type) where
  /-- How an answer is recorded in the store when it arrives. -/
  emit : (q : Q) → A q → σ → σ
  /-- What others may do to the store while the program waits. -/
  rely : σ → σ → Prop
  /-- What one segment of the program, from one await to the next, may do. -/
  guar : σ → σ → Prop
  /-- What holds of the store whenever the program waits on `q`. -/
  ask : Q → σ → Prop

variable {C : Contract Q A σ}

/-- `wp C Post p s₀ s`: run from `s`, with the last await at `s₀`, the program keeps to `C` and
ends in `Post`, whatever the answers and whatever the others do within `rely`. -/
def wp (C : Contract Q A σ) (Post : Except ε α → σ → σ → Prop) :
    Async Q A σ ε α → σ → σ → Prop
  | .ret a, s₀, s => Post (.ok a) s₀ s
  | .throw e, s₀, s => Post (.error e) s₀ s
  | .get k, s₀, s => wp C Post (k s) s₀ s
  | .set s k, s₀, _ => wp C Post k s₀ s
  | .await q k, s₀, s =>
    C.guar s₀ s ∧ ∀ s', C.rely s s' → C.ask q s' ∧
      ∀ a, wp C Post (k a) (C.emit q a s') (C.emit q a s')

variable {Post Post' : Except ε α → σ → σ → Prop}

@[simp] theorem wp_ret (a : α) (s₀ s : σ) :
    wp C Post (.ret a) s₀ s ↔ Post (.ok a) s₀ s := Iff.rfl

@[simp] theorem wp_pure (a : α) (s₀ s : σ) :
    wp C Post (pure a : Async Q A σ ε α) s₀ s ↔ Post (.ok a) s₀ s := Iff.rfl

@[simp] theorem wp_throw (e : ε) (s₀ s : σ) :
    wp C Post (.throw e : Async Q A σ ε α) s₀ s ↔ Post (.error e) s₀ s := Iff.rfl

@[simp] theorem wp_read {Post : Except ε σ → σ → σ → Prop} (s₀ s : σ) :
    wp C Post (read : Async Q A σ ε σ) s₀ s ↔ Post (.ok s) s₀ s := Iff.rfl

@[simp] theorem wp_modify {Post : Except ε Unit → σ → σ → Prop} (f : σ → σ) (s₀ s : σ) :
    wp C Post (modify f : Async Q A σ ε Unit) s₀ s ↔ Post (.ok ()) s₀ (f s) := Iff.rfl

@[simp] theorem wp_ofExcept (r : Except ε α) (s₀ s : σ) :
    wp C Post (ofExcept r : Async Q A σ ε α) s₀ s ↔ Post r s₀ s := by
  cases r <;> rfl

/-- How a postcondition of `p >>= f` reads at the end of `p`. -/
def bindPost (C : Contract Q A σ) (f : α → Async Q A σ ε β)
    (Post : Except ε β → σ → σ → Prop) : Except ε α → σ → σ → Prop
  | .ok a, s₀, s => wp C Post (f a) s₀ s
  | .error e, s₀, s => Post (.error e) s₀ s

@[simp] theorem bindPost_ok {f : α → Async Q A σ ε β} {Post : Except ε β → σ → σ → Prop}
    (a : α) (s₀ s : σ) : bindPost C f Post (.ok a) s₀ s ↔ wp C Post (f a) s₀ s := Iff.rfl

@[simp] theorem bindPost_error {f : α → Async Q A σ ε β} {Post : Except ε β → σ → σ → Prop}
    (e : ε) (s₀ s : σ) : bindPost C f Post (.error e) s₀ s ↔ Post (.error e) s₀ s := Iff.rfl

/-- The rule of sequencing. -/
@[simp] theorem wp_bind {Post : Except ε β → σ → σ → Prop} (p : Async Q A σ ε α)
    (f : α → Async Q A σ ε β) (s₀ s : σ) :
    wp C Post (p >>= f) s₀ s ↔ wp C (bindPost C f Post) p s₀ s := by
  change wp C Post (p.bind f) s₀ s ↔ _
  induction p generalizing s₀ s with
  | ret a => rfl
  | throw e => rfl
  | get k ih => exact ih s s₀ s
  | set s' k ih => exact ih s₀ s'
  | await q k ih =>
    -- under every interference and every answer, the rest of the first part is bound alike
    refine and_congr Iff.rfl (forall_congr' fun s' => imp_congr Iff.rfl ?_)
    exact and_congr Iff.rfl (forall_congr' fun a => ih a _ _)

/-- The rule of `try … catch`: the thrown value is a result. -/
@[simp] theorem wp_attempt {Post : Except ε (Except ε α) → σ → σ → Prop}
    (p : Async Q A σ ε α) (s₀ s : σ) :
    wp C Post p.attempt s₀ s ↔ wp C (fun r => Post (.ok r)) p s₀ s := by
  induction p generalizing s₀ s with
  | ret a => rfl
  | throw e => rfl
  | get k ih => exact ih s s₀ s
  | set s' k ih => exact ih s₀ s'
  | await q k ih =>
    refine and_congr Iff.rfl (forall_congr' fun s' => imp_congr Iff.rfl ?_)
    exact and_congr Iff.rfl (forall_congr' fun a => ih a _ _)

/-- The rule of consequence. -/
theorem wp_mono (h : ∀ r s₀ s, Post r s₀ s → Post' r s₀ s) {p : Async Q A σ ε α} {s₀ s : σ}
    (hp : wp C Post p s₀ s) : wp C Post' p s₀ s := by
  -- a postcondition is read only at the end of a path
  induction p generalizing s₀ s with
  | ret a => exact h _ _ _ hp
  | throw e => exact h _ _ _ hp
  | get k ih => exact ih s hp
  | set s k ih => exact ih hp
  | await q k ih =>
    obtain ⟨hguar, hrest⟩ := hp
    refine ⟨hguar, fun s' hs' => ?_⟩
    obtain ⟨hask, hk⟩ := hrest s' hs'
    exact ⟨hask, fun a => ih a (hk a)⟩

/-- The loop rule: an invariant of one round that is kept round after round holds at the end.
`I done s₀ s` speaks of the results collected so far. -/
theorem wp_forEach {f : α → Async Q A σ ε β} {Post : Except ε (List β) → σ → σ → Prop}
    (I : List α → List β → σ → σ → Prop)
    (hround : ∀ a as bs s₀ s, I (a :: as) bs s₀ s → wp C
      (fun r s₀' s' => match r with
        | .ok b => I as (bs ++ [b]) s₀' s'
        | .error e => Post (.error e) s₀' s') (f a) s₀ s)
    (hdone : ∀ bs s₀ s, I [] bs s₀ s → Post (.ok bs) s₀ s)
    {as : List α} {s₀ s : σ} (h : I as [] s₀ s) : wp C Post (forEach f as) s₀ s := by
  -- generalised over the results so far: the rounds left build the rest of the list
  suffices key : ∀ as bs (Post' : Except ε (List β) → σ → σ → Prop) s₀ s, I as bs s₀ s →
      (∀ cs s₀ s, Post (.ok (bs ++ cs)) s₀ s → Post' (.ok cs) s₀ s) →
      (∀ e s₀ s, Post (.error e) s₀ s → Post' (.error e) s₀ s) →
      wp C Post' (forEach f as) s₀ s from
    key as [] Post s₀ s h (fun cs s₀ s hp => by simpa using hp) (fun e s₀ s hp => hp)
  intro as
  induction as with
  | nil =>
    intro bs Post' s₀ s hI hok _
    exact hok [] s₀ s (by simpa using hdone bs s₀ s hI)
  | cons a as ih =>
    intro bs Post' s₀ s hI hok herr
    simp only [forEach, wp_bind]
    refine wp_mono (fun r s₀' s' hr => ?_) (hround a as bs s₀ s hI)
    cases r with
    -- a round that throws ends the loop
    | error e => exact herr e s₀' s' hr
    | ok b =>
      simp only [bindPost_ok, wp_bind]
      -- the round's result joins the ones so far
      refine ih (bs ++ [b]) _ s₀' s' hr (fun cs s₀'' s'' hp => ?_) (fun e s₀'' s'' hp => ?_)
      · exact hok (b :: cs) s₀'' s'' (by simpa using hp)
      · exact herr e s₀'' s'' hp

/-! ### Programs that only ask -/

/-- `p` never touches the store, and it asks only queries in `ok`. -/
def Quiet (ok : Q → Prop) : Async Q A σ ε α → Prop
  | .ret _ => True
  | .throw _ => True
  | .get _ => False
  | .set _ _ => False
  | .await q k => ok q ∧ ∀ a, (k a).Quiet ok

/-- `p` returns or throws `r` when its queries are those of `es`, in order, and answered so. -/
def Transcript : Async Q A σ ε α → List ((q : Q) × A q) → Except ε α → Prop
  | .ret a, es, r => es = [] ∧ r = .ok a
  | .throw e, es, r => es = [] ∧ r = .error e
  | .get _, _, _ => False
  | .set _ _, _, _ => False
  | .await q k, es, r => ∃ a es', es = ⟨q, a⟩ :: es' ∧ (k a).Transcript es' r

section Quiet

variable {ok ok' : Q → Prop}

@[simp] theorem quiet_pure (a : α) : Quiet ok (pure a : Async Q A σ ε α) := trivial

@[simp] theorem quiet_throw (e : ε) : Quiet ok (.throw e : Async Q A σ ε α) := trivial

@[simp] theorem quiet_ask (q : Q) : Quiet ok (ask q : Async Q A σ ε (A q)) ↔ ok q :=
  ⟨fun h => h.1, fun h => ⟨h, fun _ => trivial⟩⟩

@[simp] theorem quiet_ofExcept (r : Except ε α) : Quiet ok (ofExcept r : Async Q A σ ε α) := by
  cases r <;> trivial

theorem Quiet.mono (h : ∀ q, ok q → ok' q) {p : Async Q A σ ε α} (hp : p.Quiet ok) :
    p.Quiet ok' := by
  induction p with
  | ret a => trivial
  | throw e => trivial
  | get k => exact hp
  | set s k => exact hp
  | await q k ih => exact ⟨h q hp.1, fun a => ih a (hp.2 a)⟩

theorem Quiet.bind {p : Async Q A σ ε α} {f : α → Async Q A σ ε β} (hp : p.Quiet ok)
    (hf : ∀ a, (f a).Quiet ok) : (p >>= f).Quiet ok := by
  change (p.bind f).Quiet ok
  induction p with
  | ret a => exact hf a
  | throw e => trivial
  | get k => exact hp.elim
  | set s k => exact hp.elim
  | await q k ih => exact ⟨hp.1, fun a => ih a (hp.2 a)⟩

theorem Quiet.attempt {p : Async Q A σ ε α} (hp : p.Quiet ok) : p.attempt.Quiet ok := by
  induction p with
  | ret a => trivial
  | throw e => trivial
  | get k => exact hp.elim
  | set s k => exact hp.elim
  | await q k ih => exact ⟨hp.1, fun a => ih a (hp.2 a)⟩

theorem Quiet.forEach {f : α → Async Q A σ ε β} {as : List α} (hf : ∀ a ∈ as, (f a).Quiet ok) :
    (forEach f as).Quiet ok := by
  induction as with
  | nil => trivial
  | cons a as ih =>
    refine (hf a List.mem_cons_self).bind fun b => ?_
    exact (ih fun a' ha' => hf a' (List.mem_cons_of_mem _ ha')).bind fun bs => trivial

end Quiet

section Transcript

variable {es : List ((q : Q) × A q)}

@[simp] theorem transcript_pure {a : α} {r : Except ε α} :
    Transcript (pure a : Async Q A σ ε α) es r ↔ es = [] ∧ r = .ok a := Iff.rfl

@[simp] theorem transcript_throw {e : ε} {r : Except ε α} :
    Transcript (.throw e : Async Q A σ ε α) es r ↔ es = [] ∧ r = .error e := Iff.rfl

@[simp] theorem transcript_ask {q : Q} {r : Except ε (A q)} :
    Transcript (ask q : Async Q A σ ε (A q)) es r ↔ ∃ a, es = [⟨q, a⟩] ∧ r = .ok a := by
  constructor
  · rintro ⟨a, _, rfl, rfl, rfl⟩
    exact ⟨a, rfl, rfl⟩
  · rintro ⟨a, rfl, rfl⟩
    exact ⟨a, [], rfl, rfl, rfl⟩

@[simp] theorem transcript_ofExcept {x r : Except ε α} :
    Transcript (ofExcept x : Async Q A σ ε α) es r ↔ es = [] ∧ r = x := by
  cases x <;> rfl

/-- A transcript of a sequence is one of its first part, followed by one of the rest unless the
first part threw. -/
theorem transcript_bind {p : Async Q A σ ε α} {f : α → Async Q A σ ε β} {r : Except ε β} :
    Transcript (p >>= f) es r ↔ ∃ es₁ r₁, Transcript p es₁ r₁ ∧
      match r₁ with
      | .ok a => ∃ es₂, es = es₁ ++ es₂ ∧ Transcript (f a) es₂ r
      | .error e => es = es₁ ∧ r = .error e := by
  change Transcript (p.bind f) es r ↔ _
  induction p generalizing es with
  | ret a =>
    constructor
    · exact fun h => ⟨[], .ok a, ⟨rfl, rfl⟩, es, rfl, h⟩
    · rintro ⟨es₁, r₁, ⟨rfl, rfl⟩, es₂, rfl, h⟩
      exact h
  | throw e =>
    constructor
    · rintro ⟨rfl, rfl⟩
      exact ⟨[], .error e, ⟨rfl, rfl⟩, rfl, rfl⟩
    · rintro ⟨es₁, r₁, ⟨rfl, rfl⟩, rfl, rfl⟩
      exact ⟨rfl, rfl⟩
  | get k => exact ⟨False.elim, fun ⟨_, _, h, _⟩ => h⟩
  | set s k => exact ⟨False.elim, fun ⟨_, _, h, _⟩ => h⟩
  | await q k ih =>
    constructor
    · rintro ⟨a, es', rfl, h⟩
      obtain ⟨es₁, r₁, hp, hrest⟩ := (ih a).mp h
      refine ⟨⟨q, a⟩ :: es₁, r₁, ⟨a, es₁, rfl, hp⟩, ?_⟩
      -- the answer heard first goes in front of both sides
      cases r₁ with
      | ok b =>
        obtain ⟨es₂, rfl, hf⟩ := hrest
        exact ⟨es₂, rfl, hf⟩
      | error e =>
        obtain ⟨rfl, rfl⟩ := hrest
        exact ⟨rfl, rfl⟩
    · rintro ⟨es₁, r₁, ⟨a, es', rfl, hp⟩, hrest⟩
      cases r₁ with
      | ok b =>
        obtain ⟨es₂, rfl, hf⟩ := hrest
        exact ⟨a, es' ++ es₂, rfl, (ih a).mpr ⟨es', .ok b, hp, es₂, rfl, hf⟩⟩
      | error e =>
        obtain ⟨rfl, rfl⟩ := hrest
        exact ⟨a, es', rfl, (ih a).mpr ⟨es', .error e, hp, rfl, rfl⟩⟩

/-- Once the first part has returned, the rest of a transcript is one of what follows it. -/
theorem transcript_bind_append {p : Async Q A σ ε α} {f : α → Async Q A σ ε β} {a : α}
    {es' : List ((q : Q) × A q)} {r : Except ε β} (hp : Transcript p es (.ok a)) :
    Transcript (p >>= f) (es ++ es') r ↔ Transcript (f a) es' r := by
  change Transcript (p.bind f) (es ++ es') r ↔ _
  induction p generalizing es with
  | ret b =>
    obtain ⟨rfl, hb⟩ := hp
    cases hb
    rfl
  | throw e => cases hp.2
  | get k => exact hp.elim
  | set s k => exact hp.elim
  | await q k ih =>
    obtain ⟨b, es₁, rfl, hk⟩ := hp
    refine Iff.trans ⟨?_, fun h => ⟨b, es₁ ++ es', rfl, h⟩⟩ (ih b hk)
    rintro ⟨b', es₂, heq, h⟩
    cases heq
    exact h

@[simp] theorem transcript_attempt {p : Async Q A σ ε α} {r : Except ε (Except ε α)} :
    Transcript p.attempt es r ↔ ∃ r', r = .ok r' ∧ Transcript p es r' := by
  induction p generalizing es with
  | ret a => exact ⟨fun ⟨h, h'⟩ => ⟨_, h', h, rfl⟩, fun ⟨_, h, h', hr⟩ => ⟨h', hr ▸ h⟩⟩
  | throw e => exact ⟨fun ⟨h, h'⟩ => ⟨_, h', h, rfl⟩, fun ⟨_, h, h', hr⟩ => ⟨h', hr ▸ h⟩⟩
  | get k => exact ⟨False.elim, fun ⟨_, _, h⟩ => h⟩
  | set s k => exact ⟨False.elim, fun ⟨_, _, h⟩ => h⟩
  | await q k ih =>
    constructor
    · rintro ⟨a, es', rfl, h⟩
      obtain ⟨r', rfl, h'⟩ := (ih a).mp h
      exact ⟨r', rfl, a, es', rfl, h'⟩
    · rintro ⟨r', rfl, a, es', rfl, h⟩
      exact ⟨a, es', rfl, (ih a).mpr ⟨r', rfl, h⟩⟩

/-- A transcript asks only what the program may. -/
theorem Quiet.of_mem_transcript {ok : Q → Prop} {p : Async Q A σ ε α} (hp : p.Quiet ok)
    {r : Except ε α} (h : Transcript p es r) : ∀ e ∈ es, ok e.1 := by
  induction p generalizing es with
  | ret a => simp [h.1]
  | throw e => simp [h.1]
  | get k => exact h.elim
  | set s k => exact h.elim
  | await q k ih =>
    obtain ⟨a, es', rfl, h'⟩ := h
    intro e he
    rcases List.mem_cons.mp he with rfl | he
    · exact hp.1
    · exact ih a (hp.2 a) h' e he

/-- A loop that returns went through all its rounds; one that throws does so in some round. -/
theorem transcript_forEach_cases {f : α → Async Q A σ ε β} {as : List α} {r : Except ε (List β)}
    (h : Transcript (forEach f as) es r) :
    (∃ bs, r = .ok bs ∧ bs.length = as.length) ∨
      ∃ e, r = .error e ∧ ∃ a ∈ as, ∃ es', es' ⊆ es ∧ Transcript (f a) es' (.error e) := by
  induction as generalizing es r with
  | nil =>
    obtain ⟨rfl, rfl⟩ := transcript_pure.mp h
    exact .inl ⟨[], rfl, rfl⟩
  | cons a as ih =>
    obtain ⟨es₁, r₁, h₁, hrest⟩ := transcript_bind.mp h
    cases r₁ with
    -- the loop throws what its round threw
    | error e =>
      obtain ⟨rfl, rfl⟩ := hrest
      exact .inr ⟨e, rfl, a, List.mem_cons_self, es, List.Subset.refl _, h₁⟩
    | ok b =>
      obtain ⟨es₂, rfl, h₂⟩ := hrest
      obtain ⟨es₃, r₃, h₃, hrest⟩ := transcript_bind.mp h₂
      -- this round returned, so it is a later one that throws, if one does
      rcases ih h₃ with ⟨bs, rfl, hlen⟩ | ⟨e, rfl, a', ha', es', hsub, h'⟩
      · obtain ⟨es₄, rfl, h₄⟩ := hrest
        obtain ⟨rfl, rfl⟩ := transcript_pure.mp h₄
        exact .inl ⟨b :: bs, rfl, congrArg (· + 1) hlen⟩
      · obtain ⟨rfl, rfl⟩ := hrest
        refine .inr ⟨e, rfl, a', List.mem_cons_of_mem _ ha', es', fun x hx => ?_, h'⟩
        exact List.mem_append_right _ (hsub hx)

/-- What a loop returns was returned by its rounds, on answers of the loop's transcript. -/
theorem transcript_forEach {f : α → Async Q A σ ε β} {as : List α} {bs : List β}
    (h : Transcript (forEach f as) es (.ok bs)) :
    ∀ x ∈ as.zip bs, ∃ es', es' ⊆ es ∧ Transcript (f x.1) es' (.ok x.2) := by
  induction as generalizing es bs with
  | nil => simp
  | cons a as ih =>
    obtain ⟨es₁, r₁, h₁, hrest⟩ := transcript_bind.mp h
    cases r₁ with
    | error e => exact absurd hrest.2 (by simp)
    | ok b =>
      obtain ⟨es₂, rfl, h₂⟩ := hrest
      obtain ⟨es₃, r₃, h₃, hrest⟩ := transcript_bind.mp h₂
      cases r₃ with
      | error e => exact absurd hrest.2 (by simp)
      | ok bs' =>
        obtain ⟨es₄, rfl, h₄⟩ := hrest
        obtain ⟨rfl, hr⟩ := transcript_pure.mp h₄
        cases hr
        intro x hx
        -- the round itself, or one of the rounds after it
        rcases List.mem_cons.mp hx with rfl | hx
        · exact ⟨es₁, List.subset_append_left _ _, h₁⟩
        · obtain ⟨es', hsub, h'⟩ := ih h₃ x hx
          exact ⟨es', fun e he => by simp [hsub he], h'⟩

end Transcript

/-- Waiting for the answers `es` in order, with interference before each, leads from `s` to
`s'`. -/
inductive Heard (C : Contract Q A σ) : List ((q : Q) × A q) → σ → σ → Prop where
  | nil (s : σ) : Heard C [] s s
  | cons {s s' s'' : σ} (q : Q) (a : A q) {es : List ((q : Q) × A q)} (hrely : C.rely s s')
      (hrest : Heard C es (C.emit q a s') s'') : Heard C (⟨q, a⟩ :: es) s s''

/-- Two waits in a row are one. -/
theorem Heard.trans {C : Contract Q A σ} {es es' : List ((q : Q) × A q)} {s t u : σ}
    (h : Heard C es s t) (h' : Heard C es' t u) : Heard C (es ++ es') s u := by
  induction h with
  | nil s => exact h'
  | cons q a hrely _ ih => exact .cons q a hrely (ih h')

/-- **Asking.** A program that only asks ends as one of its transcripts says, in a store that
waiting for those answers can lead to. -/
theorem wp_quiet (hguar : ∀ s, C.guar s s) {ok : Q → Prop} {p : Async Q A σ ε α}
    (hp : p.Quiet ok) {s₀ s : σ} (hs : C.guar s₀ s)
    (hask : ∀ q es t t', ok q → Heard C es s t → C.rely t t' → C.ask q t')
    (h : ∀ es r t₀ t, Transcript p es r → Heard C es s t → C.guar t₀ t → Post r t₀ t) :
    wp C Post p s₀ s := by
  induction p generalizing s₀ s with
  | ret a => exact h [] (.ok a) s₀ s ⟨rfl, rfl⟩ (.nil s) hs
  | throw e => exact h [] (.error e) s₀ s ⟨rfl, rfl⟩ (.nil s) hs
  | get k => exact hp.elim
  | set s k => exact hp.elim
  | await q k ih =>
    refine ⟨hs, fun s' hs' => ⟨hask q [] s s' hp.1 (.nil s) hs', fun a => ?_⟩⟩
    refine ih a (hp.2 a) (hguar _) (fun q' es t t' hq ht ht' => ?_)
      fun es r t₀ t hes hheard hg => ?_
    · exact hask q' (⟨q, a⟩ :: es) t t' hq (.cons q a hs' ht) ht'
    · exact h (⟨q, a⟩ :: es) r t₀ t ⟨a, es, rfl, hes⟩ (.cons q a hs' hheard) hg

/-! ### Triples -/

/-- Begun anywhere in a segment that keeps the guarantee, `p` keeps to `C`, ends in a segment that
keeps it, and relates the store it began in to its result and the store it ends in by `R`. -/
def Triple (C : Contract Q A σ) (p : Async Q A σ ε α) (R : σ → Except ε α → σ → Prop) : Prop :=
  ∀ s₀ s, C.guar s₀ s → wp C (fun r t₀ t => C.guar t₀ t ∧ R s r t) p s₀ s

/-- The rule of a verified part: whatever follows may use its relation. -/
theorem Triple.wp {p : Async Q A σ ε α} {R : σ → Except ε α → σ → Prop} (hp : Triple C p R)
    {s₀ s : σ} (hs : C.guar s₀ s) (h : ∀ r t₀ t, C.guar t₀ t → R s r t → Post r t₀ t) :
    Async.wp C Post p s₀ s :=
  wp_mono (fun r t₀ t ht => h r t₀ t ht.1 ht.2) (hp s₀ s hs)

/-! ### One uninterrupted execution -/

/-- Run `p` against an oracle: `o n q` answers the `n`-th await, when it is on `q`. The result
carries the number of awaits used and the final store. -/
def run (emit : (q : Q) → A q → σ → σ) (o : ℕ → (q : Q) → A q) :
    Async Q A σ ε α → ℕ → σ → Except ε α × ℕ × σ
  | .ret a, n, s => (.ok a, n, s)
  | .throw e, n, s => (.error e, n, s)
  | .get k, n, s => run emit o (k s) n s
  | .set s k, n, _ => run emit o k n s
  | .await q k, n, s => run emit o (k (o n q)) (n + 1) (emit q (o n q) s)

/-- An execution ends in any postcondition the weakest precondition promises. -/
theorem wp_run (hrely : ∀ s, C.rely s s) (o : ℕ → (q : Q) → A q) {p : Async Q A σ ε α}
    {s₀ s : σ} (hp : wp C Post p s₀ s) (n : ℕ) :
    ∃ t₀, Post (run C.emit o p n s).1 t₀ (run C.emit o p n s).2.2 := by
  induction p generalizing s₀ s n with
  | ret a => exact ⟨s₀, hp⟩
  | throw e => exact ⟨s₀, hp⟩
  | get k ih => exact ih s hp n
  | set s k ih => exact ih hp n
  | await q k ih => exact ih (o n q) ((hp.2 s (hrely s)).2 (o n q)) (n + 1)

section Run

variable {emit : (q : Q) → A q → σ → σ} {o : ℕ → (q : Q) → A q}

/-- Running a sequence runs its parts, unless the first one throws. -/
theorem run_bind (p : Async Q A σ ε α) (f : α → Async Q A σ ε β) (n : ℕ) (s : σ) :
    run emit o (p >>= f) n s =
      match run emit o p n s with
      | (.ok a, m, t) => run emit o (f a) m t
      | (.error e, m, t) => (.error e, m, t) := by
  change run emit o (p.bind f) n s = _
  induction p generalizing n s with
  | ret a => rfl
  | throw e => rfl
  | get k ih => exact ih s n s
  | set s' k ih => exact ih n s'
  | await q k ih => exact ih (o n q) (n + 1) _

/-- Catching changes neither what is done nor what is answered. -/
theorem run_attempt (p : Async Q A σ ε α) (n : ℕ) (s : σ) :
    run emit o p.attempt n s = (.ok (run emit o p n s).1, (run emit o p n s).2) := by
  induction p generalizing n s with
  | ret a => rfl
  | throw e => rfl
  | get k ih => exact ih s n s
  | set s' k ih => exact ih n s'
  | await q k ih => exact ih (o n q) (n + 1) _

variable (emit o) in
/-- A program that only asks ends as a transcript of the oracle's answers says. -/
theorem run_quiet {ok : Q → Prop} {p : Async Q A σ ε α} (hp : p.Quiet ok) (n : ℕ) (s : σ) :
    ∃ es, Transcript p es (run emit o p n s).1 ∧ (∀ e ∈ es, ∃ m, e.2 = o m e.1) ∧
      (run emit o p n s).2.2 = es.foldl (fun s e => emit e.1 e.2 s) s := by
  induction p generalizing n s with
  | ret a => exact ⟨[], ⟨rfl, rfl⟩, by simp, rfl⟩
  | throw e => exact ⟨[], ⟨rfl, rfl⟩, by simp, rfl⟩
  | get k => exact hp.elim
  | set s k => exact hp.elim
  | await q k ih =>
    obtain ⟨es, hes, hans, hstore⟩ := ih (o n q) (hp.2 _) (n + 1) (emit q (o n q) s)
    refine ⟨⟨q, o n q⟩ :: es, ⟨_, es, rfl, hes⟩, ?_, hstore⟩
    intro e he
    rcases List.mem_cons.mp he with rfl | he
    · exact ⟨n, rfl⟩
    · exact hans e he

end Run

/-! ### Results -/

/-- Whatever the store and the answers, the program returns values in `P` only. -/
def Yields (P : α → Prop) : Async Q A σ ε α → Prop
  | .ret a => P a
  | .throw _ => True
  | .get k => ∀ s, (k s).Yields P
  | .set _ k => k.Yields P
  | .await _ k => ∀ a, (k a).Yields P

theorem Yields.of_forall {P : α → Prop} (h : ∀ a, P a) (p : Async Q A σ ε α) : p.Yields P := by
  induction p with
  | ret a => exact h a
  | throw e => trivial
  | get k ih => exact ih
  | set s k ih => exact ih
  | await q k ih => exact ih

theorem Yields.mono {P P' : α → Prop} (h : ∀ a, P a → P' a) {p : Async Q A σ ε α}
    (hp : p.Yields P) : p.Yields P' := by
  induction p with
  | ret a => exact h a hp
  | throw e => trivial
  | get k ih => exact fun s => ih s (hp s)
  | set s k ih => exact ih hp
  | await q k ih => exact fun a => ih a (hp a)

theorem Yields.bind {P : β → Prop} {f : α → Async Q A σ ε β} (h : ∀ a, (f a).Yields P)
    (p : Async Q A σ ε α) : (p >>= f).Yields P := by
  change (p.bind f).Yields P
  induction p with
  | ret a => exact h a
  | throw e => trivial
  | get k ih => exact ih
  | set s k ih => exact ih
  | await q k ih => exact ih

/-- What follows a program only matters on the values it returns. -/
theorem Yields.bind_congr {P : α → Prop} {p : Async Q A σ ε α} {f g : α → Async Q A σ ε β}
    (h : p.Yields P) (hfg : ∀ a, P a → f a = g a) : p >>= f = p >>= g := by
  change p.bind f = p.bind g
  induction p with
  | ret a => exact hfg a h
  | throw e => rfl
  | get k ih => exact congrArg Async.get (funext fun s => ih s (h s))
  | set s k ih => exact congrArg (Async.set s) (ih h)
  | await q k ih => exact congrArg (Async.await q) (funext fun a => ih a (h a))

/-! ### Programs that answer queries -/

section Handle

variable {Q' : Type} {A' : Q' → Type} {σ' : Type}

/-- `p` on a store it has no use for, with each query `q` answered by `h q`. -/
def handle (h : (q : Q) → Async Q' A' σ' ε (A q)) : Async Q A Unit ε α → Async Q' A' σ' ε α
  | .ret a => .ret a
  | .throw e => .throw e
  | .get k => handle h (k ())
  | .set _ k => handle h k
  | .await q k => (h q).bind fun a => handle h (k a)

variable {h : (q : Q) → Async Q' A' σ' ε (A q)}

@[simp] theorem handle_pure (a : α) :
    handle h (pure a : Async Q A Unit ε α) = (pure a : Async Q' A' σ' ε α) := rfl

theorem bind_bind {γ : Type} (p : Async Q A σ ε α) (f : α → Async Q A σ ε β)
    (g : β → Async Q A σ ε γ) : (p.bind f).bind g = p.bind fun a => (f a).bind g := by
  induction p with
  | ret a => rfl
  | throw e => rfl
  | get k ih => exact congrArg Async.get (funext ih)
  | set s k ih => exact congrArg (Async.set s) ih
  | await q k ih => exact congrArg (Async.await q) (funext ih)

theorem bind_ret (p : Async Q A σ ε α) : p.bind .ret = p := by
  induction p with
  | ret a => rfl
  | throw e => rfl
  | get k ih => exact congrArg Async.get (funext ih)
  | set s k ih => exact congrArg (Async.set s) ih
  | await q k ih => exact congrArg (Async.await q) (funext ih)

@[simp] theorem handle_bind (p : Async Q A Unit ε α) (f : α → Async Q A Unit ε β) :
    handle h (p >>= f) = handle h p >>= fun a => handle h (f a) := by
  change handle h (p.bind f) = (handle h p).bind fun a => handle h (f a)
  induction p with
  | ret a => rfl
  | throw e => rfl
  | get k ih => exact ih ()
  | set s k ih => exact ih
  | await q k ih =>
    show (h q).bind (fun a => handle h ((k a).bind f)) =
      ((h q).bind fun a => handle h (k a)).bind fun a => handle h (f a)
    rw [bind_bind]
    exact congrArg (h q).bind (funext ih)

@[simp] theorem handle_ask (q : Q) : handle h (ask q) = h q := bind_ret (h q)

@[simp] theorem handle_ofExcept (r : Except ε α) :
    handle h (ofExcept r) = (ofExcept r : Async Q' A' σ' ε α) := by
  cases r <;> rfl

end Handle

end Async

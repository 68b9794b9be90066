import DashFaucet.Async.Actor

/-!
# Servers

A server answers each request by a program of its own. The programs run concurrently over one
store: one advances from an await to the next while the others wait, in any order.

* `Server`, `Server.Step`, `Server.Reached`: the server as a transition system. The requests that
  may come depend on what has happened so far (`Server.admits`), and so does what else may happen
  (`Server.world`).
* `Server.Upholds`: a relation that every segment of every program keeps, and everything around
  them. `Server.Reached.upholds`: then every run keeps it.
* `Async.Along`: how far a program has come on the answers it heard.
* `Async.Keeps`: a program that keeps a relation and leads from a precondition to a postcondition,
  with a rule for each construct.
* `Async.Asks`: what a program asks, after what it heard. `Async.Along.asks`: so does every client
  of a run, where it waits.
-/

open Async Actor

variable {Q : Type} {A : Q → Type} {σ ε : Type}

namespace Async

variable {α : Type}

/-- `p'` is what is left of `p` when it has heard `es`. -/
inductive Along : Async Q A σ ε α → List ((q : Q) × A q) → Async Q A σ ε α → Prop where
  | refl (p : Async Q A σ ε α) : Along p [] p
  | get {k : σ → Async Q A σ ε α} {es : List ((q : Q) × A q)} {p' : Async Q A σ ε α} (s : σ)
      (h : Along (k s) es p') : Along (.get k) es p'
  | set {k : Async Q A σ ε α} {es : List ((q : Q) × A q)} {p' : Async Q A σ ε α} (s : σ)
      (h : Along k es p') : Along (.set s k) es p'
  | await {q : Q} {k : A q → Async Q A σ ε α} {es : List ((q : Q) × A q)} {p' : Async Q A σ ε α}
      (a : A q) (h : Along (k a) es p') : Along (.await q k) (⟨q, a⟩ :: es) p'

theorem Along.trans {p p' p'' : Async Q A σ ε α} {es es' : List ((q : Q) × A q)}
    (h : Along p es p') (h' : Along p' es' p'') : Along p (es ++ es') p'' := by
  induction h with
  | refl p => exact h'
  | get s _ ih => exact .get s (ih h')
  | set s _ ih => exact .set s (ih h')
  | await a _ ih => exact .await a (ih h')

theorem along_advance (p : Async Q A σ ε α) (s : σ) : Along p [] (advance p s).1 := by
  induction p generalizing s with
  | ret a => exact .refl _
  | throw e => exact .refl _
  | get k ih => exact .get s (ih s s)
  | set s' k ih => exact .set s' (ih s')
  | await q k ih => exact .refl _

/-! ### What a program asks -/

/-- Having heard `es`, the program asks `q`. -/
def Asks : Async Q A σ ε α → List ((q : Q) × A q) → Q → Prop
  | .ret _, _, _ => False
  | .throw _, _, _ => False
  | .get _, _, _ => False
  | .set _ _, _, _ => False
  | .await q' k, es, q => (es = [] ∧ q = q') ∨ ∃ a es', es = ⟨q', a⟩ :: es' ∧ (k a).Asks es' q

section Asks

variable {β : Type} {es : List ((q : Q) × A q)} {q : Q}

@[simp] theorem asks_pure {a : α} : ¬(pure a : Async Q A σ ε α).Asks es q := id

@[simp] theorem asks_throw {e : ε} : ¬(.throw e : Async Q A σ ε α).Asks es q := id

@[simp] theorem asks_ask {q' : Q} :
    (ask q' : Async Q A σ ε (A q')).Asks es q ↔ es = [] ∧ q = q' := by
  constructor
  · rintro (h | ⟨a, es', -, h⟩)
    · exact h
    · exact h.elim
  · exact .inl

@[simp] theorem asks_ofExcept {r : Except ε α} : ¬(ofExcept r : Async Q A σ ε α).Asks es q := by
  cases r <;> exact id

/-- A sequence asks what its first part asks, or what the rest asks once the first part has
returned. -/
theorem asks_bind {p : Async Q A σ ε α} {f : α → Async Q A σ ε β} :
    (p >>= f).Asks es q ↔ p.Asks es q ∨
      ∃ es₁ es₂ a, es = es₁ ++ es₂ ∧ p.Transcript es₁ (.ok a) ∧ (f a).Asks es₂ q := by
  change (p.bind f).Asks es q ↔ _
  -- along the first program: what it returns at once, or asks itself, or after an answer
  induction p generalizing es with
  | ret a =>
    constructor
    · exact fun h => .inr ⟨[], es, a, rfl, ⟨rfl, rfl⟩, h⟩
    · rintro (h | ⟨es₁, es₂, b, rfl, ⟨rfl, hb⟩, h⟩)
      · exact h.elim
      · cases hb
        exact h
  | throw e =>
    constructor
    · exact False.elim
    · rintro (h | ⟨es₁, es₂, b, -, ⟨-, hb⟩, -⟩)
      · exact h
      · cases hb
  | get k => exact ⟨False.elim, fun h => h.elim id fun ⟨_, _, _, _, h, _⟩ => h⟩
  | set s k => exact ⟨False.elim, fun h => h.elim id fun ⟨_, _, _, _, h, _⟩ => h⟩
  | await q' k ih =>
    constructor
    · rintro (h | ⟨a, es', rfl, h⟩)
      · exact .inl (.inl h)
      rcases (ih a).mp h with h | ⟨es₁, es₂, b, rfl, hp, hf⟩
      · exact .inl (.inr ⟨a, es', rfl, h⟩)
      · exact .inr ⟨⟨q', a⟩ :: es₁, es₂, b, rfl, ⟨a, es₁, rfl, hp⟩, hf⟩
    · rintro ((h | ⟨a, es', rfl, h⟩) | ⟨_, es₂, b, rfl, ⟨a, es₁, rfl, hp⟩, hf⟩)
      · exact .inl h
      · exact .inr ⟨a, es', rfl, (ih a).mpr (.inl h)⟩
      · exact .inr ⟨a, es₁ ++ es₂, rfl, (ih a).mpr (.inr ⟨es₁, es₂, b, rfl, hp, hf⟩)⟩

@[simp] theorem asks_attempt {p : Async Q A σ ε α} : p.attempt.Asks es q ↔ p.Asks es q := by
  induction p generalizing es with
  | ret a => exact Iff.rfl
  | throw e => exact Iff.rfl
  | get k => exact Iff.rfl
  | set s k => exact Iff.rfl
  | await q' k ih =>
    refine or_congr Iff.rfl (exists_congr fun a => exists_congr fun es' => ?_)
    exact and_congr_right fun _ => ih a

theorem Quiet.of_asks {ok : Q → Prop} {p : Async Q A σ ε α} (hp : p.Quiet ok)
    (h : p.Asks es q) : ok q := by
  induction p generalizing es with
  | ret a => exact h.elim
  | throw e => exact h.elim
  | get k => exact h.elim
  | set s k => exact h.elim
  | await q' k ih =>
    obtain ⟨-, rfl⟩ | ⟨a, es', -, h⟩ := h
    · exact hp.1
    · exact ih a (hp.2 a) h

/-- What the first part of a sequence may not ask is asked by the rest. -/
theorem Quiet.asks_rest {ok : Q → Prop} {p : Async Q A σ ε α} {f : α → Async Q A σ ε β}
    (hp : p.Quiet ok) (hq : ¬ok q) (h : (p >>= f).Asks es q) :
    ∃ es₁ es₂ a, es = es₁ ++ es₂ ∧ p.Transcript es₁ (.ok a) ∧ (f a).Asks es₂ q :=
  (asks_bind.mp h).resolve_left fun h => hq (hp.of_asks h)

/-- What asks has a transcript, whatever it is answered. -/
theorem Asks.transcript (o : (q : Q) → A q) {ok : Q → Prop} {p : Async Q A σ ε α}
    (hp : p.Quiet ok) (h : p.Asks es q) (a : A q) :
    ∃ es' r, p.Transcript (es ++ ⟨q, a⟩ :: es') r := by
  -- answered by `o`, every quiet program ends
  have hend : ∀ p : Async Q A σ ε α, p.Quiet ok → ∃ es r, p.Transcript es r := by
    intro p hp
    induction p with
    | ret a => exact ⟨[], .ok a, rfl, rfl⟩
    | throw e => exact ⟨[], .error e, rfl, rfl⟩
    | get k => exact hp.elim
    | set s k => exact hp.elim
    | await q k ih =>
      obtain ⟨es, r, h⟩ := ih (o q) (hp.2 _)
      exact ⟨_, r, o q, es, rfl, h⟩
  induction p generalizing es with
  | ret a => exact h.elim
  | throw e => exact h.elim
  | get k => exact h.elim
  | set s k => exact h.elim
  | await q' k ih =>
    obtain ⟨rfl, rfl⟩ | ⟨a', es', rfl, h⟩ := h
    · obtain ⟨es', r, h⟩ := hend (k a) (hp.2 a)
      exact ⟨es', r, a, es', rfl, h⟩
    · obtain ⟨es'', r, h⟩ := ih a' (hp.2 a') h
      exact ⟨es'', r, a', _, rfl, h⟩

/-- Where a program waits, it asks. -/
theorem Along.asks {ok : Q → Prop} {p : Async Q A σ ε α} {k : A q → Async Q A σ ε α}
    (h : Along p es (.await q k)) (hquiet : p.Quiet ok) : p.Asks es q := by
  generalize hrest : (Async.await q k : Async Q A σ ε α) = rest at h
  induction h with
  | refl p =>
    subst hrest
    exact .inl ⟨rfl, rfl⟩
  | get s _ _ => exact hquiet.elim
  | set s _ _ => exact hquiet.elim
  | await a _ ih => exact .inr ⟨a, _, rfl, ih (hquiet.2 a) hrest⟩

/-- What a program heard, it asked for. -/
theorem Along.asks_heard {ok : Q → Prop} {p rest : Async Q A σ ε α} {heard : List ((q : Q) × A q)}
    {a : A q} (h : Along p heard rest) (hquiet : p.Quiet ok) (hpre : es ++ [⟨q, a⟩] <+: heard) :
    p.Asks es q := by
  induction h generalizing es with
  | refl p => simp at hpre
  | get s _ _ => exact hquiet.elim
  | set s _ _ => exact hquiet.elim
  | await b _ ih =>
    cases es with
    | nil =>
      cases (List.cons_prefix_cons.mp hpre).1
      exact .inl ⟨rfl, rfl⟩
    | cons e es =>
      obtain ⟨rfl, hrest⟩ := List.cons_prefix_cons.mp hpre
      exact .inr ⟨b, es, rfl, ih (hquiet.2 b) hrest⟩

/-- What a program asked before it ended was answered. -/
theorem Asks.answered {p : Async Q A σ ε α} {heard : List ((q : Q) × A q)} {r : Except ε α}
    (h : p.Asks es q) (hend : p.Transcript heard r) (hpre : es <+: heard) :
    ∃ a, es ++ [⟨q, a⟩] <+: heard := by
  induction p generalizing es heard with
  | ret a => exact h.elim
  | throw e => exact h.elim
  | get k => exact h.elim
  | set s k => exact h.elim
  | await q' k ih =>
    obtain ⟨a, heard', rfl, hrest⟩ := hend
    obtain ⟨rfl, rfl⟩ | ⟨a', es', rfl, h⟩ := h
    · exact ⟨a, List.cons_prefix_cons.mpr ⟨rfl, List.nil_prefix⟩⟩
    · obtain ⟨heq, hpre'⟩ := List.cons_prefix_cons.mp hpre
      cases heq
      obtain ⟨b, hb⟩ := ih a h hrest hpre'
      exact ⟨b, List.cons_prefix_cons.mpr ⟨rfl, hb⟩⟩

/-- On the same answers a program asks the same. -/
theorem asks_unique {p : Async Q A σ ε α} {q' : Q} (h : p.Asks es q) (h' : p.Asks es q') :
    q = q' := by
  induction p generalizing es with
  | ret a => exact h.elim
  | throw e => exact h.elim
  | get k => exact h.elim
  | set s k => exact h.elim
  | await p k ih =>
    obtain ⟨rfl, rfl⟩ | ⟨a, es', rfl, h⟩ := h
    · obtain ⟨-, rfl⟩ | ⟨_, _, heq, -⟩ := h'
      · rfl
      · cases heq
    · obtain ⟨heq, -⟩ | ⟨a', es'', heq, h'⟩ := h'
      · cases heq
      · cases heq
        exact ih a h h'

/-- Where a program has returned, it has a transcript. -/
theorem Along.transcript {ok : Q → Prop} {p : Async Q A σ ε α} {x : α} (h : Along p es (.ret x))
    (hquiet : p.Quiet ok) : p.Transcript es (.ok x) := by
  generalize hrest : (Async.ret x : Async Q A σ ε α) = rest at h
  induction h with
  | refl p =>
    subst hrest
    exact ⟨rfl, rfl⟩
  | get s _ _ => exact hquiet.elim
  | set s _ _ => exact hquiet.elim
  | await a _ ih => exact ⟨a, _, rfl, ih (hquiet.2 a) hrest⟩

/-- A program whose queries are answered by quiet ones is quiet, as it has no store to touch. -/
theorem quiet_handle {Q' : Type} {A' : Q' → Type} {σ' : Type} {ok : Q' → Prop}
    {h : (q : Q) → Async Q' A' σ' ε (A q)} (hh : ∀ q, (h q).Quiet ok)
    (p : Async Q A Unit ε α) : (Async.handle h p).Quiet ok := by
  induction p with
  | ret a => trivial
  | throw e => trivial
  | get k ih => exact ih ()
  | set s k ih => exact ih
  | await q k ih => exact (hh q).bind ih

end Asks

/-! ### Programs that keep a relation -/

/-- The contract of a program that assumes of the others what it keeps itself. -/
def keeping (emit : (q : Q) → A q → σ → σ) (R : σ → σ → Prop) : Contract Q A σ :=
  ⟨emit, R, R, fun _ _ => True⟩

/-- From a store in `P` the program keeps `R`, whatever the others do that keeps it, and ends as
`Post` says. -/
def Keeps (emit : (q : Q) → A q → σ → σ) (R : σ → σ → Prop) (P : σ → Prop)
    (p : Async Q A σ ε α) (Post : Except ε α → σ → Prop) : Prop :=
  ∀ s₀ s, R s₀ s → P s → wp (keeping emit R) (fun x s₀ s => R s₀ s ∧ Post x s) p s₀ s

section Keeps

variable {β : Type} {emit : (q : Q) → A q → σ → σ} {R : σ → σ → Prop} {P P' : σ → Prop}
  {Post Post' : Except ε α → σ → Prop} {p : Async Q A σ ε α}

theorem Keeps.mono (h : Keeps emit R P p Post) (hpre : ∀ s, P' s → P s)
    (hpost : ∀ x s, Post x s → Post' x s) : Keeps emit R P' p Post' :=
  fun s₀ s hR hP => wp_mono (fun x _ s h => ⟨h.1, hpost x s h.2⟩) (h s₀ s hR (hpre s hP))

theorem Keeps.pure {a : α} (h : ∀ s, P s → Post (.ok a) s) :
    Keeps emit R P (Pure.pure a : Async Q A σ ε α) Post := fun _ s hR hP => ⟨hR, h s hP⟩

theorem Keeps.throw {e : ε} (h : ∀ s, P s → Post (.error e) s) :
    Keeps emit R P (.throw e) Post := fun _ s hR hP => ⟨hR, h s hP⟩

theorem Keeps.ofExcept {r : Except ε α} (h : ∀ s, P s → Post r s) :
    Keeps emit R P (Async.ofExcept r) Post := by
  cases r with
  | ok a => exact Keeps.pure h
  | error e => exact Keeps.throw h

theorem Keeps.bind {f : α → Async Q A σ ε β} {Post : Except ε β → σ → Prop}
    {M : Except ε α → σ → Prop} (hp : Keeps emit R P p M)
    (hf : ∀ a, Keeps emit R (M (.ok a)) (f a) Post)
    (herr : ∀ e s, M (.error e) s → Post (.error e) s) : Keeps emit R P (p >>= f) Post := by
  intro s₀ s hR hP
  rw [wp_bind]
  refine wp_mono (fun x s₀ s h => ?_) (hp s₀ s hR hP)
  cases x with
  | ok a => exact hf a s₀ s h.1 h.2
  | error e => exact ⟨h.1, herr e s h.2⟩

/-- What a computed result is bound to goes on with its value. -/
theorem Keeps.bind_ofExcept {r : Except ε α} {f : α → Async Q A σ ε β}
    {Post : Except ε β → σ → Prop} (hf : ∀ a, r = .ok a → Keeps emit R P (f a) Post)
    (herr : ∀ e s, P s → Post (.error e) s) : Keeps emit R P (Async.ofExcept r >>= f) Post := by
  cases r with
  | ok a => exact hf a rfl
  | error e => exact Keeps.throw fun s hP => herr e s hP

theorem Keeps.attempt {Post : Except ε (Except ε α) → σ → Prop}
    (h : Keeps emit R P p fun x s => Post (.ok x) s) : Keeps emit R P p.attempt Post := by
  intro s₀ s hR hP
  rw [wp_attempt]
  exact h s₀ s hR hP

/-- Reading the store, and going on in it. -/
theorem Keeps.bind_read {f : σ → Async Q A σ ε α}
    (h : ∀ w, Keeps emit R (fun s => P s ∧ s = w) (f w) Post) :
    Keeps emit R P (Async.read >>= f) Post := fun s₀ s hR hP => h s s₀ s hR ⟨hP, rfl⟩

theorem Keeps.modify {f : σ → σ} {Post : Except ε Unit → σ → Prop}
    (htrans : ∀ s s' s'', R s s' → R s' s'' → R s s'')
    (h : ∀ s, P s → R s (f s) ∧ Post (.ok ()) (f s)) :
    Keeps emit R P (Async.modify f : Async Q A σ ε Unit) Post :=
  fun s₀ s hR hP => ⟨htrans s₀ s _ hR (h s hP).1, (h s hP).2⟩

theorem Keeps.ask {q : Q} {Post : Except ε (A q) → σ → Prop} (hrefl : ∀ s, R s s)
    (h : ∀ s s' a, P s → R s s' → Post (.ok a) (emit q a s')) :
    Keeps emit R P (Async.ask q : Async Q A σ ε (A q)) Post :=
  fun _ s hR hP => ⟨hR, fun s' hs' => ⟨trivial, fun a => ⟨hrefl _, h s s' a hP hs'⟩⟩⟩

end Keeps

end Async

/-- Programs that answer requests over a store they share. -/
structure Server (Q : Type) (A : Q → Type) (σ ε : Type) : Type 1 where
  Request : Type
  Reply : Type
  program : Request → Async Q A σ ε Reply
  /-- How the store records an answer. -/
  emit : (q : Q) → A q → σ → σ
  /-- How the store records that a request is answered. -/
  leave : Request → Except ε Reply → σ → σ
  /-- The requests that may come. -/
  admits : Request → σ → Prop
  /-- What else may happen to the store. -/
  world : σ → σ → Prop

namespace Server

variable (V : Server Q A σ ε)

/-- A request, and what is left of its program. -/
structure Client where
  request : V.Request
  rest : Async Q A σ ε V.Reply

structure Config where
  store : σ
  clients : List V.Client

variable {V}

/-- Put an advanced program back among the others. -/
def settle (pre : List V.Client) (r : V.Request) (post : List V.Client)
    (p : Async Q A σ ε V.Reply × σ) : V.Config where
  store := match p.1 with
    | .ret x => V.leave r (.ok x) p.2
    | .throw e => V.leave r (.error e) p.2
    | _ => p.2
  clients := pre ++ ⟨r, p.1⟩ :: post

inductive Step : V.Config → V.Config → Prop where
  /-- Something happens outside. -/
  | world {s s' : σ} {cs : List V.Client} (h : V.world s s') : Step ⟨s, cs⟩ ⟨s', cs⟩
  /-- A request comes, and its program runs up to its first await. -/
  | arrive {s : σ} {cs : List V.Client} (r : V.Request) (h : V.admits r s) :
      Step ⟨s, cs⟩ (settle cs r [] (advance (V.program r) s))
  /-- A program gets its answer, and runs up to its next await. -/
  | answer {s : σ} {pre post : List V.Client} {r : V.Request} {q : Q}
      {k : A q → Async Q A σ ε V.Reply} (a : A q) :
      Step ⟨s, pre ++ ⟨r, .await q k⟩ :: post⟩
        (settle pre r post (advance (k a) (V.emit q a s)))

/-- What runs from an idle server lead to. -/
def Reached (s : σ) (c : V.Config) : Prop := Relation.ReflTransGen Step ⟨s, []⟩ c

/-- A request may be served without an interruption. -/
theorem Reached.serve {s₀ s s' : σ} {cs : List V.Client} {r : V.Request}
    {o : ℕ → (q : Q) → A q} {n m : ℕ} {x : Except ε V.Reply} (h : Reached s₀ ⟨s, cs⟩)
    (hr : V.admits r s) (hrun : run V.emit o (V.program r) n s = (x, m, s')) :
    ∃ cs' : List V.Client, Reached s₀ ⟨V.leave r x s', cs'⟩ := by
  have hrest : ∀ (p : Async Q A σ ε V.Reply) (n : ℕ) (s : σ),
      Reached s₀ (settle cs r [] (advance p s)) → run V.emit o p n s = (x, m, s') →
      ∃ cs' : List V.Client, Reached s₀ ⟨V.leave r x s', cs'⟩ := by
    intro p
    -- along the program, asking the world nothing else in between
    induction p with
    | ret a =>
      rintro n s hreached hend
      cases hend
      exact ⟨_, hreached⟩
    | throw e =>
      rintro n s hreached hend
      cases hend
      exact ⟨_, hreached⟩
    | get k ih => exact fun n s hreached hend => ih s n s hreached hend
    | set s' k ih => exact fun n _ hreached hend => ih n s' hreached hend
    | await q k ih =>
      intro n s hreached hend
      exact ih (o n q) (n + 1) _ (hreached.tail (.answer (o n q))) hend
  exact hrest _ n s (h.tail (.arrive r hr)) hrun

/-! ### Invariants -/

/-- `R` is kept by every segment of every program, if `I` held when its request came, and by all
that happens between segments. -/
structure Upholds (V : Server Q A σ ε) (R : σ → σ → Prop) (I : σ → Prop)
    (fin : V.Request → Except ε V.Reply → σ → Prop) : Prop where
  refl : ∀ s, R s s
  trans : ∀ s s' s'', R s s' → R s' s'' → R s s''
  keeps : ∀ s s', R s s' → I s → I s'
  world : ∀ s s', V.world s s' → R s s'
  emit : ∀ q a s, R s (V.emit q a s)
  leave : ∀ r x s, I s → fin r x s → R s (V.leave r x s)
  meets : ∀ r s, I s → V.admits r s →
    Keeps V.emit R (· = s) (V.program r) (fin r)

/-- What is left of a program waits within its contract. -/
def Waits (V : Server Q A σ ε) (R : σ → σ → Prop)
    (fin : V.Request → Except ε V.Reply → σ → Prop) (s : σ) (client : V.Client) : Prop :=
  match client.rest with
  | .await q k => ∀ s', R s s' → ∀ a,
      wp (keeping V.emit R) (fun x s₀ s => R s₀ s ∧ fin client.request x s) (k a)
        (V.emit q a s') (V.emit q a s')
  | _ => True

variable {R : σ → σ → Prop} {I : σ → Prop} {fin : V.Request → Except ε V.Reply → σ → Prop}

theorem Waits.mono (hup : V.Upholds R I fin) {s s' : σ} (h : R s s') {client : V.Client}
    (hw : V.Waits R fin s client) : V.Waits R fin s' client := by
  unfold Waits at *
  split
  · next q k heq =>
    rw [heq] at hw
    exact fun s'' h' a => hw s'' (hup.trans _ _ _ h h') a
  · trivial

/-- A verified program advances within the relation, and then waits within its contract. -/
theorem settle_upholds (hup : V.Upholds R I fin) {pre post : List V.Client} {r : V.Request}
    {p : Async Q A σ ε V.Reply} {s₀ s : σ} (hI : I s₀)
    (hothers : ∀ client ∈ pre ++ post, V.Waits R fin s₀ client)
    (hp : wp (keeping V.emit R) (fun x s₀ s => R s₀ s ∧ fin r x s) p s₀ s) :
    R s₀ (settle pre r post (advance p s)).store ∧
      ∀ client ∈ (settle pre r post (advance p s)).clients,
        V.Waits R fin (settle pre r post (advance p s)).store client := by
  -- the segment of the program, up to its await or its end
  have hsegment : R s₀ (settle pre r post (advance p s)).store ∧
      V.Waits R fin (settle pre r post (advance p s)).store
        ⟨r, (advance p s).1⟩ := by
    induction p generalizing s with
    | ret x =>
      obtain ⟨hR, hfin⟩ := hp
      exact ⟨hup.trans _ _ _ hR (hup.leave r _ s (hup.keeps _ _ hR hI) hfin), trivial⟩
    | throw e =>
      obtain ⟨hR, hfin⟩ := hp
      exact ⟨hup.trans _ _ _ hR (hup.leave r _ s (hup.keeps _ _ hR hI) hfin), trivial⟩
    | get k ih => exact ih s hp
    | set s' k ih => exact ih hp
    | await q k ih =>
      obtain ⟨hguar, hrest⟩ := hp
      exact ⟨hguar, fun s' hs' a => (hrest s' hs').2 a⟩
  refine ⟨hsegment.1, fun client hmem => ?_⟩
  rcases List.mem_append.mp hmem with hmem | hmem
  · exact (hothers client (List.mem_append_left _ hmem)).mono hup hsegment.1
  rcases List.mem_cons.mp hmem with rfl | hmem
  · exact hsegment.2
  · exact (hothers client (List.mem_append_right _ hmem)).mono hup hsegment.1

/-- **Rely and guarantee.** Programs that each keep the relation keep it together. -/
theorem Reached.upholds (hup : V.Upholds R I fin) {s : σ} {c : V.Config} (hI : I s)
    (h : Reached s c) :
    R s c.store ∧ I c.store ∧ ∀ client ∈ c.clients, V.Waits R fin c.store client := by
  induction h with
  | refl => exact ⟨hup.refl s, hI, fun client hmem => absurd hmem List.not_mem_nil⟩
  | tail _ hstep ih =>
    obtain ⟨hR, hI, hwait⟩ := ih
    cases hstep with
    -- what happens outside keeps the relation by itself
    | world h =>
      have h := hup.world _ _ h
      exact ⟨hup.trans _ _ _ hR h, hup.keeps _ _ h hI, fun client hmem =>
        (hwait client hmem).mono hup h⟩
    | arrive r h =>
      rw [← List.append_nil (Config.clients _)] at hwait
      obtain ⟨hstore, hclients⟩ := settle_upholds hup hI hwait
        (hup.meets r _ hI h _ _ (hup.refl _) rfl)
      exact ⟨hup.trans _ _ _ hR hstore, hup.keeps _ _ hstore hI, hclients⟩
    | @answer s pre post r q k a =>
      have hemit := hup.emit q a s
      -- the program that was waiting for this answer goes on within its contract
      have hwp := hwait ⟨r, .await q k⟩ (List.mem_append_right _ List.mem_cons_self) s
        (hup.refl s) a
      have hothers : ∀ client ∈ pre ++ post, V.Waits R fin (V.emit q a s) client := by
        intro client hmem
        refine (hwait client ?_).mono hup hemit
        rcases List.mem_append.mp hmem with hmem | hmem
        · exact List.mem_append_left _ hmem
        · exact List.mem_append_right _ (List.mem_cons_of_mem _ hmem)
      obtain ⟨hstore, hclients⟩ := settle_upholds hup
        (hup.keeps _ _ hemit hI) hothers hwp
      have hR := hup.trans _ _ _ hR (hup.trans _ _ _ hemit hstore)
      exact ⟨hR, hup.keeps _ _ hstore (hup.keeps _ _ hemit hI), hclients⟩

end Server

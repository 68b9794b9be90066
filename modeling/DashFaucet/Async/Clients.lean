import Mathlib.Data.Int.Order.Basic
import Mathlib.Data.List.Nodup
import Mathlib.Data.List.Perm.Subperm
import DashFaucet.Async.Server

/-!
# Clients of an actor

An actor and the programs that send it messages. A client asks for an operation of the actor, or
for a call, by a message, which is sent when the client begins to wait. It reaches the actor later
and once at most, if it is not lost. The client hears what became of it, or that it failed, which
may be while the operation is still to come.

* `Service`, `Clients`: what a client's query is to the actor.
* `Clients.Config`, `Clients.step`, `Clients.exec`: clients, messages and actor as an executable
  transition system. Any number of clients are under way at once.
* `Clients.Move`, `Clients.step_move`: what a step can do.
* `Clients.Sound`: what holds throughout a run. The actor makes a run of its own; whatever it did
  for a client was asked for by that client, and is one message's only; whatever a client heard of
  it is so.
-/

open Async Actor

variable {Q : Type} {A : Q → Type} {σ ε : Type}

namespace Actor

variable {M : Actor Q A σ ε}

/-- What a program ended with, if it did. -/
def ended {α : Type} : Async Q A σ ε α → Option (Except ε α)
  | .ret a => some (.ok a)
  | .throw e => some (.error e)
  | _ => none

/-- What an operation ends with in a step, if one does. -/
def outcome (c : Config M) : Input M → Option (Except ε M.Reply)
  | .begin op t => ended (advance (M.program op t) (M.enter op t c.store)).1
  | .resume ans =>
    match c.running with
    | some (_, _, .await q k) => ended (advance (k (ans q)) (M.emit q (ans q) c.store)).1
    | _ => none
  | .call .. => none

/-- The instant of an input. The answer to a query has none of its own. -/
def Input.time : Input M → Option ℤ
  | .begin _ t | .call _ t => some t
  | .resume _ => none

/-- The operation an input begins, and when. -/
def Input.begun : Input M → List (M.Op × ℤ)
  | .begin op t => [(op, t)]
  | .resume _ | .call .. => []

end Actor

/-- What a query is to the actor. -/
inductive Service (M : Actor Q A σ ε) (α : Type) where
  /-- A request for an operation. The answer tells what became of it. -/
  | operation (op : M.Op) (tell : Except ε M.Reply → α)
  /-- A request for a call, or for no more than a look. The answer tells what the store was. -/
  | call (c : Option M.Call) (tell : σ → ℤ → α)
  /-- A look at the clock. -/
  | clock (tell : ℤ → α)
  /-- Not for the actor. -/
  | outside

/-- Programs that send messages to an actor. -/
structure Clients (M : Actor Q A σ ε) : Type 1 where
  Query : Type
  Answer : Query → Type
  Error : Type
  Request : Type
  Reply : Type
  program : Request → Async Query Answer Unit Error Reply
  /-- A program only asks. -/
  quiet : ∀ r, (program r).Quiet fun _ => True
  service : (q : Query) → Service M (Answer q)
  /-- The answer says that a message or its reply was lost. -/
  failed : (q : Query) → Answer q → Bool
  /-- What may be done to the actor that no client asks for. -/
  free : Input M → Bool

namespace Clients

variable {M : Actor Q A σ ε} (V : Clients M)

/-- A request, the exchanges of its program so far, and what is left of that. -/
structure Client where
  request : V.Request
  heard : List ((q : V.Query) × V.Answer q)
  rest : Async V.Query V.Answer Unit V.Error V.Reply

/-- What a client asks of the actor, and where: after how many answers. -/
structure Message where
  sender : ℕ
  place : ℕ
  query : V.Query

/-- An operation that began, and the message that asked for it. -/
structure Work where
  op : M.Op
  time : ℤ
  owner : Option V.Message

/-- A call or a look, with the store it found. -/
structure Made where
  message : V.Message
  time : ℤ
  store : σ

structure Config where
  clock : ℤ
  actor : Actor.Config M
  clients : List V.Client
  /-- The messages on their way. -/
  sent : List V.Message
  works : List V.Work
  /-- What the operations ended with. The last one may still run. -/
  ends : List (Except ε M.Reply)
  made : List V.Made

/-- What can happen next. -/
inductive Input where
  /-- A request comes. -/
  | arrive (r : V.Request)
  /-- A client hears from outside, or that its message failed. -/
  | hear (client : ℕ) (ans : (q : V.Query) → V.Answer q)
  /-- A client sees the clock. -/
  | tick (client : ℕ) (t : ℤ)
  /-- A client hears what became of an operation. -/
  | reply (client work : ℕ)
  /-- A client hears of a call. -/
  | report (client made : ℕ)
  /-- A message begins its operation. -/
  | begin (message : ℕ) (t : ℤ)
  /-- A message makes its call. -/
  | call (message : ℕ) (t : ℤ)
  /-- A message is lost. -/
  | lose (message : ℕ)
  /-- The actor goes on, or something is done to it that no client asks for. -/
  | other (i : Actor.Input M)

/-! ### Steps -/

variable {V}

/-- Where a message is from. -/
def Message.origin (m : V.Message) : ℕ × ℕ := (m.sender, m.place)

/-- What a client that waits sends to the actor. -/
def outgoing (sender : ℕ) (client : V.Client) : List V.Message :=
  match client.rest with
  | .await q _ =>
    match V.service q with
    | .operation .. | .call .. => [⟨sender, client.heard.length, q⟩]
    | .clock _ | .outside => []
  | _ => []

/-- A request whose program has run up to its first await. -/
def newcomer (r : V.Request) : V.Client := ⟨r, [], (advance (V.program r) ()).1⟩

def arrive (c : V.Config) (r : V.Request) : V.Config :=
  { c with
    clients := c.clients ++ [newcomer r]
    sent := c.sent ++ outgoing c.clients.length (newcomer r) }

/-- A client that has heard an answer and run up to its next await. -/
def Client.after (client : V.Client) {q : V.Query} (a : V.Answer q)
    (k : V.Answer q → Async V.Query V.Answer Unit V.Error V.Reply) : V.Client :=
  ⟨client.request, client.heard ++ [⟨q, a⟩], (advance (k a) ()).1⟩

def put (c : V.Config) (i : ℕ) (client : V.Client) : V.Config :=
  { c with clients := c.clients.set i client, sent := c.sent ++ outgoing i client }

/-- A client hears what `choose` answers to its query, at its place. -/
def answer (c : V.Config) (i : ℕ) (choose : ℕ → (q : V.Query) → Option (V.Answer q)) :
    Option V.Config := do
  let client ← c.clients[i]?
  match client.rest with
  | .await q k => do
    let a ← choose client.heard.length q
    some (put c i (client.after a k))
  | _ => none

/-- The actor has taken a step, at a message's request or at none. -/
def acted (c : V.Config) (i : Actor.Input M) (actor : Actor.Config M) (owner : Option V.Message) :
    V.Config :=
  { c with
    clock := max c.clock actor.clock
    actor
    works := c.works ++ i.begun.map fun b => ⟨b.1, b.2, owner⟩
    ends := c.ends ++ (outcome c.actor i).toList }

def act (c : V.Config) (i : Actor.Input M) (owner : Option V.Message) : Option V.Config :=
  if ∀ t ∈ i.time, c.clock ≤ t then (M.step c.actor i).map fun actor => acted c i actor owner
  else none

/-- What is told of an operation to the client that asked for it. -/
def tellEnd (c : V.Config) (sender work place : ℕ) (q : V.Query) : Option (V.Answer q) :=
  match V.service q with
  | .operation _ tell => do
    let w ← c.works[work]?
    let m ← w.owner
    let r ← c.ends[work]?
    if m.origin = (sender, place) then some (tell r) else none
  | _ => none

/-- What is told of a call to the client that asked for it. -/
def tellMade (c : V.Config) (sender made place : ℕ) (q : V.Query) : Option (V.Answer q) :=
  match V.service q with
  | .call _ tell => do
    let x ← c.made[made]?
    if x.message.origin = (sender, place) then some (tell x.store x.time) else none
  | _ => none

/-- What is told without the actor. -/
def tellFailure (ans : (q : V.Query) → V.Answer q) (q : V.Query) : Option (V.Answer q) :=
  match V.service q with
  | .operation .. | .call .. => if V.failed q (ans q) then some (ans q) else none
  | .clock _ => none
  | .outside => some (ans q)

def tellTime (t : ℤ) (q : V.Query) : Option (V.Answer q) :=
  match V.service q with
  | .clock tell => some (tell t)
  | _ => none

def step (c : V.Config) : V.Input → Option V.Config
  | .arrive r => some (arrive c r)
  | .hear i ans => answer c i fun _ => tellFailure ans
  | .tick i t => if c.clock ≤ t then answer { c with clock := t } i fun _ => tellTime t else none
  | .reply i j => answer c i (tellEnd c i j)
  | .report i j => answer c i (tellMade c i j)
  -- a message that arrives begins its operation, in whatever order they arrive
  | .begin k t => do
    let m ← c.sent[k]?
    match V.service m.query with
    | .operation op _ => act { c with sent := c.sent.eraseIdx k } (.begin op t) (some m)
    | _ => none
  | .call k t => do
    let m ← c.sent[k]?
    let rest := { c with sent := c.sent.eraseIdx k, made := c.made ++ [⟨m, t, c.actor.store⟩] }
    match V.service m.query with
    | .call (some a) _ => act rest (.call a t) none
    -- a call of another actor only takes its time
    | .call none _ => if c.clock ≤ t then some { rest with clock := t } else none
    | _ => none
  -- or it never arrives
  | .lose k => c.sent[k]?.map fun _ => { c with sent := c.sent.eraseIdx k }
  | .other i => if V.free i then act c i none else none

def exec (c : V.Config) (is : List V.Input) : Option V.Config := is.foldlM step c

/-- No client yet. -/
def init (clock : ℤ) (s : σ) : V.Config := ⟨clock, ⟨clock, s, none⟩, [], [], [], [], []⟩

/-- A configuration some run reaches. -/
def Reached (s : ℤ → σ) (c : V.Config) : Prop :=
  ∃ clock is, exec (init clock (s clock)) is = some c

/-! ### What a step can do -/

/-- Client `i` may be told `a` in answer to the query at its place `n`. -/
inductive Told (c : V.Config) (i n : ℕ) : (q : V.Query) → V.Answer q → Prop where
  | operation {q : V.Query} {op : M.Op} {tell : Except ε M.Reply → V.Answer q} {j : ℕ} {w : V.Work}
      {m : V.Message} {r : Except ε M.Reply} (service : V.service q = .operation op tell)
      (work : c.works[j]? = some w) (owner : w.owner = some m) (origin : m.origin = (i, n))
      (ended : c.ends[j]? = some r) : Told c i n q (tell r)
  | call {q : V.Query} {a : Option M.Call} {tell : σ → ℤ → V.Answer q} {x : V.Made}
      (service : V.service q = .call a tell) (made : x ∈ c.made)
      (origin : x.message.origin = (i, n)) : Told c i n q (tell x.store x.time)
  | failed {q : V.Query} {a : V.Answer q} (failed : V.failed q a = true) : Told c i n q a
  | clock {q : V.Query} {tell : ℤ → V.Answer q} {t : ℤ} (service : V.service q = .clock tell)
      (past : t ≤ c.clock) : Told c i n q (tell t)
  | outside {q : V.Query} {a : V.Answer q} (service : V.service q = .outside) : Told c i n q a

/-- What a client is told at `t` of the clock is `t`. -/
def Now (t : ℤ) (q : V.Query) (a : V.Answer q) : Prop :=
  ∀ tell, V.service q = .clock tell → a = tell t

/-- One step. -/
inductive Move : V.Config → V.Config → Prop where
  | arrive (c : V.Config) (r : V.Request) : Move c (arrive c r)
  /-- A client is told something, and goes on. -/
  | answer {c : V.Config} {i : ℕ} {client : V.Client} {q : V.Query}
      {k : V.Answer q → Async V.Query V.Answer Unit V.Error V.Reply} {a : V.Answer q} {t : ℤ}
      (here : c.clients[i]? = some client) (waits : client.rest = .await q k) (later : c.clock ≤ t)
      (told : Told { c with clock := t } i client.heard.length q a) (now : Now t q a) :
      Move c (put { c with clock := t } i (client.after a k))
  /-- The actor does something that no client asks for. -/
  | act {c : V.Config} {i : Actor.Input M} {actor : Actor.Config M} (free : V.free i = true)
      (later : ∀ t ∈ i.time, c.clock ≤ t) (stepped : M.step c.actor i = some actor) :
      Move c (acted c i actor none)
  /-- A message begins its operation. -/
  | begin {c : V.Config} {pre post : List V.Message} {m : V.Message} {op : M.Op}
      {tell : Except ε M.Reply → V.Answer m.query} {t : ℤ} {actor : Actor.Config M}
      (sent : c.sent = pre ++ m :: post) (service : V.service m.query = .operation op tell)
      (later : c.clock ≤ t) (stepped : M.step c.actor (.begin op t) = some actor) :
      Move c (acted { c with sent := pre ++ post } (.begin op t) actor (some m))
  /-- A message makes its call. -/
  | call {c : V.Config} {pre post : List V.Message} {m : V.Message} {a : M.Call}
      {tell : σ → ℤ → V.Answer m.query} {t : ℤ} {actor : Actor.Config M}
      (sent : c.sent = pre ++ m :: post) (service : V.service m.query = .call (some a) tell)
      (later : c.clock ≤ t) (stepped : M.step c.actor (.call a t) = some actor) :
      Move c (acted { c with
        sent := pre ++ post, made := c.made ++ [⟨m, t, c.actor.store⟩] } (.call a t) actor none)
  /-- A message has its look. -/
  | look {c : V.Config} {pre post : List V.Message} {m : V.Message}
      {tell : σ → ℤ → V.Answer m.query} {t : ℤ} (sent : c.sent = pre ++ m :: post)
      (service : V.service m.query = .call none tell) (later : c.clock ≤ t) :
      Move c { c with
        clock := t, sent := pre ++ post, made := c.made ++ [⟨m, t, c.actor.store⟩] }
  | lose {c : V.Config} {pre post : List V.Message} {m : V.Message}
      (sent : c.sent = pre ++ m :: post) : Move c { c with sent := pre ++ post }

/-- What makes a client go on is what it is told. -/
theorem answer_move {c c' : V.Config} {i : ℕ} {t : ℤ}
    {choose : ℕ → (q : V.Query) → Option (V.Answer q)} (hle : c.clock ≤ t)
    (hchoose : ∀ n q a, choose n q = some a → Told { c with clock := t } i n q a ∧ Now t q a)
    (h : answer { c with clock := t } i choose = some c') : Move c c' := by
  obtain ⟨client, hclient, hrest⟩ := Option.bind_eq_some_iff.mp h
  split at hrest
  next q k hwait =>
    obtain ⟨a, ha, heq⟩ := Option.bind_eq_some_iff.mp hrest
    cases heq
    obtain ⟨htold, hnow⟩ := hchoose _ q a ha
    exact .answer hclient hwait hle htold hnow
  · cases hrest

theorem act_eq_some {c c' : V.Config} {i : Actor.Input M} {owner : Option V.Message}
    (h : act c i owner = some c') : (∀ t ∈ i.time, c.clock ≤ t) ∧
      ∃ actor, M.step c.actor i = some actor ∧ c' = acted c i actor owner := by
  unfold act at h
  split at h
  next hle =>
    obtain ⟨actor, hactor, rfl⟩ := Option.map_eq_some_iff.mp h
    exact ⟨hle, actor, hactor, rfl⟩
  · cases h

theorem told_end {c : V.Config} {i j n : ℕ} {t : ℤ} {q : V.Query} {a : V.Answer q}
    (h : tellEnd c i j n q = some a) : Told c i n q a ∧ Now t q a := by
  unfold tellEnd at h
  split at h
  next op tell hservice =>
    obtain ⟨w, hw, hrest⟩ := Option.bind_eq_some_iff.mp h
    obtain ⟨m, hm, hrest⟩ := Option.bind_eq_some_iff.mp hrest
    obtain ⟨r, hr, hrest⟩ := Option.bind_eq_some_iff.mp hrest
    split at hrest
    next horigin =>
      cases hrest
      exact ⟨.operation hservice hw hm horigin hr, fun _ hclock => by cases hservice ▸ hclock⟩
    · cases hrest
  · cases h

theorem told_made {c : V.Config} {i j n : ℕ} {t : ℤ} {q : V.Query} {a : V.Answer q}
    (h : tellMade c i j n q = some a) : Told c i n q a ∧ Now t q a := by
  unfold tellMade at h
  split at h
  next call tell hservice =>
    obtain ⟨x, hx, hrest⟩ := Option.bind_eq_some_iff.mp h
    split at hrest
    next horigin =>
      cases hrest
      exact ⟨.call hservice (List.mem_of_getElem? hx) horigin,
        fun _ hclock => by cases hservice ▸ hclock⟩
    · cases hrest
  · cases h

theorem told_failure {c : V.Config} {i n : ℕ} {t : ℤ} {ans : (q : V.Query) → V.Answer q}
    {q : V.Query} {a : V.Answer q} (h : tellFailure ans q = some a) :
    Told c i n q a ∧ Now t q a := by
  unfold tellFailure at h
  split at h
  next hservice =>
    split at h
    next hfailed =>
      cases h
      exact ⟨.failed hfailed, fun _ hclock => by cases hservice ▸ hclock⟩
    · cases h
  next hservice =>
    split at h
    next hfailed =>
      cases h
      exact ⟨.failed hfailed, fun _ hclock => by cases hservice ▸ hclock⟩
    · cases h
  · cases h
  next hservice => exact ⟨.outside hservice, fun _ hclock => by cases hservice ▸ hclock⟩

theorem told_time {c : V.Config} {i n : ℕ} {q : V.Query} {a : V.Answer q}
    (h : tellTime c.clock q = some a) : Told c i n q a ∧ Now c.clock q a := by
  unfold tellTime at h
  split at h
  next tell hservice =>
    cases h
    refine ⟨.clock hservice le_rfl, fun tell' hclock => ?_⟩
    rw [hservice] at hclock
    cases hclock
    rfl
  · cases h

/-- A list around one of its elements. -/
theorem sent_split {α : Type} {l : List α} {k : ℕ} {x : α} (h : l[k]? = some x) :
    l = l.take k ++ x :: l.drop (k + 1) ∧ l.eraseIdx k = l.take k ++ l.drop (k + 1) := by
  obtain ⟨hlt, rfl⟩ := List.getElem?_eq_some_iff.mp h
  refine ⟨?_, List.eraseIdx_eq_take_drop_succ l k⟩
  rw [← List.drop_eq_getElem_cons hlt, List.take_append_drop]

/-- **A step is a move.** -/
theorem step_move {c c' : V.Config} {i : V.Input} (h : step c i = some c') : Move c c' := by
  cases i with
  | arrive r =>
    cases h
    exact .arrive c r
  -- what clients are told, they may be told
  | hear i ans => exact answer_move le_rfl (fun _ _ _ => told_failure) h
  | tick i t =>
    simp only [step] at h
    split at h
    next hle => exact answer_move hle (fun _ _ _ => told_time) h
    · cases h
  | reply i j => exact answer_move le_rfl (fun _ _ _ => told_end) h
  | report i j => exact answer_move le_rfl (fun _ _ _ => told_made) h
  -- messages leave the network where they begin something
  | «begin» k t =>
    obtain ⟨m, hm, hrest⟩ := Option.bind_eq_some_iff.mp h
    obtain ⟨hsent, herase⟩ := sent_split hm
    rw [herase] at hrest
    split at hrest
    next op tell hservice =>
      obtain ⟨hle, actor, hstep, rfl⟩ := act_eq_some hrest
      exact .begin hsent hservice (hle t rfl) hstep
    · cases hrest
  | call k t =>
    obtain ⟨m, hm, hrest⟩ := Option.bind_eq_some_iff.mp h
    obtain ⟨hsent, herase⟩ := sent_split hm
    dsimp only at hrest
    rw [herase] at hrest
    split at hrest
    next a tell hservice =>
      obtain ⟨hle, actor, hstep, rfl⟩ := act_eq_some hrest
      exact .call hsent hservice (hle t rfl) hstep
    next tell hservice =>
      split at hrest
      next hle =>
        cases hrest
        exact .look hsent hservice hle
      · cases hrest
    · cases hrest
  | lose k =>
    obtain ⟨m, hm, rfl⟩ := Option.map_eq_some_iff.mp h
    obtain ⟨hsent, herase⟩ := sent_split hm
    rw [herase]
    exact .lose hsent
  | other i =>
    simp only [step] at h
    split at h
    next hfree =>
      obtain ⟨hle, actor, hstep, rfl⟩ := act_eq_some h
      exact .act hfree hle hstep
    · cases h

/-! ### What holds throughout a run -/

/-- The operations that some inputs begin, and when. -/
def begun (is : List (Actor.Input M)) : List (M.Op × ℤ) := is.flatMap Actor.Input.begun

/-- Every message there was, if it is not lost. -/
def messages (c : V.Config) : List V.Message :=
  c.sent ++ (c.works.filterMap Work.owner ++ c.made.map Made.message)

/-- A message was asked for where it says. -/
def Asked (clients : List V.Client) (m : V.Message) : Prop :=
  ∃ client, clients[m.sender]? = some client ∧ ∃ es, es <+: client.heard ∧ es.length = m.place ∧
    (V.program client.request).Asks es m.query

/-- **What holds throughout a run** from a store `s` at `start`. -/
structure Sound (start : ℤ) (s : σ) (c : V.Config) : Prop where
  /-- The actor makes a run of its own. -/
  run : ∃ is, M.exec ⟨start, s, none⟩ is = some c.actor ∧
    begun is = c.works.map fun w => (w.op, w.time)
  le_clock : c.actor.clock ≤ c.clock
  along : ∀ client ∈ c.clients, Along (V.program client.request) client.heard client.rest
  /-- Messages are asked for, and none is there twice. -/
  asked : ∀ m ∈ messages c, Asked c.clients m
  once : ((messages c).map Message.origin).Nodup
  /-- What is done is what was asked for, or needs no asking. -/
  works : ∀ w ∈ c.works, ∀ m, w.owner = some m → ∃ tell, V.service m.query = .operation w.op tell
  unowned : ∀ w ∈ c.works, w.owner = none → V.free (.begin w.op w.time) = true
  /-- A call finds the store the actor has when it is made. -/
  made : ∀ x ∈ c.made, ∃ is before js, M.exec ⟨start, s, none⟩ is = some before ∧
    before.store = x.store ∧ M.exec before js = some c.actor
  /-- What clients heard, they may be told. -/
  heard : ∀ i client, c.clients[i]? = some client → ∀ es q a, es ++ [⟨q, a⟩] <+: client.heard →
    Told c i es.length q a

theorem getElem?_extend {α : Type} {l l' : List α} (h : l <+: l') {j : ℕ} {x : α}
    (hx : l[j]? = some x) : l'[j]? = some x := by
  obtain ⟨t, rfl⟩ := h
  rw [List.getElem?_append_left (List.getElem?_eq_some_iff.mp hx).1, hx]

/-- What may be told stays so. -/
theorem Told.mono {c c' : V.Config} {i n : ℕ} {q : V.Query} {a : V.Answer q} (h : Told c i n q a)
    (hworks : c.works <+: c'.works) (hends : c.ends <+: c'.ends) (hmade : c.made <+: c'.made)
    (hle : c.clock ≤ c'.clock) : Told c' i n q a := by
  cases h with
  | operation service work owner origin ended =>
    exact .operation service (getElem?_extend hworks work) owner origin
      (getElem?_extend hends ended)
  | call service made origin => exact .call service (hmade.subset made) origin
  | failed failed => exact .failed failed
  | clock service past => exact .clock service (le_trans past hle)
  | outside service => exact .outside service

/-- A message that was asked for stays so, whatever its sender hears. -/
theorem Asked.mono {cs cs' : List V.Client} {m : V.Message} (h : Asked cs m)
    (hgrow : ∀ (i : ℕ) client, cs[i]? = some client → ∃ client', cs'[i]? = some client' ∧
      client'.request = client.request ∧ client.heard <+: client'.heard) : Asked cs' m := by
  obtain ⟨client, hclient, es, hpre, hplace, hasks⟩ := h
  obtain ⟨client', hclient', hrequest, hheard⟩ := hgrow m.sender client hclient
  exact ⟨client', hclient', es, hpre.trans hheard, hplace, by rwa [hrequest]⟩

/-- A client that waits for the actor asks what it sends. -/
theorem asked_outgoing {cs : List V.Client} {i : ℕ} {client : V.Client}
    (hclient : cs[i]? = some client)
    (halong : Along (V.program client.request) client.heard client.rest) :
    ∀ m ∈ outgoing i client, m.origin = (i, client.heard.length) ∧ Asked cs m := by
  intro m hm
  unfold outgoing at hm
  split at hm
  next q k hrest =>
    rw [hrest] at halong
    have hasks := halong.asks (V.quiet client.request)
    split at hm
    · rw [List.mem_singleton.mp hm]
      exact ⟨rfl, client, hclient, client.heard, List.prefix_rfl, rfl, hasks⟩
    · rw [List.mem_singleton.mp hm]
      exact ⟨rfl, client, hclient, client.heard, List.prefix_rfl, rfl, hasks⟩
    · cases hm
    · cases hm
  · cases hm

theorem nodup_outgoing (i : ℕ) (client : V.Client) :
    ((outgoing i client).map Message.origin).Nodup := by
  unfold outgoing
  split
  · split
    · exact List.nodup_singleton _
    · exact List.nodup_singleton _
    · exact List.nodup_nil
    · exact List.nodup_nil
  · exact List.nodup_nil

/-- A message that is asked for is from a client there is, from no place beyond what it heard. -/
theorem Asked.origin_le {cs : List V.Client} {m : V.Message} (h : Asked cs m) :
    ∃ client, cs[m.sender]? = some client ∧ m.place ≤ client.heard.length := by
  obtain ⟨client, hclient, es, hpre, hplace, -⟩ := h
  exact ⟨client, hclient, hplace ▸ hpre.length_le⟩

namespace Sound

variable {start : ℤ} {s : σ} {c c' : V.Config}

theorem init (start : ℤ) (s : σ) : Sound start s (init start s : V.Config) where
  run := ⟨[], rfl, rfl⟩
  le_clock := le_rfl
  along _ h := absurd h List.not_mem_nil
  asked _ h := absurd h List.not_mem_nil
  once := List.nodup_nil
  works _ h := absurd h List.not_mem_nil
  unowned _ h := absurd h List.not_mem_nil
  made _ h := absurd h List.not_mem_nil
  heard i client h := by cases h

/-- What the actor does leaves the clients where they are. -/
theorem acted (h : Sound start s c) (works : List V.Work) (made : List V.Made)
    (hclients : c'.clients = c.clients)
    (hmessages : List.Subperm (messages c') (messages c)) (hclock : c.clock ≤ c'.clock)
    (hle : c'.actor.clock ≤ c'.clock) (hworks : c'.works = c.works ++ works)
    (hrun : ∃ is, M.exec c.actor is = some c'.actor ∧
      begun is = works.map fun w => (w.op, w.time))
    (howned : ∀ w ∈ works, ∀ m, w.owner = some m → ∃ tell,
      V.service m.query = .operation w.op tell)
    (hfree : ∀ w ∈ works, w.owner = none → V.free (.begin w.op w.time) = true)
    (hends : c.ends <+: c'.ends) (hmade : c'.made = c.made ++ made)
    (hstore : ∀ x ∈ made, x.store = c.actor.store) : Sound start s c' := by
  obtain ⟨is, hexec, hbegun⟩ := h.run
  obtain ⟨js, hexec', hbegun'⟩ := hrun
  refine ⟨⟨is ++ js, ?_, ?_⟩, hle, hclients ▸ h.along, ?_, ?_, ?_, ?_, ?_, ?_⟩
  · -- the run goes on, and its operations with it
    rw [Actor.exec_append, hexec]
    exact hexec'
  · rw [begun, List.flatMap_append, ← begun, ← begun, hbegun, hbegun', hworks, List.map_append]
  · rw [hclients]
    exact fun m hm => h.asked m (hmessages.subset hm)
  · -- no message is added, so none is sent twice
    obtain ⟨l, hperm, hsub⟩ := hmessages
    exact (hperm.map Message.origin).nodup_iff.mp (h.once.sublist (hsub.map _))
  · rw [hworks]
    intro w hw
    rcases List.mem_append.mp hw with hw | hw
    · exact h.works w hw
    · exact howned w hw
  · rw [hworks]
    intro w hw
    rcases List.mem_append.mp hw with hw | hw
    · exact h.unowned w hw
    · exact hfree w hw
  · rw [hmade]
    intro x hx
    rcases List.mem_append.mp hx with hx | hx
    · -- an earlier call is where it was, and the run is longer behind it
      obtain ⟨is, before, ks, hbefore, heq, hafter⟩ := h.made x hx
      refine ⟨is, before, ks ++ js, hbefore, heq, ?_⟩
      rw [Actor.exec_append, hafter]
      exact hexec'
    · exact ⟨is, c.actor, js, hexec, (hstore x hx).symm, hexec'⟩
  · rw [hclients]
    -- what was told stays true
    intro i client hclient es q a hpre
    exact (h.heard i client hclient es q a hpre).mono (hworks ▸ List.prefix_append _ _) hends
      (hmade ▸ List.prefix_append _ _) hclock

/-- A client that comes, or goes on, sends what it asks for. -/
theorem clients (h : Sound start s c) (client : V.Client) (i : ℕ)
    (hclock : c.clock ≤ c'.clock) (hactor : c'.actor = c.actor) (hworks : c'.works = c.works)
    (hends : c'.ends = c.ends) (hmade : c'.made = c.made)
    (hsent : c'.sent = c.sent ++ outgoing i client) (hhere : c'.clients[i]? = some client)
    (hothers : ∀ j other, c'.clients[j]? = some other → j ≠ i → c.clients[j]? = some other)
    (hgrow : ∀ (j : ℕ) other, c.clients[j]? = some other → ∃ other', c'.clients[j]? = some other' ∧
      other'.request = other.request ∧ other.heard <+: other'.heard)
    (halong : Along (V.program client.request) client.heard client.rest)
    (hnew : ∀ m ∈ messages c, m.origin ≠ (i, client.heard.length))
    (hheard : ∀ es q a, es ++ [⟨q, a⟩] <+: client.heard → Told c' i es.length q a) :
    Sound start s c' := by
  have hmessages : messages c' = c.sent ++ outgoing i client ++
      (c.works.filterMap Work.owner ++ c.made.map Made.message) := by
    rw [messages, hsent, hworks, hmade]
  refine ⟨?_, ?_, ?_, ?_, ?_, ?_, ?_, ?_, ?_⟩
  · rw [hactor, hworks]
    exact h.run
  · rw [hactor]
    exact le_trans h.le_clock hclock
  · intro other hother
    obtain ⟨j, hj⟩ := List.mem_iff_getElem?.mp hother
    by_cases hji : j = i
    · rw [hji, hhere] at hj
      cases hj
      exact halong
    · exact h.along other (List.mem_of_getElem? (hothers j other hj hji))
  · -- a message is an old one, or of what the client asks now
    rw [hmessages]
    intro m hm
    rw [List.append_assoc, List.mem_append, List.mem_append] at hm
    have hold : m ∈ messages c → Asked c'.clients m := fun hm => (h.asked m hm).mono hgrow
    rcases hm with hm | hm | hm
    · exact hold (List.mem_append_left _ hm)
    · exact (asked_outgoing hhere halong m hm).2
    · exact hold (List.mem_append_right _ hm)
  · -- the new ones come from a place that no message is from
    have hperm : List.Perm (messages c') (outgoing i client ++ messages c) := by
      rw [hmessages, messages, ← List.append_assoc (outgoing i client)]
      exact List.perm_append_comm.append_right _
    rw [(hperm.map Message.origin).nodup_iff, List.map_append, List.nodup_append']
    refine ⟨nodup_outgoing i client, h.once, ?_⟩
    intro origin hsent hmem
    obtain ⟨m, hm, rfl⟩ := List.mem_map.mp hsent
    obtain ⟨m', hm', heq⟩ := List.mem_map.mp hmem
    exact hnew m' hm' (heq.trans (asked_outgoing hhere halong m hm).1)
  · rw [hworks]
    exact h.works
  · rw [hworks]
    exact h.unowned
  · rw [hmade, hactor]
    exact h.made
  · -- only this client has heard something new
    intro j other hj es q a hpre
    by_cases hji : j = i
    · subst hji
      rw [hhere] at hj
      cases hj
      exact hheard es q a hpre
    · exact (h.heard j other (hothers j other hj hji) es q a hpre).mono
        (hworks ▸ List.prefix_rfl) (hends ▸ List.prefix_rfl) (hmade ▸ List.prefix_rfl) hclock

theorem arrive (h : Sound start s c) (r : V.Request) : Sound start s (arrive c r) := by
  refine h.clients (newcomer r) c.clients.length le_rfl rfl rfl rfl rfl rfl
    List.getElem?_concat_length (fun j other hj hne => ?_) (fun j other hj => ?_)
    (along_advance _ _) (fun m hm heq => ?_) fun es q a hpre => ?_
  · obtain ⟨hlt, -⟩ := List.getElem?_eq_some_iff.mp hj
    have hlt : j < c.clients.length := by
      rw [Clients.arrive, List.length_append, List.length_singleton] at hlt
      omega
    rwa [Clients.arrive, List.getElem?_append_left hlt] at hj
  · exact ⟨other, getElem?_extend (List.prefix_append _ _) hj, rfl, List.prefix_rfl⟩
  · -- whoever sent a message was there before
    obtain ⟨client, hclient, -⟩ := (h.asked m hm).origin_le
    obtain ⟨hlt, -⟩ := List.getElem?_eq_some_iff.mp hclient
    exact absurd (congrArg Prod.fst heq) (Nat.ne_of_lt hlt)
  · have hnil := List.prefix_nil.mp hpre
    simp at hnil

theorem answer (h : Sound start s c) {i : ℕ} {client : V.Client} {q : V.Query}
    {k : V.Answer q → Async V.Query V.Answer Unit V.Error V.Reply} {a : V.Answer q} {t : ℤ}
    (hclient : c.clients[i]? = some client) (hwait : client.rest = .await q k) (hle : c.clock ≤ t)
    (htold : Told { c with clock := t } i client.heard.length q a) :
    Sound start s (put { c with clock := t } i (client.after a k)) := by
  obtain ⟨hlt, -⟩ := List.getElem?_eq_some_iff.mp hclient
  have halong := h.along client (List.mem_of_getElem? hclient)
  rw [hwait] at halong
  refine h.clients (client.after a k) i hle rfl rfl rfl rfl rfl
    (List.getElem?_set_self hlt) (fun j other hj hne => ?_) (fun j other hj => ?_)
    (halong.trans (.await a (along_advance _ _))) (fun m hm heq => ?_) fun es p b hpre => ?_
  · rwa [put, List.getElem?_set_ne (Ne.symm hne)] at hj
  · by_cases hji : j = i
    · subst hji
      rw [hclient] at hj
      cases hj
      exact ⟨_, List.getElem?_set_self hlt, rfl, List.prefix_append _ _⟩
    · exact ⟨other, by rwa [put, List.getElem?_set_ne (Ne.symm hji)], rfl, List.prefix_rfl⟩
  · -- it has sent nothing from beyond what it heard
    obtain ⟨client', hclient', hplace⟩ := (h.asked m hm).origin_le
    have hsender : m.sender = i := congrArg Prod.fst heq
    have hfrom : m.place = (client.after a k).heard.length := congrArg Prod.snd heq
    rw [hsender, hclient] at hclient'
    cases hclient'
    rw [hfrom, Client.after, List.length_append, List.length_singleton] at hplace
    omega
  · -- the last answer is the one told now
    rcases List.prefix_concat_iff.mp hpre with heq | hpre
    · obtain ⟨rfl, hlast⟩ := List.append_inj' heq rfl
      cases hlast
      exact htold.mono List.prefix_rfl List.prefix_rfl List.prefix_rfl le_rfl
    · exact (h.heard i client hclient es p b hpre).mono List.prefix_rfl List.prefix_rfl
        List.prefix_rfl hle

/-- A message that is answered goes from one place to another. -/
theorem perm_answered {α : Type} (pre post l r : List α) (x : α) :
    List.Perm (pre ++ post ++ (l ++ x :: r)) (pre ++ x :: post ++ (l ++ r)) := by
  have hleft : List.Perm (pre ++ post ++ (l ++ x :: r)) (x :: (pre ++ post ++ (l ++ r))) := by
    rw [← List.append_assoc, ← List.append_assoc (pre ++ post)]
    exact List.perm_middle
  have hright : List.Perm (pre ++ x :: post ++ (l ++ r)) (x :: (pre ++ post ++ (l ++ r))) := by
    rw [List.append_assoc pre post, List.append_assoc pre (x :: post)]
    exact List.perm_middle
  exact hleft.trans hright.symm

theorem messages_acted (c : V.Config) (i : Actor.Input M) (actor : Actor.Config M) :
    messages (Clients.acted c i actor none) = messages c := by
  cases i <;> simp [messages, Clients.acted, Actor.Input.begun]

theorem messages_begin (c : V.Config) (op : M.Op) (t : ℤ) (actor : Actor.Config M)
    (m : V.Message) : messages (Clients.acted c (.begin op t) actor (some m)) =
      c.sent ++ (c.works.filterMap Work.owner ++ m :: c.made.map Made.message) := by
  simp [messages, Clients.acted, Actor.Input.begun]

/-- A message that makes its call is among the made. -/
theorem messages_made (c : V.Config) {pre post : List V.Message} {m : V.Message}
    (hsent : c.sent = pre ++ m :: post) (t : ℤ) : List.Perm
      (messages { c with sent := pre ++ post, made := c.made ++ [⟨m, t, c.actor.store⟩] })
      (messages c) := by
  rw [messages, messages, hsent, List.map_append, ← List.append_assoc (List.filterMap _ _)]
  have hperm := perm_answered pre post
    (c.works.filterMap Work.owner ++ c.made.map Made.message) [] m
  rwa [List.append_nil] at hperm

/-- **Every step keeps it.** -/
theorem move (h : Sound start s c) (hmove : Move c c') : Sound start s c' := by
  have hexec : ∀ {i actor}, M.step c.actor i = some actor → M.exec c.actor [i] = some actor := by
    intro i actor hstep
    rw [Actor.exec_cons, hstep]
    rfl
  have hunmade : ∀ x ∈ ([] : List V.Made), x.store = c.actor.store :=
    fun x hx => absurd hx List.not_mem_nil
  have hlooked : ∀ m t, ∀ x ∈ [(⟨m, t, c.actor.store⟩ : V.Made)], x.store = c.actor.store :=
    fun m t x hx => by rw [List.mem_singleton.mp hx]
  -- seven kinds of move; messages and the run of the actor are all that changes
  cases hmove with
  | arrive r => exact h.arrive r
  | answer here waits later told _ => exact h.answer here waits later told
  | @act i actor free later stepped =>
    refine h.acted _ [] rfl ?_ (le_max_left _ _) (le_max_right _ _) rfl ⟨[i], hexec stepped, ?_⟩
      (fun w hw m howner => ?_) (fun w hw howner => ?_) (List.prefix_append _ _)
      (List.append_nil _).symm hunmade
    · rw [messages_acted]
    · cases i <;> rfl
    · obtain ⟨b, -, rfl⟩ := List.mem_map.mp hw
      cases howner
    · obtain ⟨b, hb, rfl⟩ := List.mem_map.mp hw
      cases i with
      | «begin» op t =>
        rw [List.mem_singleton.mp hb]
        exact free
      | resume | call => cases hb
  | @begin pre post m op tell t actor sent service later stepped =>
    refine h.acted [⟨op, t, some m⟩] [] rfl ?_ (le_max_left _ _) (le_max_right _ _) rfl
      ⟨[.begin op t], hexec stepped, rfl⟩ (fun w hw m' howner => ?_) (fun w hw howner => ?_)
      (List.prefix_append _ _) (List.append_nil _).symm hunmade
    · -- the message is on its operation instead of on its way
      rw [messages_begin, messages, sent]
      exact (perm_answered _ _ _ _ _).subperm
    · rw [List.mem_singleton.mp hw] at howner ⊢
      cases howner
      exact ⟨tell, service⟩
    · rw [List.mem_singleton.mp hw] at howner
      cases howner
  | @call pre post m a tell t actor sent service later stepped =>
    refine h.acted [] [⟨m, t, c.actor.store⟩] rfl ?_ (le_max_left _ _)
      (le_max_right _ _) rfl ⟨[.call a t], hexec stepped, rfl⟩
      (fun w hw => absurd hw List.not_mem_nil) (fun w hw => absurd hw List.not_mem_nil)
      (List.prefix_append _ _) rfl (hlooked m t)
    rw [messages_acted]
    exact (messages_made c sent t).subperm
  | @look pre post m tell t sent service later =>
    exact h.acted [] [⟨m, t, c.actor.store⟩] rfl
      (messages_made c sent t).subperm later (le_trans h.le_clock later) (List.append_nil _).symm
      ⟨[], rfl, rfl⟩ (fun w hw => absurd hw List.not_mem_nil)
      (fun w hw => absurd hw List.not_mem_nil) List.prefix_rfl rfl (hlooked m t)
  | @lose pre post m sent =>
    refine h.acted [] [] rfl ?_ le_rfl h.le_clock (List.append_nil _).symm ⟨[], rfl, rfl⟩
      (fun w hw => absurd hw List.not_mem_nil) (fun w hw => absurd hw List.not_mem_nil)
      List.prefix_rfl (List.append_nil _).symm hunmade
    -- one message less
    apply List.Sublist.subperm
    rw [messages, messages, sent]
    exact ((List.sublist_cons_self m post).append_left pre).append_right _

/-- A list of which no two elements have one key has each key in one place. -/
theorem index_unique {α β : Type} {l : List α} {f : α → Option β} (h : (l.filterMap f).Nodup)
    {j j' : ℕ} {x x' : α} {b : β} (hj : l[j]? = some x) (hj' : l[j']? = some x')
    (hx : f x = some b) (hx' : f x' = some b) : j = j' := by
  have hpairs := List.pairwise_filterMap.mp h
  rw [List.pairwise_iff_getElem] at hpairs
  obtain ⟨hlt, rfl⟩ := List.getElem?_eq_some_iff.mp hj
  obtain ⟨hlt', rfl⟩ := List.getElem?_eq_some_iff.mp hj'
  rcases Nat.lt_trichotomy j j' with hless | heq | hmore
  · exact absurd rfl (hpairs j j' hlt hlt' hless b hx b hx')
  · exact heq
  · exact absurd rfl (hpairs j' j hlt' hlt hmore b hx' b hx)

/-- **A message is for one operation.** -/
theorem work_unique (h : Sound start s c) {j j' : ℕ} {w w' : V.Work} {m m' : V.Message}
    (hj : c.works[j]? = some w) (hj' : c.works[j']? = some w') (hm : w.owner = some m)
    (hm' : w'.owner = some m') (heq : m.origin = m'.origin) : j = j' := by
  have hnodup := h.once
  rw [messages, List.map_append, List.map_append, List.map_filterMap] at hnodup
  have hworks := (List.nodup_append'.mp (List.nodup_append'.mp hnodup).2.1).1
  refine index_unique hworks hj hj' (b := m.origin) ?_ ?_
  · rw [hm]
    rfl
  · rw [hm', heq]
    rfl

/-- A message says what its sender asked there. -/
theorem query_eq (h : Sound start s c) {i : ℕ} {client : V.Client}
    (hclient : c.clients[i]? = some client) {es : List ((q : V.Query) × V.Answer q)} {q : V.Query}
    {a : V.Answer q} (hheard : es ++ [⟨q, a⟩] <+: client.heard) {m : V.Message}
    (hm : m ∈ messages c) (horigin : m.origin = (i, es.length)) : m.query = q := by
  obtain ⟨client', hclient', es', hpre, hplace, hasks⟩ := h.asked m hm
  rw [show m.sender = i from congrArg Prod.fst horigin, hclient] at hclient'
  cases hclient'
  have hes : es' = es := by
    have hlength : es'.length = es.length := hplace.trans (congrArg Prod.snd horigin)
    exact (List.prefix_of_prefix_length_le hpre ((List.prefix_append _ _).trans hheard)
      (Nat.le_of_eq hlength)).eq_of_length hlength
  rw [hes] at hasks
  exact asks_unique hasks
    ((h.along client (List.mem_of_getElem? hclient)).asks_heard (V.quiet _) hheard)

theorem operation_unique {q q' : V.Query} {op op' : M.Op} {tell : Except ε M.Reply → V.Answer q}
    {tell' : Except ε M.Reply → V.Answer q'} (hq : q' = q)
    (h : V.service q = .operation op tell) (h' : V.service q' = .operation op' tell') :
    op' = op := by
  subst hq
  rw [h] at h'
  cases h'
  rfl

/-- **What a client hears of an operation is so**, if it was not lost. -/
theorem operation_told (h : Sound start s c) {i : ℕ} {client : V.Client}
    (hclient : c.clients[i]? = some client) {es : List ((q : V.Query) × V.Answer q)} {q : V.Query}
    {a : V.Answer q} (hheard : es ++ [⟨q, a⟩] <+: client.heard) {op : M.Op}
    {tell : Except ε M.Reply → V.Answer q} (hservice : V.service q = .operation op tell)
    (hfailed : V.failed q a = false) :
    ∃ (j : ℕ) (w : V.Work) (m : V.Message) (r : Except ε M.Reply),
      c.works[j]? = some w ∧ w.op = op ∧ w.owner = some m ∧ m.origin = (i, es.length) ∧
        c.ends[j]? = some r ∧ a = tell r := by
  cases h.heard i client hclient es q a hheard with
  | @operation op' tell' j w m r service work owner origin ended =>
    rw [hservice] at service
    cases service
    have hw := List.mem_of_getElem? work
    have hm : m ∈ messages c := List.mem_append_right _
      (List.mem_append_left _ (List.mem_filterMap.mpr ⟨w, hw, owner⟩))
    obtain ⟨tell', hw'⟩ := h.works w hw m owner
    -- the message is from this place, so it asked for this operation
    have hop := operation_unique (h.query_eq hclient hheard hm origin) hservice hw'
    exact ⟨j, w, m, r, work, hop, owner, origin, ended, rfl⟩
  | call service =>
    rw [hservice] at service
    cases service
  | failed failed =>
    rw [hfailed] at failed
    cases failed
  | clock service =>
    rw [hservice] at service
    cases service
  | outside service =>
    rw [hservice] at service
    cases service

/-- **What a client hears of a call is so**, if it was not lost. -/
theorem call_told (h : Sound start s c) {i : ℕ} {client : V.Client}
    (hclient : c.clients[i]? = some client) {es : List ((q : V.Query) × V.Answer q)} {q : V.Query}
    {a : V.Answer q} (hheard : es ++ [⟨q, a⟩] <+: client.heard) {call : Option M.Call}
    {tell : σ → ℤ → V.Answer q} (hservice : V.service q = .call call tell)
    (hfailed : V.failed q a = false) : ∃ x ∈ c.made, x.message.query = q ∧
      x.message.origin = (i, es.length) ∧ a = tell x.store x.time := by
  cases h.heard i client hclient es q a hheard with
  | operation service =>
    rw [hservice] at service
    cases service
  | @call call' tell' x service made origin =>
    rw [hservice] at service
    cases service
    -- the call is the one its message asked for
    have hm : x.message ∈ messages c := List.mem_append_right _
      (List.mem_append_right _ (List.mem_map_of_mem made))
    exact ⟨x, made, h.query_eq hclient hheard hm origin, origin, rfl⟩
  | failed failed =>
    rw [hfailed] at failed
    cases failed
  | clock service =>
    rw [hservice] at service
    cases service
  | outside service =>
    rw [hservice] at service
    cases service

end Sound

/-- What holds at first and is kept by every move of a sound run holds throughout. -/
theorem invariant {start : ℤ} {s : σ} {I : V.Config → Prop} (hinit : I (init start s))
    (hmove : ∀ c c', Sound start s c → I c → Move c c' → I c') {is : List V.Input} {c : V.Config}
    (hexec : exec (init start s) is = some c) : Sound start s c ∧ I c := by
  have hrest : ∀ (is : List V.Input) (c₁ : V.Config), Sound start s c₁ → I c₁ →
      exec c₁ is = some c → Sound start s c ∧ I c := by
    intro is
    induction is with
    | nil =>
      intro c₁ hsound hI hexec
      cases hexec
      exact ⟨hsound, hI⟩
    | cons i is ih =>
      intro c₁ hsound hI hexec
      obtain ⟨c₂, hstep, hlast⟩ := Option.bind_eq_some_iff.mp hexec
      have hm := step_move hstep
      exact ih c₂ (hsound.move hm) (hmove c₁ c₂ hsound hI hm) hlast
  exact hrest is _ (.init start s) hinit hexec

/-- The operations of a run, and what they ended with. -/
def history (c : V.Config) : List (M.Op × ℤ) × List (Except ε M.Reply) :=
  (c.works.map fun w => (w.op, w.time), c.ends)

theorem history_acted (c : V.Config) (i : Actor.Input M) (actor : Actor.Config M)
    (owner : Option V.Message) : history (acted c i actor owner) =
      ((history c).1 ++ i.begun, (history c).2 ++ (outcome c.actor i).toList) := by
  refine Prod.ext ?_ rfl
  show (c.works ++ _).map _ = _
  rw [List.map_append, List.map_map]
  exact congrArg _ (List.map_id _)

/-- **A record that the store keeps of its operations is the history**, if every step of the actor
adds to it what it begins and ends. -/
theorem history_eq {start : ℤ} {s : σ}
    {record : σ → List (M.Op × ℤ) × List (Except ε M.Reply)} (hinit : record s = ([], []))
    (hstep : ∀ is a a' i, M.exec ⟨start, s, none⟩ is = some a → M.step a i = some a' →
      record a'.store = ((record a.store).1 ++ i.begun, (record a.store).2 ++ (outcome a i).toList))
    {is : List V.Input} {c : V.Config} (hexec : exec (init start s) is = some c) :
    record c.actor.store = history c := by
  refine (invariant (I := fun c : V.Config => record c.actor.store = history c) hinit ?_ hexec).2
  intro c c' hsound h hmove
  obtain ⟨js, hrun, -⟩ := hsound.run
  have hacted : ∀ {i actor}, M.step c.actor i = some actor →
      record actor.store =
        ((history c).1 ++ i.begun, (history c).2 ++ (outcome c.actor i).toList) :=
    fun hactor => h ▸ hstep js _ _ _ hrun hactor
  -- three kinds of move are steps of the actor; the rest leave it alone
  cases hmove with
  | arrive | answer | look | lose => exact h
  | act _ _ stepped =>
    rw [history_acted]
    exact hacted stepped
  | «begin» _ _ _ stepped =>
    rw [history_acted]
    exact hacted stepped
  | call _ _ _ stepped =>
    rw [history_acted]
    exact hacted stepped

end Clients

import DashFaucet.Captcha
import DashFaucet.Treasury.Journal
import DashFaucet.WorkerGates

/-!
# The Worker and its Treasury

Requests and the Treasury in one system. Any number of requests are under way at once; each runs
the Worker's `fetch`, and what it asks of the Treasury is a message that may be late or lost. The
Treasury goes on by itself too: its other operations (cron and alarms) and the calls of the portal
come at any time, whatever the portal was told of them.

* `Deployment`, `Deployment.requests`: the system.
* `Deployment.payouts_backed`: every payout is one request's own, and has what backs it.
* `Deployment.replies_true`: what a request is told of its payout is so.
-/

namespace DashFaucet

open Async Worker

/-- A Worker, and the Treasury it pays from. Both resolve the same configuration. -/
structure Deployment where
  worker : Worker
  faucet : Faucet
  cfg : Settings
  resolved : worker.resolved = .ok cfg
  config : faucet.cfg = cfg.faucet

namespace Deployment

/-- What the Worker hears of an operation. -/
def tellPayout : Except Thrown Reply → Rpc PayoutResult
  | .ok (.payout result) => .ok result
  | .ok _ => .error "not a payout"
  | .error e => .error (describeError e)

def tellSnapshot : Except Thrown Reply → Rpc Snapshot
  | .ok (.snapshot snapshot) => .ok snapshot
  | .ok _ => .error "not a snapshot"
  | .error e => .error (describeError e)

def tellMaintenance : Except Thrown Reply → Rpc MaintenanceResult
  | .ok (.maintain result) => .ok result
  | .ok _ => .error "not a maintenance"
  | .error e => .error (describeError e)

variable (d : Deployment)

/-- What the Worker asks, to the Treasury. The vouchers are another one's. -/
def service : (q : Worker.Query) → Service d.faucet.treasury q.Answer
  | .payout input => .operation (.payout input) tellPayout
  | .snapshot => .operation .snapshot tellSnapshot
  | .maintain => .operation .maintain tellMaintenance
  | .consumeCapToken token expiresAt =>
    .call (some (.consumeCapToken token expiresAt)) fun s t =>
      (.ok (s.admin.consumeCapToken token expiresAt t).1 : Rpc Bool)
  | .isActiveApiKey hash =>
    .call none fun s t => (.ok (s.admin.isActiveApiKey d.faucet.cfg.keysEnabled hash t) : Rpc Bool)
  | .now => .clock fun t => t
  | .edgeLimit _ | .siteverify _ | .random _ | .randomUUID | .invitationSnapshot
  | .issueInvitation _ | .maintainInvitations | .portal _ | .assets => .outside

/-- A call of the Treasury that failed. -/
def failed : (q : Worker.Query) → q.Answer → Bool
  | .payout _, (answer : Rpc PayoutResult) => !answer.isOk
  | .snapshot, (answer : Rpc Snapshot) => !answer.isOk
  | .maintain, (answer : Rpc MaintenanceResult) => !answer.isOk
  | .consumeCapToken .., (answer : Rpc Bool) => !answer.isOk
  | .isActiveApiKey _, (answer : Rpc Bool) => !answer.isOk
  | _, _ => false

/-- What happens to the Treasury without a request for it. A payout and the spending of a capToken
do not. -/
def free : Actor.Input d.faucet.treasury → Bool
  | .begin (.payout _) _ => false
  | .call (.consumeCapToken ..) _ => false
  | .begin .. | .call .. | .resume _ => true

/-- The requests of a deployment. -/
@[reducible] def requests : Clients d.faucet.treasury where
  Query := Worker.Query
  Answer := Worker.Query.Answer
  Error := String
  Request := Request
  Reply := Response
  program := fetch d.worker
  quiet := quiet_fetch d.worker
  service := d.service
  failed := failed
  free := d.free

/-- A configuration that a fresh deployment reaches. -/
def Reached (c : d.requests.Config) : Prop := Clients.Reached (V := d.requests) .initial c

variable {d} {c : d.requests.Config}

/-- **What holds throughout a run**: the requests and their messages are in order, the Treasury
makes a run of its own, and its record is the history. -/
theorem Reached.sound (h : d.Reached c) : ∃ start, Clients.Sound start (State.initial start) c ∧
    d.faucet.Reached c.actor ∧ Faucet.journal c.actor.store = Clients.history c := by
  obtain ⟨start, is, hexec⟩ := h
  obtain ⟨hsound, -⟩ := Clients.invariant (I := fun _ => True) trivial
    (fun _ _ _ _ _ => trivial) hexec
  obtain ⟨js, hrun, -⟩ := hsound.run
  refine ⟨start, hsound, ⟨start, js, hrun⟩, Clients.history_eq rfl ?_ hexec⟩
  intro js a a' i hreached hstep
  exact Faucet.Reached.journal_step ⟨start, js, hreached⟩ hstep

/-! ### A sample -/

/-- A Worker with a captcha. -/
def sampleWorker : Worker where
  runtime :=
    { hmac := Captcha.smallHmac
      digest := fun _ _ => by unfold Captcha.smallHmac; split <;> decide
      sha256 := fun _ => []
      stringifySession := fun _ => ""
      parseSession := fun _ => .error "no session"
      toLowerCase := id
      toUpperCase := id
      hostOf := id
      searchParam := fun _ _ => none
      encodeURIComponent := id
      numberText := fun _ => ""
      parseAmountSats := fun _ => none }
  number := numberOfDigits
  itemText _ := ""
  decode address _ := some ⟨true, "pkh", address⟩
  env := sampleEnv "testnet"
  edgeLimit := true
  invitationTreasury := false

def sample : Deployment where
  worker := sampleWorker
  faucet := { Faucet.small with cfg := (sampleSettings .testnet).faucet }
  cfg := sampleSettings .testnet
  resolved := by
    unfold Worker.resolved
    exact resolveConfig_sample .testnet
  config := rfl

/-- A request for a payout, with a capToken. -/
def sampleRequest : Request where
  method := "POST"
  path := "/api/core-faucet"
  host := "faucet.example"
  search := ""
  header name := if name = "CF-Connecting-IP" then some "192.0.2.1" else none
  body := .ok (.obj [("address", .str "yalice"), ("capToken", .str Captcha.smallToken)])

/-- The edge lets it through. -/
def sampleAnswer : (q : Worker.Query) → q.Answer
  | .edgeLimit _ => (.ok true : Rpc Bool)
  | q => someAnswer q

/-- The request has its token verified and spent, asks for a payout, and hears of it. -/
def sampleRun : Option sample.requests.Config :=
  Clients.exec (Clients.init 0 (.initial 0))
    ([.arrive sampleRequest, .hear 0 sampleAnswer, .tick 0 1700001199000,
        .call 0 1700001199500, .report 0 0, .begin 0 1700001199600] ++
      List.replicate 5 (.other (.resume (Faucet.smallWorld (.ok "txid")))) ++ [.reply 0 0])

/-- What a client was answered with. -/
def status {d : Deployment} (client : d.requests.Client) : Option ℕ :=
  match client.rest with
  | .ret response => some response.status
  | _ => none

/-- The payout that it asks for. -/
def samplePayout : PayoutRequest :=
  { address := "yalice", pubKeyHash := "yalice", ip := "192.0.2.1", tier := some .soft }

theorem sampleRun_paid : ∃ c client r response, sampleRun = some c ∧ c.clients = [client] ∧
    PayoutRoute client.request ∧ client.rest = .ret response ∧ response.status = 200 ∧
      c.actor.store.records = [r] ∧ r.op = .payout samplePayout := by
  have hrun : sampleRun.map (fun c => (c.actor.store.records.map OpRecord.op,
      c.clients.map fun client => (client.request.method, client.request.path, status client))) =
        some ([.payout samplePayout], [("POST", "/api/core-faucet", some 200)]) := by
    decide +kernel
  obtain ⟨c, hc, heq⟩ := Option.map_eq_some_iff.mp hrun
  obtain ⟨hrecords, hclients⟩ := Prod.mk.inj heq
  obtain ⟨r, hr, hop⟩ := List.map_eq_singleton_iff.mp hrecords
  obtain ⟨client, hclient, hshown⟩ := List.map_eq_singleton_iff.mp hclients
  obtain ⟨hmethod, hrest⟩ := Prod.mk.inj hshown
  obtain ⟨hpath, hstatus⟩ := Prod.mk.inj hrest
  unfold status at hstatus
  split at hstatus
  next response hresponse =>
    exact ⟨c, client, r, response, hc, hclient, ⟨hmethod, hpath⟩, hresponse,
      Option.some.inj hstatus, hr, hop⟩
  · cases hstatus

theorem sampleRun_reached {c : sample.requests.Config} (h : sampleRun = some c) :
    sample.Reached c := ⟨0, _, h⟩

/-! ### Payouts -/

theorem service_operation {q : Worker.Query} {input : PayoutRequest}
    {tell : Except Thrown Reply → q.Answer}
    (h : d.service q = .operation (.payout input) tell) : q = .payout input := by
  cases q with
  | payout input' =>
    cases h
    rfl
  | snapshot | maintain => cases h
  | consumeCapToken | isActiveApiKey | now => cases h
  | edgeLimit | siteverify | random | randomUUID | invitationSnapshot | issueInvitation
  | maintainInvitations | portal | assets => cases h

/-- A payout begins only at the request of a message for it. -/
theorem payout_owned {start : ℤ} (h : Clients.Sound start (State.initial start) c) {j : ℕ}
    {work : d.requests.Work} {input : PayoutRequest} (hj : c.works[j]? = some work)
    (hop : work.op = .payout input) : ∃ m client es, work.owner = some m ∧
      c.clients[m.sender]? = some client ∧ es <+: client.heard ∧ es.length = m.place ∧
        (fetch d.worker client.request).Asks es (.payout input) := by
  have hwork := List.mem_of_getElem? hj
  cases howner : work.owner with
  | none =>
    have hfree := h.unowned work hwork howner
    rw [hop] at hfree
    cases hfree
  | some m =>
    obtain ⟨tell, hservice⟩ := h.works work hwork m howner
    rw [hop] at hservice
    obtain ⟨client, hclient, es, hpre, hplace, hasks⟩ := h.asked m (List.mem_append_right _
      (List.mem_append_left _ (List.mem_filterMap.mpr ⟨work, hwork, howner⟩)))
    rw [service_operation hservice] at hasks
    exact ⟨m, client, es, rfl, hclient, hpre, hplace, hasks⟩

/-- Two payouts at the request of one client are one. -/
theorem payout_unique {start : ℤ} (h : Clients.Sound start (State.initial start) c) {j j' : ℕ}
    {work work' : d.requests.Work} {m m' : d.requests.Message} {input input' : PayoutRequest}
    (hj : c.works[j]? = some work) (hj' : c.works[j']? = some work')
    (hop : work.op = .payout input) (hop' : work'.op = .payout input')
    (howner : work.owner = some m) (howner' : work'.owner = some m')
    (hsender : m.sender = m'.sender) : j = j' := by
  obtain ⟨m₁, client, es, hm₁, hclient, hpre, hplace, hasks⟩ := payout_owned h hj hop
  obtain ⟨m₂, client', es', hm₂, hclient', hpre', hplace', hasks'⟩ := payout_owned h hj' hop'
  rw [howner] at hm₁
  rw [howner'] at hm₂
  cases hm₁
  cases hm₂
  rw [hsender, hclient'] at hclient
  cases hclient
  have halong := h.along client (List.mem_of_getElem? hclient')
  obtain ⟨rfl, -⟩ := asks_payout_once halong hpre hpre' hasks hasks'
  exact h.work_unique hj hj' howner howner' (Prod.ext hsender (hplace.symm.trans hplace'))

/-- The operation at some place of the Treasury's record is the one at that place of the history. -/
theorem work_of_record (h : Faucet.journal c.actor.store = Clients.history c) {j : ℕ}
    {r : OpRecord} (hr : c.actor.store.records[j]? = some r) :
    ∃ work, c.works[j]? = some work ∧ work.op = r.op := by
  have hops : (c.actor.store.records.map fun r => (r.op, r.now))[j]? =
      (c.works.map fun w => (w.op, w.time))[j]? := congrArg (fun x => x.1[j]?) h
  rw [List.getElem?_map, List.getElem?_map, hr] at hops
  obtain ⟨work, hwork, heq⟩ := Option.map_eq_some_iff.mp hops.symm
  exact ⟨work, hwork, congrArg Prod.fst heq⟩

/-- **Every payout has its own request, and that is backed.** In every run of the Worker and its
Treasury, whatever messages are late or lost: each payout the Treasury ever begins was asked for by
a request for a payout, which had the answers that back it, and no two are of one request. -/
theorem payouts_backed (h : d.Reached c) : ∃ owner : ℕ → ℕ,
    (∀ j r input, c.actor.store.records[j]? = some r → r.op = .payout input →
      ∃ client before, c.clients[owner j]? = some client ∧ before <+: client.heard ∧
        PayoutRoute client.request ∧ Backed d.worker client.request before input) ∧
    ∀ j j' r r' input input', c.actor.store.records[j]? = some r →
      c.actor.store.records[j']? = some r' → r.op = .payout input → r'.op = .payout input' →
      owner j = owner j' → j = j' := by
  obtain ⟨start, hsound, -, hjournal⟩ := h.sound
  refine ⟨fun j => ((c.works[j]?.bind Clients.Work.owner).map Clients.Message.sender).getD 0, ?_,
    ?_⟩
  · intro j r input hr hop
    obtain ⟨work, hj, heq⟩ := work_of_record hjournal hr
    obtain ⟨m, client, es, howner, hclient, hpre, -, hasks⟩ :=
      payout_owned hsound hj (heq.trans hop)
    obtain ⟨hpays, hbacked⟩ := asks_payout hasks
    refine ⟨client, es, ?_, hpre, hpays, hbacked⟩
    simpa [hj, howner] using hclient
  · intro j j' r r' input input' hr hr' hop hop' hsame
    obtain ⟨work, hj, heq⟩ := work_of_record hjournal hr
    obtain ⟨work', hj', heq'⟩ := work_of_record hjournal hr'
    obtain ⟨m, -, -, howner, -⟩ := payout_owned hsound hj (heq.trans hop)
    obtain ⟨m', -, -, howner', -⟩ := payout_owned hsound hj' (heq'.trans hop')
    -- two operations with one owner come from one client, which asks once
    have hsender : m.sender = m'.sender := by simpa [hj, hj', howner, howner'] using hsame
    exact payout_unique hsound hj hj' (heq.trans hop) (heq'.trans hop') howner howner' hsender

/-- One is paid. -/
theorem payouts_backed_sample : ∃ (c : sample.requests.Config) (r : OpRecord)
    (client : sample.requests.Client) (before : List Exchange), sample.Reached c ∧
      c.actor.store.records = [r] ∧ client ∈ c.clients ∧ before <+: client.heard ∧
        Backed sampleWorker client.request before samplePayout := by
  obtain ⟨c, -, r, -, hrun, -, -, -, -, hrecords, hop⟩ := sampleRun_paid
  have hreached := sampleRun_reached hrun
  obtain ⟨owner, hbacked, -⟩ := payouts_backed hreached
  have hr : c.actor.store.records[0]? = some r := by rw [hrecords]; rfl
  obtain ⟨client, before, hclient, hpre, -, hb⟩ := hbacked 0 r samplePayout hr hop
  exact ⟨c, r, client, before, hreached, hrecords, List.mem_of_getElem? hclient, hpre, hb⟩

/-! ### Replies -/

/-- What the record says an operation ended with, the history says. -/
theorem end_of_record (h : Faucet.journal c.actor.store = Clients.history c) {j : ℕ}
    {x : OpRecord × Except Thrown Reply} (hx : c.actor.store.past[j]? = some x) :
    c.ends[j]? = some x.2 := by
  have hends : (c.actor.store.past.map Prod.snd)[j]? = c.ends[j]? := congrArg (fun x => x.2[j]?) h
  rw [← hends, List.getElem?_map, hx]
  rfl

/-- And the other way round. -/
theorem record_of_end (h : Faucet.journal c.actor.store = Clients.history c) {j : ℕ}
    {work : d.requests.Work} {result : Except Thrown Reply} (hj : c.works[j]? = some work)
    (hend : c.ends[j]? = some result) :
    ∃ r, c.actor.store.past[j]? = some (r, result) ∧ r.op = work.op := by
  have hends : (c.actor.store.past.map Prod.snd)[j]? = c.ends[j]? := congrArg (fun x => x.2[j]?) h
  rw [hend, List.getElem?_map] at hends
  obtain ⟨⟨r, result'⟩, hx, rfl⟩ := Option.map_eq_some_iff.mp hends
  refine ⟨r, hx, ?_⟩
  have hrecord : c.actor.store.records[j]? = some r := by
    refine Clients.getElem?_extend (List.prefix_append _ _) ?_
    rw [List.getElem?_map, hx]
    rfl
  obtain ⟨work', hj', hop⟩ := work_of_record h hrecord
  rw [hj] at hj'
  cases hj'
  exact hop.symm

theorem tellPayout_ok {result : Except Thrown Reply} {x : PayoutResult}
    (h : tellPayout result = .ok x) : result = .ok (.payout x) := by
  unfold tellPayout at h
  split at h
  · cases h
    rfl
  · cases h
  · cases h

/-- An operation of the Treasury that client `i` asked for was this payout, and ended in `paid`. -/
def PaidFor (c : d.requests.Config) (i : ℕ) (r : OpRecord) (input : PayoutRequest) (paid : Paid) :
    Prop :=
  ∃ (j : ℕ) (work : d.requests.Work) (m : d.requests.Message), c.works[j]? = some work ∧
    work.owner = some m ∧ m.sender = i ∧
    c.actor.store.past[j]? = some (r, .ok (.payout (.ok paid))) ∧ r.op = .payout input

/-- A payout that was paid for a client that has been answered is what the client asked for last,
and was told of, if it was not lost. -/
theorem PaidFor.told {start : ℤ} (hsound : Clients.Sound start (State.initial start) c)
    (hjournal : Faucet.journal c.actor.store = Clients.history c) {i : ℕ}
    {client : d.requests.Client} (hclient : c.clients[i]? = some client)
    {x : Except String Response} (hend : (fetch d.worker client.request).Transcript client.heard x)
    {r : OpRecord} {input : PayoutRequest} {paid : Paid} (h : PaidFor c i r input paid) :
    ∃ es, ∃ answer : Rpc PayoutResult, es ++ [⟨.payout input, answer⟩] <+: client.heard ∧
      (answer = .ok (.ok paid) ∨ ∃ e, answer = .error e) := by
  obtain ⟨j, work, m, hj, howner, rfl, hpast, hop⟩ := h
  have hends := end_of_record hjournal hpast
  obtain ⟨r', hpast', hop'⟩ := record_of_end hjournal hj hends
  rw [hpast] at hpast'
  cases hpast'
  obtain ⟨m', client', es, howner', hclient', hpre, hplace, hasks⟩ :=
    payout_owned hsound hj (hop'.symm.trans hop)
  rw [howner] at howner'
  cases howner'
  rw [hclient] at hclient'
  cases hclient'
  -- the client has ended, so it heard an answer to what it asked
  obtain ⟨answer, hanswer⟩ := hasks.answered hend hpre
  refine ⟨es, answer, hanswer, ?_⟩
  cases hresult : (answer : Rpc PayoutResult) with
  | error e => exact .inr ⟨e, rfl⟩
  | ok result =>
    rw [hresult] at hanswer
    obtain ⟨j', work', m'', result', hj', -, howner'', horigin, hend', htold⟩ :=
      hsound.operation_told hclient hanswer rfl rfl
    -- an answer that is no failure tells of the operation of this very message
    have hsame := hsound.work_unique hj hj' howner howner''
      (Prod.ext (congrArg Prod.fst horigin).symm
        (hplace.symm.trans (congrArg Prod.snd horigin).symm))
    subst hsame
    rw [hends] at hend'
    cases hend'
    exact .inl htold

/-- **Replies tell the truth.** In every run, a request for a payout that was answered got a 200
just if an operation of the Treasury that the request itself asked for ended in that payment, with
the transaction it names settled as accepted; any other answer means that no operation of its
ended in a payment, unless the request heard that its call failed. -/
theorem replies_true (h : d.Reached c) {i : ℕ} {client : d.requests.Client} {response : Response}
    (hclient : c.clients[i]? = some client) (hpays : PayoutRoute client.request)
    (hdone : client.rest = .ret response) :
    (response.status = 200 ∧ ∃ r input paid before, PaidFor c i r input paid ∧
      Backed d.worker client.request before input ∧
      response = payoutSuccess d.cfg paid input.address ∧
      (paid.replay = false → paid.dryRun = false →
        (∃ tx, tx.txid = paid.txid ∧ .settled tx (.ok paid.accepted) ∈ r.trace) ∧
          (input.isPublic → paid.satoshis = d.cfg.faucet.payoutSats))) ∨
    (response.status ≠ 200 ∧ ∀ r input paid, PaidFor c i r input paid →
      ∃ e, ⟨.payout input, (.error e : Rpc PayoutResult)⟩ ∈ client.heard) := by
  obtain ⟨start, hsound, hreached, hjournal⟩ := h.sound
  have hend := hsound.along client (List.mem_of_getElem? hclient)
  rw [hdone] at hend
  have hend := hend.transcript (quiet_fetch _ _)
  -- what asks for no payout is paid none
  have hnothing : Unpaid client.heard → ∀ r input paid, PaidFor c i r input paid →
      ∃ e, ⟨.payout input, (.error e : Rpc PayoutResult)⟩ ∈ client.heard := by
    intro hunpaid r input paid hpaid
    obtain ⟨es, answer, hpre, -⟩ := hpaid.told hsound hjournal hclient hend
    exact absurd trivial (hunpaid _ (hpre.subset (List.mem_append_right _ List.mem_cons_self)))
  obtain ⟨x, hx, hcourse⟩ := fetch_course hpays hend
  cases hx
  rcases hcourse with ⟨hnil, e, rfl⟩ | ⟨cfg, hcfg, hcourse⟩
  · exact .inr ⟨show 500 ≠ 200 by decide, hnothing (hnil ▸ unpaid_nil)⟩
  rw [d.resolved] at hcfg
  cases hcfg
  generalize hheard : client.heard = heard at hcourse
  rw [hheard] at hnothing
  cases hcourse with
  | refused unpaid status => exact .inr ⟨status, hnothing unpaid⟩
  | failed unpaid => exact .inr ⟨show 500 ≠ 200 by decide, hnothing unpaid⟩
  | @asked before input answer escalatable backed =>
    have hpre : before ++ [⟨.payout input, answer⟩] <+: client.heard := hheard ▸ List.prefix_rfl
    have halong := hsound.along client (List.mem_of_getElem? hclient)
    -- what was paid was asked for here, and told here
    have hlast : ∀ r input' paid, PaidFor c i r input' paid → input' = input ∧
        (answer = .ok (.ok paid) ∨ ∃ e, answer = .error e) := by
      intro r input' paid hpaid
      obtain ⟨es, answer', hpre', htold⟩ := hpaid.told hsound hjournal hclient hend
      obtain ⟨rfl, rfl⟩ := asks_payout_once halong ((List.prefix_append _ _).trans hpre)
        ((List.prefix_append _ _).trans hpre') (halong.asks_heard (quiet_fetch _ _) hpre)
        (halong.asks_heard (quiet_fetch _ _) hpre')
      have heq := (List.prefix_of_prefix_length_le hpre' hpre (by simp)).eq_of_length (by simp)
      cases (List.append_inj' heq rfl).2
      exact ⟨rfl, htold⟩
    cases answer with
    | error e =>
      refine .inr ⟨show 500 ≠ 200 by decide, fun r input' paid hpaid => ?_⟩
      obtain ⟨rfl, -⟩ := hlast r input' paid hpaid
      exact ⟨e, List.mem_append_right _ (List.mem_singleton.mpr rfl)⟩
    | ok result =>
      rcases payoutReply_cases d.cfg result input.address escalatable with
        ⟨paid, rfl, hreply⟩ | ⟨hunpaid, hstatus⟩
      · obtain ⟨j, work, m, ended, hj, hop, howner, horigin, hended, htold⟩ :=
          hsound.operation_told hclient hpre rfl rfl
        cases tellPayout_ok htold.symm
        obtain ⟨r, hpast, hrecord⟩ := record_of_end hjournal hj hended
        have hinput : r.op = .payout input := hrecord.trans hop
        refine .inl ⟨rfl, r, input, paid, before, ⟨j, work, m, hj, howner,
          congrArg Prod.fst horigin, hpast, hinput⟩, backed, hreply, fun hreplay hdry => ?_⟩
        rw [← d.config]
        exact (hreached.paidWell _ (List.mem_of_getElem? hpast) input hinput).settled_of_paid paid
          rfl hreplay hdry
      · refine .inr ⟨hstatus, fun r input' paid hpaid => ?_⟩
        obtain ⟨-, heq | ⟨e, heq⟩⟩ := hlast r input' paid hpaid
        · exact absurd (Except.ok.inj heq) (hunpaid paid)
        · cases heq

/-- The reply to a payout that was paid. -/
theorem replies_true_sample : ∃ (c : sample.requests.Config) (client : sample.requests.Client)
    (response : Response) (r : OpRecord) (input : PayoutRequest) (paid : Paid),
      sample.Reached c ∧ c.clients = [client] ∧ client.rest = .ret response ∧
        response.status = 200 ∧ PaidFor c 0 r input paid ∧
          response = payoutSuccess sample.cfg paid input.address := by
  obtain ⟨c, client, -, response, hrun, hclients, hpays, hrest, hstatus, -, -⟩ := sampleRun_paid
  have hreached := sampleRun_reached hrun
  have hclient : c.clients[0]? = some client := by rw [hclients]; rfl
  rcases replies_true hreached hclient hpays hrest with
    ⟨-, r, input, paid, before, hpaid, -, hreply, -⟩ | ⟨hrefused, -⟩
  · exact ⟨c, client, response, r, input, paid, hreached, hclients, hrest, hstatus, hpaid, hreply⟩
  · exact absurd hstatus hrefused

end Deployment

end DashFaucet

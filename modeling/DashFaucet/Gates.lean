import DashFaucet.Deployment

/-!
# What a request can have

The Worker by itself, against anything it may hear: what a request for a payout or for invitations
asks for, it asks for once, behind its gates and as the last thing, and a 200 says that it was
given.

* `payout_gates`: for payouts.
* `Invited`: what stands behind an issuance. `InvitationCourse`, `course_handleInvitation`: how a
  request for invitations goes.
* `invitation_gates`: for invitations.
-/

namespace DashFaucet.Worker

open Async
open Deployment (sampleWorker sampleRequest sampleAnswer)

variable {w : Worker} {cfg : Settings} {request : Request} {es : List Exchange}

/-! ### Payouts -/

/-- The other requests pay nothing. -/
theorem fetch_unpaid (hpays : ¬PayoutRoute request) {r : Except String Response}
    (h : (fetch w request).Transcript es r) : Unpaid es := by
  obtain ⟨x, hroute, -⟩ := transcript_fetch.mp h
  intro e he
  rcases route_cases w request with ⟨h, -⟩ | ⟨-, -, heq⟩ | ⟨-, -, hquiet⟩
  · exact absurd h hpays
  · rw [heq] at hroute
    rcases quiet_handleInvitation.of_mem_transcript hroute e he with hidle | ⟨input, hissue⟩
    · exact hidle.not_payout
    · rw [hissue]
      exact id
  · exact (hquiet.of_mem_transcript hroute e he).not_payout

/-- **The gate of a payout.** Whatever is heard, a request asks for at most one payout, as the last
thing it asks, with an edge, captcha or key behind it. It is answered by a 200 just if that was
paid. -/
theorem payout_gates (w : Worker) (request : Request) {es : List Exchange}
    {r : Except String Response} (h : (fetch w request).Transcript es r) :
    ∃ response, r = .ok response ∧
      ((Unpaid es ∧ (PayoutRoute request → response.status ≠ 200)) ∨
        ∃ cfg before input, ∃ answer : Rpc PayoutResult, PayoutRoute request ∧
          w.resolved = .ok cfg ∧ Backed w request before input ∧ Unpaid before ∧
          es = before ++ [⟨.payout input, answer⟩] ∧
          ((∃ paid, answer = .ok (.ok paid) ∧
              response = payoutSuccess cfg paid input.address ∧ response.status = 200) ∨
            (∀ paid, answer ≠ .ok (.ok paid)) ∧ response.status ≠ 200)) := by
  by_cases hpays : PayoutRoute request
  · obtain ⟨x, rfl, ⟨rfl, e, rfl⟩ | ⟨cfg, hcfg, hcourse⟩⟩ := fetch_course hpays h
    · exact ⟨_, rfl, .inl ⟨unpaid_nil, fun _ => show 500 ≠ 200 by decide⟩⟩
    refine ⟨caught x, rfl, ?_⟩
    -- how the request went decides what it had and what it is told
    cases hcourse with
    | refused unpaid status => exact .inl ⟨unpaid, fun _ => status⟩
    | failed unpaid => exact .inl ⟨unpaid, fun _ => show 500 ≠ 200 by decide⟩
    | @asked before input answer escalatable backed =>
      refine .inr ⟨cfg, before, input, answer, hpays, hcfg, backed, backed.unpaid, rfl, ?_⟩
      cases answer with
      | error e => exact .inr ⟨fun paid hpaid => (by cases hpaid), show 500 ≠ 200 by decide⟩
      | ok result =>
        rcases payoutReply_cases cfg result input.address escalatable with
          ⟨paid, rfl, hreply⟩ | ⟨hunpaid, hstatus⟩
        · exact .inl ⟨paid, rfl, hreply, rfl⟩
        · exact .inr ⟨fun paid hpaid => hunpaid paid (Except.ok.inj hpaid), hstatus⟩
  · obtain ⟨x, -, rfl⟩ := transcript_fetch.mp h
    exact ⟨_, rfl, .inl ⟨fetch_unpaid hpays h, fun h => absurd h hpays⟩⟩

/-- What the sample's request hears when all goes well. -/
def paidAnswer : (q : Query) → q.Answer
  | .now => (1700001199000 : ℤ)
  | .consumeCapToken .. => (.ok true : Rpc Bool)
  | .payout _ => (.ok (.ok ⟨"ab12", coin, false, false, ["relay"], none, none⟩) : Rpc PayoutResult)
  | q => sampleAnswer q

/-- A request whose answers are chosen for it ends, as they say. -/
theorem exists_transcript (w : Worker) (request : Request) (o : (q : Query) → q.Answer) :
    ∃ es, (fetch w request).Transcript es
      (run (fun _ _ s => s) (fun _ => o) (fetch w request) 0 ()).1 := by
  obtain ⟨es, h, -⟩ := run_quiet (fun _ _ s => s) (fun _ => o) (quiet_fetch w request) 0 ()
  exact ⟨es, h⟩

/-- The sample's request is paid, and its capToken was spent for it. -/
theorem payout_gates_sample : ∃ (es : List Exchange) (response : Response)
    (before : List Exchange) (input : PayoutRequest) (answer : Rpc PayoutResult),
      (fetch sampleWorker sampleRequest).Transcript es (.ok response) ∧ response.status = 200 ∧
        Backed sampleWorker sampleRequest before input ∧
        es = before ++ [⟨.payout input, answer⟩] := by
  have hstatus : (run (fun _ _ s => s) (fun _ => paidAnswer) (fetch sampleWorker sampleRequest)
      0 ()).1.toOption.map Response.status = some 200 := by
    decide +kernel
  obtain ⟨es, hes⟩ := exists_transcript sampleWorker sampleRequest paidAnswer
  obtain ⟨response, hr, hgates⟩ := payout_gates sampleWorker sampleRequest hes
  rw [hr] at hes hstatus
  have hpaid : response.status = 200 := Option.some.inj hstatus
  rcases hgates with ⟨-, hnot⟩ | ⟨_, before, input, answer, -, -, hbacked, -, heq, -⟩
  · exact absurd hpaid (hnot ⟨rfl, rfl⟩)
  · exact ⟨es, response, before, input, answer, hes, hpaid, hbacked, heq⟩

/-! ### Invitations -/

/-- Nothing of it was an issuance. -/
def Unissued (es : List Exchange) : Prop := ∀ e ∈ es, ∀ input, e.1 ≠ .issueInvitation input

theorem unissued_nil : Unissued [] := fun _ he => absurd he List.not_mem_nil

theorem Unissued.append {es es' : List Exchange} (h : Unissued es) (h' : Unissued es') :
    Unissued (es ++ es') := fun e he => (List.mem_append.mp he).elim (h e) (h' e)

theorem Unissued.of_idle {α : Type} {p : Prog α} (hp : p.Quiet Idle) {r : Except String α}
    (h : p.Transcript es r) : Unissued es := by
  intro e he input heq
  have hidle := hp.of_mem_transcript h e he
  rw [heq] at hidle
  exact hidle

/-- **What stands behind an issuance**: the edge let the request through, and then Turnstile
granted its token, for the request's own host and for invitations. -/
inductive Invited (w : Worker) (request : Request) (cfg : Settings) (count : ℕ) :
    List Exchange → Devices.Device → Prop where
  | mk {fields : List (String × Json)} {token : String} {form : List (String × String)}
      {reply : Json} {outcome : TurnstileOutcome} {drawn : List Exchange} {device : Devices.Device}
      (enabled : cfg.faucet.invitations.enabled = true) (secret : cfg.turnstileSecret ≠ "")
      (read : readJsonObject request = .ok fields)
      (counted : requestedCount fields cfg.faucet.invitations.maxPerRequest = some count)
      (given : fields.lookup "turnstileToken" = some (.str token)) (nonempty : token ≠ "")
      (signed : ("secret", cfg.turnstileSecret) ∈ form ∧ ("response", token) ∈ form)
      (judged : judge w (some ⟨hostname request, "invitation_faucet"⟩) reply = .ok outcome)
      (granted : outcome.ok = true)
      (identified : (requestDevice w request cfg).Transcript drawn (.ok device)) :
      Invited w request cfg count
        (edgeHeard w ("invite:" ++ clientIp request) ++
          ([⟨.siteverify form, (.ok reply : Rpc Json)⟩] ++ drawn)) device

/-- What is asked for a device at this IP. -/
def issuance (w : Worker) (request : Request) (cfg : Settings) (count : ℕ)
    (device : Devices.Device) : InvitationIssueRequest :=
  { ipHash := hashSignal w cfg .ip (clientIp request)
    deviceHash := hashSignal w cfg .device device.id, count := some count }

/-- **How a request for invitations goes**: it is refused, it fails, or the issuance is the last
thing it asks, and its reply tells the outcome. -/
inductive InvitationCourse (w : Worker) (request : Request) :
    List Exchange → Except String Response → Prop where
  | refused {es : List Exchange} {response : Response} (unissued : Unissued es)
      (status : response.status ≠ 200) : InvitationCourse w request es (.ok response)
  | failed {es : List Exchange} {e : String} (unissued : Unissued es) :
      InvitationCourse w request es (.error e)
  | asked {cfg : Settings} {before : List Exchange} {count : ℕ} {device : Devices.Device}
      (answer : Rpc InvitationIssueResult) (config : w.resolved = .ok cfg)
      (unissued : Unissued before) (invited : Invited w request cfg count before device) :
      InvitationCourse w request
        (before ++ [⟨.issueInvitation (issuance w request cfg count device), answer⟩])
        (answer >>= fun result => invitationReply cfg result count device.setCookie)

section Course

variable {r : Except String Response}

theorem InvitationCourse.of_pure {response : Response} (hstatus : response.status ≠ 200)
    (h : (pure response : Prog Response).Transcript es r) : InvitationCourse w request es r := by
  obtain ⟨rfl, rfl⟩ := transcript_pure.mp h
  exact .refused unissued_nil hstatus

/-- Behind the captcha, the device is found and the issuance asked for. -/
theorem issueTo_cases {count : ℕ}
    (h : (issueTo w request cfg (clientIp request) count).Transcript es r) :
    ∃ drawn x, (requestDevice w request cfg).Transcript drawn x ∧
      ((es = drawn ∧ ∃ e, r = .error e) ∨
        ∃ device, ∃ answer : Rpc InvitationIssueResult, x = .ok device ∧
          es = drawn ++ [⟨.issueInvitation (issuance w request cfg count device), answer⟩] ∧
          r = answer >>= fun result => invitationReply cfg result count device.setCookie) := by
  obtain ⟨drawn, x, hdevice, hrest⟩ := transcript_bind.mp h
  refine ⟨drawn, x, hdevice, ?_⟩
  cases x with
  | error e => exact .inl ⟨hrest.1, e, hrest.2⟩
  | ok device =>
    obtain ⟨es₂, rfl, hrest⟩ := hrest
    obtain ⟨es₃, r₃, hcall, hreply⟩ := transcript_bind.mp hrest
    -- the device is known; what comes is the call
    unfold invitationRpc at hcall
    split at hcall
    · obtain ⟨answer, rfl, hanswer⟩ := transcript_rpc.mp hcall
      have hanswer : answer = r₃ := hanswer.symm
      refine .inr ⟨device, r₃, rfl, ?_⟩
      rw [hanswer] at hreply
      cases r₃ with
      | error e =>
        obtain ⟨rfl, rfl⟩ := hreply
        exact ⟨rfl, rfl⟩
      | ok result =>
        obtain ⟨es₄, rfl, hreply⟩ := hreply
        obtain ⟨rfl, rfl⟩ := transcript_ofExcept.mp hreply
        exact ⟨by rw [List.append_nil]; rfl, rfl⟩
    · -- without the Treasury of the invitations
      obtain ⟨rfl, rfl⟩ := transcript_throw.mp hcall
      exact .inl ⟨by rw [hreply.1, List.append_nil], _, hreply.2⟩

/-- **A request for invitations is refused, or its issuance is backed** and the last thing it
asks. -/
theorem course_handleInvitation (h : (handleInvitation w request).Transcript es r) :
    InvitationCourse w request es r := by
  obtain ⟨es₁, r₁, hconfig, hrest⟩ := transcript_bind.mp h
  obtain ⟨rfl, rfl⟩ := transcript_ofExcept.mp hconfig
  cases hcfg : w.resolved with
  | error e =>
    rw [hcfg] at hrest
    obtain ⟨rfl, rfl⟩ := hrest
    exact .failed unissued_nil
  | ok cfg =>
  rw [hcfg] at hrest
  obtain ⟨es₂, rfl, hrest⟩ := hrest
  split at hrest
  · exact .of_pure (show 404 ≠ 200 by decide) hrest
  next henabled =>
  split at hrest
  · exact .of_pure (show 503 ≠ 200 by decide) hrest
  next hsecret =>
  split at hrest
  next refusal hrefusal =>
    exact .of_pure (ne_ok (readJsonObject_error hrefusal) (by decide)) hrest
  next fields hread =>
  dsimp only at hrest
  split at hrest
  · exact .of_pure (show 400 ≠ 200 by decide) hrest
  next count hcount =>
  obtain ⟨es₃, r₃, hedge, hlast⟩ := transcript_bind.mp hrest
  have hedged : Unissued es₃ := .of_idle quiet_edge hedge
  rcases edgeLimited_cases hedge with ⟨rfl, rfl⟩ | ⟨-, ⟨response, rfl, hstatus⟩ | ⟨e, rfl⟩⟩
  · obtain ⟨es₄, rfl, hlast⟩ := hlast
    split at hlast
    next limited hlimited => cases hlimited
    obtain ⟨es₅, r₅, hverify, hissue⟩ := transcript_bind.mp hlast
    have hverified : Unissued es₅ := .of_idle (quiet_verifyTurnstile fun _ => trivial) hverify
    obtain ⟨outcome, rfl, hjudged⟩ := verifyTurnstile_cases hverify
    obtain ⟨es₆, rfl, hissue⟩ := hissue
    split at hissue
    · obtain ⟨rfl, rfl⟩ := transcript_pure.mp hissue
      rw [List.append_nil]
      exact .refused (hedged.append hverified) (show 400 ≠ 200 by decide)
    next hgranted =>
    have hgranted : outcome.ok = true := by simpa using hgranted
    have hset : cfg.turnstileSecret ≠ "" := fun h => hsecret (.inl h)
    obtain ⟨text, form, reply, htoken, hne, hform, hresponse, rfl, hjudge⟩ := hjudged hgranted hset
    obtain ⟨drawn, x, hdevice, ⟨rfl, e, rfl⟩ | ⟨device, answer, rfl, rfl, rfl⟩⟩ :=
      issueTo_cases hissue
    · have hdrawn := Unissued.of_idle (quiet_requestDevice trivial) hdevice
      exact .failed (hedged.append (hverified.append hdrawn))
    split at htoken
    next token hgiven =>
      cases htoken
      have hdrawn := Unissued.of_idle (quiet_requestDevice trivial) hdevice
      -- the issuance comes after all that was heard
      rw [← List.append_assoc, ← List.append_assoc, List.append_assoc (edgeHeard _ _)]
      exact .asked answer hcfg (hedged.append (hverified.append hdrawn))
        (.mk (by simpa using henabled) hset hread hcount hgiven hne ⟨hform, hresponse⟩ hjudge
          hgranted hdevice)
    · cases htoken
  · obtain ⟨es₄, rfl, hlast⟩ := hlast
    obtain ⟨rfl, rfl⟩ := transcript_pure.mp hlast
    rw [List.append_nil]
    exact .refused hedged (ne_ok hstatus (by decide))
  · obtain ⟨rfl, rfl⟩ := hlast
    exact .failed hedged

end Course

/-- The reply to an issuance is a 200 just if it handed something out. -/
theorem invitationReply_status (cfg : Settings) (result : InvitationIssueResult) (count : ℕ)
    (setCookie : Option String) :
    (caught (invitationReply cfg result count setCookie)).status = 200 ↔
      ∃ first rest replay, result = .ok (first :: rest) replay := by
  cases result with
  | ok invitations replay =>
    cases invitations with
    | nil =>
      refine iff_of_false (show ¬500 = 200 by decide) ?_
      rintro ⟨first, rest, replay', heq⟩
      cases heq
    | cons first rest => exact iff_of_true rfl ⟨first, rest, replay, rfl⟩
  | rateLimited =>
    exact iff_of_false (show ¬429 = 200 by decide) fun ⟨_, _, _, h⟩ => by cases h
  | unavailable | platformUnavailable =>
    exact iff_of_false (show ¬503 = 200 by decide) fun ⟨_, _, _, h⟩ => by cases h
  | error => exact iff_of_false (show ¬500 = 200 by decide) fun ⟨_, _, _, h⟩ => by cases h

/-- The other requests have no invitations issued. -/
theorem fetch_unissued (hinvites : ¬InvitationRoute request) {r : Except String Response}
    (h : (fetch w request).Transcript es r) : Unissued es := by
  obtain ⟨x, hroute, -⟩ := transcript_fetch.mp h
  rcases route_cases w request with ⟨-, heq⟩ | ⟨-, hinvited, -⟩ | ⟨-, -, hquiet⟩
  · rw [heq] at hroute
    exact fun e he => quiet_handleFaucet.of_mem_transcript hroute e he
  · exact absurd hinvited hinvites
  · exact .of_idle hquiet hroute

/-- **The gate of the invitations.** Whatever is heard, a request asks for at most one issuance, as
the last thing it asks, once the edge let it through and Turnstile granted its token. It is answered
by a 200 just if vouchers were handed out. -/
theorem invitation_gates (w : Worker) (request : Request) {es : List Exchange}
    {r : Except String Response} (h : (fetch w request).Transcript es r) :
    ∃ response, r = .ok response ∧
      ((Unissued es ∧ (InvitationRoute request → response.status ≠ 200)) ∨
        ∃ cfg count before device, ∃ answer : Rpc InvitationIssueResult,
          InvitationRoute request ∧ w.resolved = .ok cfg ∧
          Invited w request cfg count before device ∧ Unissued before ∧
          es = before ++ [⟨.issueInvitation (issuance w request cfg count device), answer⟩] ∧
          response = caught
            (answer >>= fun result => invitationReply cfg result count device.setCookie) ∧
          (response.status = 200 ↔
            ∃ first rest replay, answer = .ok (.ok (first :: rest) replay))) := by
  by_cases hinvites : InvitationRoute request
  · obtain ⟨x, hroute, rfl⟩ := transcript_fetch.mp h
    refine ⟨caught x, rfl, ?_⟩
    rcases route_cases w request with ⟨hpays, -⟩ | ⟨-, -, heq⟩ | ⟨-, hnot, -⟩
    · -- one path is not the other
      have hpath := hinvites.2
      rw [hpays.2] at hpath
      exact absurd hpath (by decide)
    · rw [heq] at hroute
      cases course_handleInvitation hroute with
      | refused unissued status => exact .inl ⟨unissued, fun _ => status⟩
      | failed unissued => exact .inl ⟨unissued, fun _ => show 500 ≠ 200 by decide⟩
      | @asked cfg before count device answer config unissued invited =>
        refine .inr ⟨cfg, count, before, device, answer, hinvites, config, invited, unissued, rfl,
          rfl, ?_⟩
        cases answer with
        | error e =>
          refine iff_of_false (show ¬500 = 200 by decide) ?_
          rintro ⟨first, rest, replay, heq⟩
          cases heq
        | ok result =>
          refine (invitationReply_status cfg result count device.setCookie).trans ?_
          simp only [Except.ok.injEq]
    · exact absurd hinvites hnot
  · obtain ⟨x, -, rfl⟩ := transcript_fetch.mp h
    exact ⟨_, rfl, .inl ⟨fetch_unissued hinvites h, fun h => absurd h hinvites⟩⟩

/-- The sample's Worker, with invitations and their captcha. -/
def invitingWorker : Worker :=
  { sampleWorker with
    env :=
      { sampleEnv "testnet" with
        invitationsEnabled := some "1"
        invitationSecret := some "invitation secret"
        turnstileSecret := some "turnstile secret"
        turnstileSiteKey := some "site" }
    invitationTreasury := true }

/-- A request for an invitation. -/
def sampleInvitation : Request where
  method := "POST"
  path := "/api/invitation-faucet"
  host := "faucet.example"
  search := ""
  header name := if name = "CF-Connecting-IP" then some "192.0.2.1" else none
  body := .ok (.obj [("turnstileToken", .str "token")])

/-- Turnstile grants its token, and there is a voucher. -/
def invitedAnswer : (q : Query) → q.Answer
  | .siteverify _ =>
    (.ok (.obj [("success", .bool true), ("hostname", .str "faucet.example"),
      ("action", .str "invitation_faucet")]) : Rpc Json)
  | .issueInvitation _ => (.ok (.ok [⟨"dashpay://invite", "ab12", 1700000000000⟩] false) :
      Rpc InvitationIssueResult)
  | q => sampleAnswer q

/-- A voucher is handed out once Turnstile has granted the token. -/
theorem invitation_gates_sample : ∃ (es : List Exchange) (response : Response) (cfg : Settings)
    (count : ℕ) (before : List Exchange) (device : Devices.Device),
      (fetch invitingWorker sampleInvitation).Transcript es (.ok response) ∧
        response.status = 200 ∧
        Invited invitingWorker sampleInvitation cfg count before device := by
  have hstatus : (run (fun _ _ s => s) (fun _ => invitedAnswer)
      (fetch invitingWorker sampleInvitation) 0 ()).1.toOption.map Response.status = some 200 := by
    decide +kernel
  obtain ⟨es, hes⟩ := exists_transcript invitingWorker sampleInvitation invitedAnswer
  obtain ⟨response, hr, hgates⟩ := invitation_gates invitingWorker sampleInvitation hes
  rw [hr] at hes hstatus
  have hgiven : response.status = 200 := Option.some.inj hstatus
  rcases hgates with ⟨-, hnot⟩ | ⟨cfg, count, before, device, answer, -, -, hinvited, -⟩
  · exact absurd hgiven (hnot ⟨rfl, rfl⟩)
  · exact ⟨es, response, cfg, count, before, device, hes, hgiven, hinvited⟩

end DashFaucet.Worker

import DashFaucet.Async.Server
import DashFaucet.PortalGates
import DashFaucet.Worker

/-!
# The gates of the Worker

What a request has to bring, and what the Worker has to hear, before it asks for a payout.

* `Proven`: which answers prove which tier of the captcha. `verifyCaptcha_cases`: no others do.
* `Backed`: what stands behind a payout. `Course`: how a request for one goes.
* `course_handleFaucet`, `course_fetch`: whatever is answered, the request is refused, or its payout
  is backed and the last thing it asks, and its reply tells the outcome.
-/

namespace DashFaucet.Worker

open Async

/-- What was asked, and answered. -/
abbrev Exchange := (q : Query) × q.Answer

def IsPayout : Query → Prop
  | .payout _ => True
  | _ => False

/-- Nothing of it was a payout. -/
def Unpaid (es : List Exchange) : Prop := ∀ e ∈ es, ¬IsPayout e.1

theorem Unpaid.append {es es' : List Exchange} (h : Unpaid es) (h' : Unpaid es') :
    Unpaid (es ++ es') := fun e he => (List.mem_append.mp he).elim (h e) (h' e)

theorem unpaid_nil : Unpaid [] := fun _ he => absurd he List.not_mem_nil

theorem Unpaid.of_quiet {α : Type} {p : Prog α} (hp : p.Quiet fun q => ¬IsPayout q)
    {es : List Exchange} {r : Except String α} (h : p.Transcript es r) : Unpaid es :=
  hp.of_mem_transcript h

variable {w : Worker} {cfg : Settings} {request : Request} {es : List Exchange}

/-! ### Calls -/

theorem transcript_rpc {α : Type} {q : Query} {result : q.Answer → Rpc α} {r : Except String α} :
    (rpc q result).Transcript es r ↔ ∃ a, es = [⟨q, a⟩] ∧ r = result a := by
  constructor
  · intro h
    obtain ⟨es₁, r₁, hask, hrest⟩ := transcript_bind.mp h
    obtain ⟨a, rfl, rfl⟩ := transcript_ask.mp hask
    obtain ⟨es₂, rfl, hrest⟩ := hrest
    obtain ⟨rfl, rfl⟩ := transcript_ofExcept.mp hrest
    exact ⟨a, rfl, rfl⟩
  · rintro ⟨a, rfl, rfl⟩
    exact transcript_bind.mpr ⟨[⟨q, a⟩], .ok a, transcript_ask.mpr ⟨a, rfl, rfl⟩, [], rfl,
      transcript_ofExcept.mpr ⟨rfl, rfl⟩⟩

theorem quiet_rpc {α : Type} {q : Query} {result : q.Answer → Rpc α} {ok : Query → Prop}
    (h : ok q) : (rpc q result).Quiet ok :=
  Quiet.bind ((quiet_ask _).mpr h) fun _ => quiet_ofExcept _

theorem asks_rpc {α : Type} {q q' : Query} {result : q.Answer → Rpc α} :
    (rpc q result).Asks es q' ↔ es = [] ∧ q' = q := by
  refine asks_bind.trans ⟨?_, fun h => .inl (asks_ask.mpr h)⟩
  rintro (h | ⟨_, _, _, -, -, h⟩)
  · exact asks_ask.mp h
  · exact (asks_ofExcept h).elim

/-! ### The edge -/

/-- What a request hears that the edge lets through. -/
def edgeHeard (w : Worker) (key : String) : List Exchange :=
  if w.edgeLimit then [⟨.edgeLimit key, (.ok true : Rpc Bool)⟩] else []

theorem unpaid_edgeHeard (key : String) : Unpaid (edgeHeard w key) := by
  unfold edgeHeard
  split
  · intro e he
    rw [List.mem_singleton.mp he]
    exact id
  · exact unpaid_nil

theorem quiet_edgeLimited (key : String) :
    (edgeLimited w key).Quiet fun q => q = .edgeLimit key := by
  unfold edgeLimited
  split
  · refine Quiet.bind (quiet_rpc rfl) fun success => ?_
    split <;> trivial
  · trivial

/-- **The edge** lets through, refuses or fails. -/
theorem edgeLimited_cases {key : String} {r : Except String (Option Response)}
    (h : (edgeLimited w key).Transcript es r) :
    (es = edgeHeard w key ∧ r = .ok none) ∨
      (Unpaid es ∧ ((∃ response, r = .ok (some response) ∧ response.status = 429) ∨
        ∃ e, r = .error e)) := by
  have hunpaid : Unpaid es := by
    refine Unpaid.of_quiet (Quiet.mono (fun q hq => ?_) (quiet_edgeLimited key)) h
    rw [hq]
    exact id
  unfold edgeLimited at h
  split at h
  -- with a limiter the request waits for its verdict
  next hedge =>
    obtain ⟨es₁, r₁, hcall, hrest⟩ := transcript_bind.mp h
    obtain ⟨answer, rfl, hanswer⟩ := transcript_rpc.mp hcall
    have hanswer : answer = r₁ := hanswer.symm
    cases r₁ with
    | error e => exact .inr ⟨hunpaid, .inr ⟨e, hrest.2⟩⟩
    | ok success =>
      obtain ⟨es₂, rfl, hrest⟩ := hrest
      cases success with
      | true =>
        obtain ⟨rfl, rfl⟩ := transcript_pure.mp hrest
        exact .inl ⟨by rw [edgeHeard, if_pos hedge, List.append_nil, hanswer], rfl⟩
      | false =>
        obtain ⟨rfl, rfl⟩ := transcript_pure.mp hrest
        exact .inr ⟨hunpaid, .inl ⟨_, rfl, rfl⟩⟩
  next hedge =>
    obtain ⟨rfl, rfl⟩ := transcript_pure.mp h
    exact .inl ⟨by rw [edgeHeard, if_neg hedge], rfl⟩

/-! ### The captcha -/

/-- **What proves a tier**: a capToken that verified and then was new, a reply of Turnstile that
grants it, or no captcha being configured. -/
inductive Proven (w : Worker) (cfg : Settings) (body : FaucetBody) :
    List Exchange → ProofTier → Prop where
  | capToken {token : String} {time : ℤ} {check : CapTokenCheck}
      (presented : body.presented = some token) (secret : cfg.capSecret ≠ "")
      (verified : verifyCapToken w.runtime.hmac cfg.capSecret token time = .ok check) :
      Proven w cfg body
        [⟨.now, time⟩, ⟨.consumeCapToken token check.expiresAt, (.ok true : Rpc Bool)⟩]
        (capTier cfg.cap check.params)
  | turnstile {token : String} {form : List (String × String)} {reply : Json}
      {outcome : TurnstileOutcome} (presented : body.presented = none)
      (given : body.turnstileToken = some token) (secret : cfg.turnstileSecret ≠ "")
      (signed : ("secret", cfg.turnstileSecret) ∈ form ∧ ("response", token) ∈ form)
      (judged : judge w none reply = .ok outcome) (granted : outcome.ok = true) :
      Proven w cfg body [⟨.siteverify form, (.ok reply : Rpc Json)⟩] .turnstile
  | off (presented : body.presented = none)
      (off : cfg.turnstileSecret = "" ∧ cfg.capSecret = "") : Proven w cfg body [] .soft

theorem Proven.unpaid {body : FaucetBody} {tier : ProofTier} (h : Proven w cfg body es tier) :
    Unpaid es := by
  cases h with
  | capToken =>
    intro e he
    rcases List.mem_cons.mp he with rfl | he
    · exact id
    · rw [List.mem_singleton.mp he]
      exact id
  | turnstile =>
    intro e he
    rw [List.mem_singleton.mp he]
    exact id
  | off => exact unpaid_nil

/-- Turnstile is asked once, or not at all. -/
theorem verifyTurnstile_cases {secret ip : String} {token : Option String}
    {expected : Option Expected} {r : Except String TurnstileOutcome}
    (h : (verifyTurnstile w secret token ip expected).Transcript es r) :
    ∃ outcome, r = .ok outcome ∧ (outcome.ok = true → secret ≠ "" →
      ∃ text form reply, token = some text ∧ text ≠ "" ∧ ("secret", secret) ∈ form ∧
        ("response", text) ∈ form ∧ es = [⟨.siteverify form, (.ok reply : Rpc Json)⟩] ∧
        judge w expected reply = .ok outcome) := by
  unfold verifyTurnstile at h
  split at h
  -- without a secret the check is off
  next hsecret =>
    obtain ⟨rfl, rfl⟩ := transcript_pure.mp h
    exact ⟨_, rfl, fun _ hne => absurd hsecret hne⟩
  split at h
  · obtain ⟨rfl, rfl⟩ := transcript_pure.mp h
    exact ⟨_, rfl, fun hok => by cases hok⟩
  next text htoken =>
    obtain ⟨htoken, hne⟩ := Option.filter_eq_some_iff.mp htoken
    -- Cloudflare is asked once, and its reply judged
    dsimp only at h
    obtain ⟨es₁, r₁, hask, hrest⟩ := transcript_bind.mp h
    obtain ⟨answer, rfl, rfl⟩ := transcript_ask.mp hask
    obtain ⟨es₂, rfl, hrest⟩ := hrest
    split at hrest
    next outcome houtcome =>
      obtain ⟨rfl, rfl⟩ := transcript_pure.mp hrest
      obtain ⟨reply, hreply, hjudge⟩ := Except.of_bind_ok houtcome
      refine ⟨outcome, rfl, fun _ _ => ⟨text, _, reply, htoken, of_decide_eq_true hne, ?_, ?_,
        by rw [List.append_nil, hreply], hjudge⟩⟩
      · exact List.mem_append_left _ List.mem_cons_self
      · exact List.mem_append_left _ (List.mem_cons_of_mem _ List.mem_cons_self)
    · obtain ⟨rfl, rfl⟩ := transcript_pure.mp hrest
      exact ⟨_, rfl, fun hok => by cases hok⟩

theorem quiet_verifyTurnstile {secret ip : String} {token : Option String}
    {expected : Option Expected} {ok : Query → Prop} (hok : ∀ form, ok (.siteverify form)) :
    (verifyTurnstile w secret token ip expected).Quiet ok := by
  unfold verifyTurnstile
  split
  · trivial
  split
  · trivial
  · refine Quiet.bind ((quiet_ask _).mpr (hok _)) fun answer => ?_
    split <;> trivial

theorem quiet_verifyCaptcha {ip : String} {body : FaucetBody} {ok : Query → Prop} (hnow : ok .now)
    (hconsume : ∀ token expiresAt, ok (.consumeCapToken token expiresAt))
    (hverify : ∀ form, ok (.siteverify form)) : (verifyCaptcha w cfg ip body).Quiet ok := by
  unfold verifyCaptcha
  split
  · split
    · trivial
    refine Quiet.bind ((quiet_ask _).mpr hnow) fun time => ?_
    split
    · trivial
    · refine Quiet.bind (quiet_rpc (hconsume _ _)) fun fresh => ?_
      split <;> trivial
  split
  · refine Quiet.bind (quiet_verifyTurnstile hverify) fun outcome => ?_
    split <;> trivial
  · split <;> trivial

/-- **The captcha** is proven, refused or fails. -/
theorem verifyCaptcha_cases {ip : String} {body : FaucetBody}
    {r : Except String (Except Refusal ProofTier)}
    (h : (verifyCaptcha w cfg ip body).Transcript es r) :
    (∃ tier, r = .ok (.ok tier) ∧ Proven w cfg body es tier) ∨
      (Unpaid es ∧ ((∃ refusal, r = .ok (.error refusal) ∧ refusal.status = 400) ∨
        ∃ e, r = .error e)) := by
  have hunpaid : Unpaid es :=
    .of_quiet (quiet_verifyCaptcha id (fun _ _ => id) fun _ => id) h
  have hrefused : ∀ reason : String, r = .ok (.error ⟨400, reason⟩) →
      (∃ refusal : Refusal, r = .ok (.error refusal) ∧ refusal.status = 400) ∨
        ∃ e, r = .error e := fun reason hr => .inl ⟨_, hr, rfl⟩
  unfold verifyCaptcha at h
  split at h
  -- a token of ours: checked without asking, then spent
  next token hpresented =>
    split at h
    · exact .inr ⟨hunpaid, hrefused _ (transcript_pure.mp h).2⟩
    next hsecret =>
    obtain ⟨es₁, r₁, hnow, hrest⟩ := transcript_bind.mp h
    obtain ⟨time, rfl, rfl⟩ := transcript_ask.mp hnow
    obtain ⟨es₂, rfl, hrest⟩ := hrest
    split at hrest
    · exact .inr ⟨hunpaid, hrefused _ (transcript_pure.mp hrest).2⟩
    next check hverified =>
    obtain ⟨es₃, r₃, hcall, hlast⟩ := transcript_bind.mp hrest
    obtain ⟨answer, rfl, hanswer⟩ := transcript_rpc.mp hcall
    have hanswer : answer = r₃ := hanswer.symm
    cases r₃ with
    -- the treasury says whether it was fresh
    | error e => exact .inr ⟨hunpaid, .inr ⟨e, hlast.2⟩⟩
    | ok fresh =>
      obtain ⟨es₄, rfl, hlast⟩ := hlast
      cases fresh with
      | false => exact .inr ⟨hunpaid, hrefused _ (transcript_pure.mp hlast).2⟩
      | true =>
        obtain ⟨rfl, rfl⟩ := transcript_pure.mp hlast
        refine .inl ⟨_, rfl, ?_⟩
        rw [hanswer, List.append_nil]
        exact .capToken hpresented hsecret hverified
  next hpresented =>
    split at h
    -- none of ours, but one of Turnstile
    next token htoken =>
      obtain ⟨htoken, hgiven⟩ := Option.filter_eq_some_iff.mp htoken
      obtain ⟨-, hsecret⟩ := of_decide_eq_true hgiven
      obtain ⟨es₁, r₁, hverify, hrest⟩ := transcript_bind.mp h
      obtain ⟨outcome, rfl, hjudged⟩ := verifyTurnstile_cases hverify
      obtain ⟨es₂, rfl, hrest⟩ := hrest
      split at hrest
      next hok =>
        obtain ⟨rfl, rfl⟩ := transcript_pure.mp hrest
        obtain ⟨text, form, reply, htext, -, hform, hresponse, rfl, hjudge⟩ := hjudged hok hsecret
        cases htext
        refine .inl ⟨_, rfl, ?_⟩
        rw [List.append_nil]
        exact .turnstile hpresented htoken hsecret ⟨hform, hresponse⟩ hjudge hok
      · exact .inr ⟨hunpaid, hrefused _ (transcript_pure.mp hrest).2⟩
    · -- neither: only with both checks off
      split at h
      · exact .inr ⟨hunpaid, hrefused _ (transcript_pure.mp h).2⟩
      next hoff =>
        obtain ⟨rfl, rfl⟩ := transcript_pure.mp h
        rw [not_or, not_not, not_not] at hoff
        exact .inl ⟨_, rfl, .off hpresented hoff⟩

/-! ### Payouts -/

/-- **What stands behind a payout** of the amount it asks for, to the address it asks for. -/
inductive Backed (w : Worker) (request : Request) : List Exchange → PayoutRequest → Prop where
  /-- Without a key: the edge let the request through, and then the captcha was proven. -/
  | proof {cfg : Settings} {body : FaucetBody} {code : Option String} {recipient : Recipient}
      {heard : List Exchange} {tier : ProofTier}
      (config : w.resolved = .ok cfg) (read : readJsonObject request >>= faucetBody = .ok body)
      (coded : parseCodeField body.code = .ok code) (noKey : bearerToken request = none)
      (amount : checkAmount w cfg body.amount = none)
      (address : parseRecipient w body.address cfg = .ok recipient)
      (proven : Proven w cfg body heard tier) :
      Backed w request (edgeHeard w (clientIp request) ++ heard)
        { address := recipient.address, pubKeyHash := recipient.pubKeyHash,
          ip := clientIp request, tier := some tier, codeKey := code }
  /-- With a key: one that the Treasury says is active. -/
  | key {cfg : Settings} {body : FaucetBody} {token : String} {recipient : Recipient}
      {requested : Option ℕ}
      (config : w.resolved = .ok cfg) (read : readJsonObject request >>= faucetBody = .ok body)
      (noCode : parseCodeField body.code = .ok none) (bearer : bearerToken request = some token)
      (looks : looksLikeApiKey token = true)
      (amount : body.amount.map parseAmountSats = requested.map some)
      (address : parseRecipient w body.address cfg = .ok recipient) :
      Backed w request
        [⟨.isActiveApiKey (Portal.hashApiKey w.runtime token), (.ok true : Rpc Bool)⟩]
        { address := recipient.address, pubKeyHash := recipient.pubKeyHash,
          ip := clientIp request, apiKeyHash := some (Portal.hashApiKey w.runtime token),
          requestedSats := requested }

theorem Backed.unpaid {input : PayoutRequest} (h : Backed w request es input) : Unpaid es := by
  cases h with
  | proof _ _ _ _ _ _ proven => exact (unpaid_edgeHeard _).append proven.unpaid
  | key =>
    intro e he
    rw [List.mem_singleton.mp he]
    exact id

/-- **How a request goes that may end in a payout**: it is refused, it fails, or the payout is the
last thing it asks, and its reply tells the outcome. -/
inductive Course (paying : List Exchange → PayoutRequest → Prop) (cfg : Settings) :
    List Exchange → Except String Response → Prop where
  | refused {es : List Exchange} {response : Response} (unpaid : Unpaid es)
      (status : response.status ≠ 200) : Course paying cfg es (.ok response)
  | failed {es : List Exchange} {e : String} (unpaid : Unpaid es) :
      Course paying cfg es (.error e)
  | asked {es : List Exchange} {input : PayoutRequest} (answer : Rpc PayoutResult)
      (escalatable : Bool) (paid : paying es input) :
      Course paying cfg (es ++ [⟨.payout input, answer⟩])
        (answer.map fun result => payoutReply cfg result input.address escalatable)

section Course

variable {paying paying' : List Exchange → PayoutRequest → Prop} {r : Except String Response}

theorem Course.prepend {es₀ : List Exchange} (h : Course paying' cfg es r) (h₀ : Unpaid es₀)
    (hpaying : ∀ es input, paying' es input → paying (es₀ ++ es) input) :
    Course paying cfg (es₀ ++ es) r := by
  cases h with
  | refused unpaid status => exact .refused (h₀.append unpaid) status
  | failed unpaid => exact .failed (h₀.append unpaid)
  | asked answer escalatable paid =>
    rw [← List.append_assoc]
    exact .asked answer escalatable (hpaying _ _ paid)

theorem Course.mono (h : Course paying' cfg es r)
    (hpaying : ∀ es input, paying' es input → paying es input) : Course paying cfg es r :=
  @Course.prepend _ _ _ _ _ [] h unpaid_nil hpaying

theorem course_pure {response : Response} (hstatus : response.status ≠ 200)
    (h : (pure response : Prog Response).Transcript es r) : Course paying cfg es r := by
  obtain ⟨rfl, rfl⟩ := transcript_pure.mp h
  exact .refused unpaid_nil hstatus

/-- The payout itself. -/
theorem course_payout {input : PayoutRequest} {escalatable : Bool}
    (h : (payout input >>= fun result =>
      pure (payoutReply cfg result input.address escalatable)).Transcript es r) :
    Course (fun es input' => es = [] ∧ input' = input) cfg es r := by
  obtain ⟨es₁, r₁, hcall, hrest⟩ := transcript_bind.mp h
  obtain ⟨answer, rfl, hanswer⟩ := transcript_rpc.mp hcall
  have hanswer : answer = r₁ := hanswer.symm
  have hcourse : Course (fun es input' => es = [] ∧ input' = input) cfg
      ([] ++ [⟨.payout input, answer⟩]) _ := .asked answer escalatable ⟨rfl, rfl⟩
  cases r₁ with
  | error e =>
    obtain ⟨rfl, rfl⟩ := hrest
    rw [hanswer] at hcourse ⊢
    exact hcourse
  | ok result =>
    obtain ⟨es₂, rfl, hrest⟩ := hrest
    obtain ⟨rfl, rfl⟩ := transcript_pure.mp hrest
    rw [hanswer] at hcourse ⊢
    exact hcourse

/-- After the address: the captcha, then the payout. -/
theorem course_payPublic {ip : String} {body : FaucetBody} {code : Option String}
    {recipient : Recipient} (h : (payPublic w cfg ip body code recipient).Transcript es r) :
    Course (fun es input => ∃ tier, Proven w cfg body es tier ∧ input =
      { address := recipient.address, pubKeyHash := recipient.pubKeyHash, ip := ip,
        tier := some tier, codeKey := code }) cfg es r := by
  obtain ⟨es₁, r₁, hcaptcha, hrest⟩ := transcript_bind.mp h
  -- proven, refused or failed
  rcases verifyCaptcha_cases hcaptcha with ⟨tier, rfl, hproven⟩ | ⟨hunpaid, hrefused⟩
  · obtain ⟨es₂, rfl, hrest⟩ := hrest
    refine (course_payout hrest).prepend hproven.unpaid ?_
    rintro _ _ ⟨rfl, rfl⟩
    rw [List.append_nil]
    exact ⟨tier, hproven, rfl⟩
  · obtain ⟨refusal, rfl, hstatus⟩ | ⟨e, rfl⟩ := hrefused
    · obtain ⟨es₂, rfl, hrest⟩ := hrest
      obtain ⟨rfl, rfl⟩ := transcript_pure.mp hrest
      rw [List.append_nil]
      refine .refused hunpaid ?_
      show refusal.status ≠ 200
      rw [hstatus]
      decide
    · obtain ⟨rfl, rfl⟩ := hrest
      exact .failed hunpaid

/-- What is refused before anything is paid is refused by an error. -/
theorem parseRecipient_error {address : Option String} {refusal : Response}
    (h : parseRecipient w address cfg = .error refusal) : refusal.status = 400 := by
  unfold parseRecipient at h
  dsimp only at h
  split at h
  · cases h
  · cases h
    rfl

theorem textField_error {body : List (String × Json)} {name : String} {refusal : Response}
    (h : textField body name = .error refusal) : refusal.status = 400 := by
  unfold textField at h
  split at h
  · cases h
  · cases h
  · cases h
    rfl

theorem faucetBody_error {fields : List (String × Json)} {refusal : Response}
    (h : faucetBody fields = .error refusal) : refusal.status = 400 := by
  -- every field is refused alike
  rcases Except.of_bind_error h with h | ⟨_, -, h⟩
  · exact textField_error h
  rcases Except.of_bind_error h with h | ⟨_, -, h⟩
  · exact textField_error h
  rcases Except.of_bind_error h with h | ⟨_, -, h⟩
  · exact textField_error h
  rcases Except.of_bind_error h with h | ⟨_, -, h⟩
  · exact textField_error h
  · cases h

theorem readJsonObject_error {refusal : Response} (h : readJsonObject request = .error refusal) :
    refusal.status = 400 := by
  unfold readJsonObject at h
  split at h
  · cases h
    rfl
  · cases h
  · cases h
    rfl

theorem readBody_error {refusal : Response}
    (h : readJsonObject request >>= faucetBody = .error refusal) : refusal.status = 400 := by
  rcases Except.of_bind_error h with h | ⟨fields, -, h⟩
  · exact readJsonObject_error h
  · exact faucetBody_error h

theorem checkAmount_some {amount : Option Json} {refusal : Response}
    (h : checkAmount w cfg amount = some refusal) : refusal.status = 400 := by
  unfold checkAmount at h
  split at h
  · cases h
  split at h
  · cases h
    rfl
  split at h
  · cases h
    rfl
  · cases h

theorem ne_ok {response : Response} {status : ℕ} (h : response.status = status)
    (hne : status ≠ 200) : response.status ≠ 200 := by
  rwa [h]

/-- A request with a key: the Treasury knows the key, or the edge is charged. -/
theorem course_handleKeyFaucet {ip token : String} {body : FaucetBody}
    (h : (handleKeyFaucet w cfg ip token body).Transcript es r) :
    Course (fun es input => ∃ recipient requested, looksLikeApiKey token = true ∧
      body.amount.map parseAmountSats = requested.map some ∧
      parseRecipient w body.address cfg = .ok recipient ∧
      es = [⟨.isActiveApiKey (Portal.hashApiKey w.runtime token), (.ok true : Rpc Bool)⟩] ∧
      input =
        { address := recipient.address, pubKeyHash := recipient.pubKeyHash, ip := ip,
          apiKeyHash := some (Portal.hashApiKey w.runtime token), requestedSats := requested })
      cfg es r := by
  obtain ⟨es₁, r₁, hactive, hrest⟩ := transcript_bind.mp h
  -- what the first look at the key says
  have hlook : (∃ active, r₁ = .ok active ∧ (active = true → looksLikeApiKey token = true ∧
      es₁ = [⟨.isActiveApiKey (Portal.hashApiKey w.runtime token), (.ok true : Rpc Bool)⟩]) ∧
        Unpaid es₁) ∨ (∃ e, r₁ = .error e) ∧ Unpaid es₁ := by
    unfold isKnownKey at hactive
    split at hactive
    next hlooks =>
      obtain ⟨answer, rfl, hanswer⟩ := transcript_rpc.mp hactive
      have hanswer : answer = r₁ := hanswer.symm
      have hunpaid : Unpaid [⟨.isActiveApiKey (Portal.hashApiKey w.runtime token), answer⟩] :=
        fun e he => by rw [List.mem_singleton.mp he]; exact id
      cases r₁ with
      | error e => exact .inr ⟨⟨e, rfl⟩, hunpaid⟩
      | ok active =>
        refine .inl ⟨active, rfl, fun htrue => ⟨hlooks, ?_⟩, hunpaid⟩
        rw [hanswer, htrue]
    · obtain ⟨rfl, rfl⟩ := transcript_pure.mp hactive
      exact .inl ⟨false, rfl, fun hfalse => absurd hfalse Bool.false_ne_true, unpaid_nil⟩
  rcases hlook with ⟨active, rfl, htrue, hunpaid⟩ | ⟨⟨e, rfl⟩, hunpaid⟩
  · obtain ⟨es₂, rfl, hrest⟩ := hrest
    split at hrest
    · -- an unknown key is charged the edge limit
      obtain ⟨es₃, r₃, hedge, hlast⟩ := transcript_bind.mp hrest
      rcases edgeLimited_cases hedge with ⟨rfl, rfl⟩ | ⟨hedged, ⟨response, rfl, hstatus⟩ | ⟨e, rfl⟩⟩
      · obtain ⟨es₄, rfl, hlast⟩ := hlast
        obtain ⟨rfl, rfl⟩ := transcript_pure.mp hlast
        rw [List.append_nil]
        exact .refused (hunpaid.append (unpaid_edgeHeard ip)) (by decide)
      · obtain ⟨es₄, rfl, hlast⟩ := hlast
        obtain ⟨rfl, rfl⟩ := transcript_pure.mp hlast
        rw [List.append_nil]
        exact .refused (hunpaid.append hedged) (ne_ok hstatus (by decide))
      · obtain ⟨rfl, rfl⟩ := hlast
        exact .failed (hunpaid.append hedged)
    next hknown =>
      obtain ⟨hlooks, rfl⟩ := htrue (by simpa using hknown)
      split at hrest
      · exact (course_pure (by decide) hrest).prepend hunpaid fun _ _ h => h
      next hamount =>
        split at hrest
        next refusal hrefusal =>
          exact (course_pure (ne_ok (parseRecipient_error hrefusal) (by decide)) hrest).prepend
            hunpaid fun _ _ h => h
        next recipient hrecipient =>
          refine (course_payout hrest).prepend hunpaid ?_
          rintro _ _ ⟨rfl, rfl⟩
          refine ⟨recipient, _, hlooks, ?_, hrecipient, List.append_nil _, rfl⟩
          cases hparsed : body.amount.map parseAmountSats with
          | none => rfl
          | some parsed =>
            cases parsed with
            | none => exact absurd hparsed hamount
            | some sats => rfl
  · obtain ⟨rfl, rfl⟩ := hrest
    exact .failed hunpaid

set_option linter.constructorNameAsVariable false in
/-- **A request for a payout is refused, or its payout is backed** and the last thing it asks. -/
theorem course_handleFaucet (hcfg : w.resolved = .ok cfg)
    (h : (handleFaucet w request).Transcript es r) : Course (Backed w request) cfg es r := by
  obtain ⟨es₁, r₁, hconfig, hrest⟩ := transcript_bind.mp h
  obtain ⟨rfl, rfl⟩ := transcript_ofExcept.mp hconfig
  rw [hcfg] at hrest
  obtain ⟨es₂, rfl, hrest⟩ := hrest
  dsimp only at hrest
  split at hrest
  next refusal hrefusal => exact course_pure (ne_ok (readBody_error hrefusal) (by decide)) hrest
  next body hbody =>
  split at hrest
  · exact course_pure (show 400 ≠ 200 by decide) hrest
  next code hcode =>
  split at hrest
  -- a key decides at once which handler answers
  next token hbearer =>
    split at hrest
    · exact course_pure (by decide) hrest
    next hnone =>
      have hnone : code = none := by simpa using hnone
      refine (course_handleKeyFaucet hrest).mono ?_
      rintro _ _ ⟨recipient, requested, hlooks, hamount, hrecipient, rfl, rfl⟩
      exact .key hcfg hbody (hnone ▸ hcode) hbearer hlooks hamount hrecipient
  next hbearer =>
  split at hrest
  next refusal hrefusal => exact course_pure (ne_ok (checkAmount_some hrefusal) (by decide)) hrest
  next hamount =>
  obtain ⟨es₃, r₃, hedge, hlast⟩ := transcript_bind.mp hrest
  -- the edge lets it through, refuses it or fails
  rcases edgeLimited_cases hedge with ⟨rfl, rfl⟩ | ⟨hedged, ⟨response, rfl, hstatus⟩ | ⟨e, rfl⟩⟩
  · obtain ⟨es₄, rfl, hlast⟩ := hlast
    split at hlast
    next limited hlimited => cases hlimited
    split at hlast
    next refusal hrefusal =>
      exact (course_pure (ne_ok (parseRecipient_error hrefusal) (by decide)) hlast).prepend
        (unpaid_edgeHeard _) fun _ _ h => h
    next recipient hrecipient =>
      refine (course_payPublic hlast).prepend (unpaid_edgeHeard _) ?_
      rintro es _ ⟨tier, hproven, rfl⟩
      exact .proof hcfg hbody hcode hbearer hamount hrecipient hproven
  · obtain ⟨es₄, rfl, hlast⟩ := hlast
    split at hlast
    next limited hlimited =>
      cases hlimited
      obtain ⟨rfl, rfl⟩ := transcript_pure.mp hlast
      rw [List.append_nil]
      exact .refused hedged (ne_ok hstatus (by decide))
    next hlimited => cases hlimited
  · obtain ⟨rfl, rfl⟩ := hlast
    exact .failed hedged

/-- Behind every payout in the course of a request stands what was heard before it. -/
theorem Course.paid {es' : List Exchange} {input : PayoutRequest} {answer : Rpc PayoutResult}
    (hpaying : ∀ es input, paying es input → Unpaid es)
    (h : Course paying cfg (es ++ ⟨.payout input, answer⟩ :: es') r) : paying es input := by
  generalize hall : es ++ ⟨.payout input, answer⟩ :: es' = all at h
  have hmem : (⟨.payout input, answer⟩ : Exchange) ∈ all :=
    hall ▸ List.mem_append_right _ List.mem_cons_self
  cases h with
  | refused unpaid => exact absurd trivial (unpaid _ hmem)
  | failed unpaid => exact absurd trivial (unpaid _ hmem)
  | asked answer' escalatable paid =>
    -- the payout is the last thing asked
    rcases es'.eq_nil_or_concat with rfl | ⟨between, last, rfl⟩
    · obtain ⟨rfl, heq⟩ := List.append_inj' hall rfl
      cases heq
      exact paid
    · rw [List.concat_eq_append, ← List.cons_append, ← List.append_assoc] at hall
      obtain ⟨rfl, -⟩ := List.append_inj' hall rfl
      exact absurd trivial (hpaying _ _ paid _ (List.mem_append_right _ List.mem_cons_self))

/-- Without a configuration nothing is asked. -/
theorem handleFaucet_unresolved {e : String} (hcfg : w.resolved = .error e)
    (h : (handleFaucet w request).Transcript es r) : es = [] ∧ r = .error e := by
  obtain ⟨es₁, r₁, hconfig, hrest⟩ := transcript_bind.mp h
  obtain ⟨rfl, rfl⟩ := transcript_ofExcept.mp hconfig
  rw [hcfg] at hrest
  exact hrest

end Course

/-! ### The other requests -/

/-- It neither pays, nor gives invitations out, nor spends a capToken. -/
def Idle : Query → Prop
  | .payout _ | .issueInvitation _ | .consumeCapToken .. => False
  | _ => True

theorem Idle.not_payout : ∀ q, Idle q → ¬IsPayout q
  | .payout _, h => h.elim
  | .edgeLimit _, _ | .siteverify _, _ | .now, _ | .random _, _ | .randomUUID, _
  | .consumeCapToken .., _ | .isActiveApiKey _, _ | .snapshot, _ | .maintain, _
  | .invitationSnapshot, _ | .issueInvitation _, _ | .maintainInvitations, _ | .portal _, _
  | .assets, _ => id

theorem quiet_invitationRpc {α : Type} {q : Query} {result : q.Answer → Rpc α} {ok : Query → Prop}
    (h : ok q) : (invitationRpc w q result).Quiet ok := by
  unfold invitationRpc
  split
  · exact quiet_rpc h
  · trivial

theorem quiet_requestDevice {ok : Query → Prop} (h : ok .randomUUID) :
    (requestDevice w request cfg).Quiet ok := by
  unfold requestDevice
  split
  · trivial
  · exact Quiet.bind ((quiet_ask _).mpr h) fun _ => trivial

theorem quiet_handleStatus : (handleStatus w request).Quiet Idle := by
  refine Quiet.bind (quiet_ofExcept _) fun cfg => Quiet.bind ?_ fun device => ?_
  · unfold statusDevice
    split
    · exact Quiet.bind (quiet_requestDevice trivial) fun _ => trivial
    · trivial
  refine Quiet.bind (Quiet.attempt (quiet_rpc trivial)) fun snap => ?_
  split
  · trivial
  refine Quiet.bind (Quiet.attempt ?_) fun _ => trivial
  unfold inventory
  split
  · exact Quiet.bind (quiet_invitationRpc trivial) fun _ => trivial
  · trivial

theorem quiet_handleCapChallenge (hard : Bool) : (handleCapChallenge w hard).Quiet Idle := by
  refine Quiet.bind (quiet_ofExcept _) fun cfg => ?_
  split
  · trivial
  refine Quiet.bind ((quiet_ask _).mpr trivial) fun time => ?_
  exact Quiet.bind ((quiet_ask _).mpr trivial) fun bytes => trivial

theorem quiet_handleCapRedeem : (handleCapRedeem w request).Quiet Idle := by
  refine Quiet.bind (quiet_ofExcept _) fun cfg => ?_
  split
  · trivial
  split
  · trivial
  refine Quiet.bind ((quiet_ask _).mpr trivial) fun time => ?_
  dsimp only
  split <;> trivial

theorem quiet_portal : (portal w request).Quiet Idle :=
  Quiet.bind ((quiet_ask _).mpr trivial) fun _ =>
    quiet_handle (fun _ => (quiet_ask _).mpr trivial) _

theorem quiet_edge {key : String} : (edgeLimited w key).Quiet Idle :=
  Quiet.mono (fun q hq => by rw [hq]; trivial) (quiet_edgeLimited key)

/-- An invitation is asked for by an issuance only, and nothing else there is. -/
theorem quiet_handleInvitation :
    (handleInvitation w request).Quiet fun q => Idle q ∨ ∃ input, q = .issueInvitation input := by
  refine Quiet.bind (quiet_ofExcept _) fun cfg => ?_
  split
  · trivial
  split
  · trivial
  split
  · trivial
  dsimp only
  split
  · trivial
  -- past the checks of the body: the limiter, Turnstile, the device, the call
  refine Quiet.bind (quiet_edge.mono fun _ => .inl) fun limited => ?_
  split
  · trivial
  refine Quiet.bind (quiet_verifyTurnstile fun _ => .inl trivial) fun captcha => ?_
  split
  · trivial
  refine Quiet.bind (quiet_requestDevice (.inl trivial)) fun device => ?_
  exact Quiet.bind (quiet_invitationRpc (.inr ⟨_, rfl⟩)) fun result => quiet_ofExcept _

theorem quiet_handleKeyFaucet {ip token : String} {body : FaucetBody} {ok : Query → Prop}
    (hidle : ∀ q, Idle q → ok q) (hpayout : ∀ input, ok (.payout input)) :
    (handleKeyFaucet w cfg ip token body).Quiet ok := by
  refine Quiet.bind ?_ fun known => ?_
  · unfold isKnownKey
    split
    · exact quiet_rpc (hidle _ trivial)
    · trivial
  split
  · exact Quiet.bind (quiet_edge.mono hidle) fun limited => trivial
  split
  · trivial
  split
  · trivial
  · exact Quiet.bind (quiet_rpc (hpayout _)) fun result => trivial

theorem quiet_handleFaucet :
    (handleFaucet w request).Quiet fun q => ∀ input, q ≠ .issueInvitation input := by
  -- what it asks besides the payout is idle
  have hidle : ∀ q, Idle q → ∀ input, q ≠ .issueInvitation input := by
    rintro q hq input rfl
    exact hq
  refine Quiet.bind (quiet_ofExcept _) fun cfg => ?_
  dsimp only
  split
  · trivial
  split
  · trivial
  split
  · split
    · trivial
    · exact quiet_handleKeyFaucet hidle fun _ _ => Query.noConfusion
  split
  · trivial
  refine Quiet.bind (quiet_edge.mono hidle) fun limited => ?_
  split
  · trivial
  split
  · trivial
  refine Quiet.bind (quiet_verifyCaptcha (hidle _ trivial) (fun _ _ _ => Query.noConfusion)
    fun _ => hidle _ trivial) fun verified => ?_
  split
  · trivial
  · exact Quiet.bind (quiet_rpc fun _ => Query.noConfusion) fun result => trivial

/-! ### Entries -/

/-- A request for a payout. -/
def PayoutRoute (request : Request) : Prop :=
  request.method = "POST" ∧ request.path = "/api/core-faucet"

/-- A request for invitations. -/
def InvitationRoute (request : Request) : Prop :=
  request.method = "POST" ∧ request.path = "/api/invitation-faucet"

/-- **Only two routes lead past the gates.** -/
theorem route_cases (w : Worker) (request : Request) :
    (PayoutRoute request ∧ route w request = handleFaucet w request) ∨
    (¬PayoutRoute request ∧ InvitationRoute request ∧
      route w request = handleInvitation w request) ∨
    (¬PayoutRoute request ∧ ¬InvitationRoute request ∧ (route w request).Quiet Idle) := by
  by_cases hpays : PayoutRoute request
  · refine .inl ⟨hpays, ?_⟩
    unfold route
    rw [hpays.1, hpays.2]
    rfl
  by_cases hinvites : InvitationRoute request
  · refine .inr (.inl ⟨hpays, hinvites, ?_⟩)
    unfold route
    rw [hinvites.1, hinvites.2]
    rfl
  -- every other route, in the order of the source
  refine .inr (.inr ⟨hpays, hinvites, ?_⟩)
  unfold route
  dsimp only
  split
  · trivial
  split
  · trivial
  split
  · exact quiet_handleStatus
  split
  · exact quiet_handleCapChallenge false
  split
  · exact quiet_handleCapChallenge true
  split
  · exact quiet_handleCapRedeem
  split
  next h => exact absurd ⟨h.2, h.1⟩ hpays
  split
  next h => exact absurd ⟨h.2, h.1⟩ hinvites
  refine Quiet.bind quiet_portal fun found => ?_
  split
  · trivial
  split
  · trivial
  · exact quiet_rpc trivial

/-- A request is always answered. -/
theorem transcript_fetch {r : Except String Response} :
    (fetch w request).Transcript es r ↔
      ∃ x, (route w request).Transcript es x ∧ r = .ok (caught x) := by
  constructor
  · intro h
    obtain ⟨es₁, r₁, hroute, hrest⟩ := transcript_bind.mp h
    obtain ⟨x, rfl, hroute⟩ := transcript_attempt.mp hroute
    obtain ⟨es₂, rfl, hrest⟩ := hrest
    obtain ⟨rfl, rfl⟩ := transcript_pure.mp hrest
    exact ⟨x, by rwa [List.append_nil], rfl⟩
  · rintro ⟨x, hroute, rfl⟩
    exact transcript_bind.mpr ⟨es, .ok x, transcript_attempt.mpr ⟨x, rfl, hroute⟩, [],
      (List.append_nil es).symm, rfl, rfl⟩

/-- A failure is never a 200. -/
theorem payoutFailure_status (result : PayoutFailure) (escalatable : Bool) :
    (payoutFailure result escalatable).status ≠ 200 := by
  have hstatus : (payoutFailure result escalatable).status = (payoutFailures result.code).1 := by
    unfold payoutFailure
    rcases payoutFailures result.code with ⟨status, message⟩
    dsimp only
    split
    · rfl
    split
    · rfl
    split <;> rfl
  rw [hstatus]
  cases result.code <;> decide

/-- The reply to a payout is a 200 just if it was paid. -/
theorem payoutReply_cases (cfg : Settings) (result : PayoutResult) (address : String)
    (escalatable : Bool) :
    (∃ paid, result = .ok paid ∧
        payoutReply cfg result address escalatable = payoutSuccess cfg paid address) ∨
      (∀ paid, result ≠ .ok paid) ∧ (payoutReply cfg result address escalatable).status ≠ 200 := by
  cases result with
  | ok paid => exact .inl ⟨paid, rfl, rfl⟩
  | rateLimited | budgetExhausted | unauthorized | codeInvalid | codeUsed | badRequest | fragmented
  | insufficientFunds | selfPay | chainUnavailable | error =>
    exact .inr ⟨fun _ => PayoutResult.noConfusion, payoutFailure_status _ escalatable⟩

/-- **How a request for a payout goes**: it asks nothing and fails, without a configuration, or it
takes its course. -/
theorem fetch_course (hpays : PayoutRoute request) {r : Except String Response}
    (h : (fetch w request).Transcript es r) : ∃ x, r = .ok (caught x) ∧
      ((es = [] ∧ ∃ e, x = .error e) ∨
        ∃ cfg, w.resolved = .ok cfg ∧ Course (Backed w request) cfg es x) := by
  obtain ⟨x, hroute, rfl⟩ := transcript_fetch.mp h
  refine ⟨x, rfl, ?_⟩
  rcases route_cases w request with ⟨-, heq⟩ | ⟨hnot, -⟩ | ⟨hnot, -⟩
  · rw [heq] at hroute
    cases hcfg : w.resolved with
    | error e =>
      obtain ⟨rfl, rfl⟩ := handleFaucet_unresolved hcfg hroute
      exact .inl ⟨rfl, e, rfl⟩
    | ok cfg => exact .inr ⟨cfg, rfl, course_handleFaucet hcfg hroute⟩
  · exact absurd hpays hnot
  · exact absurd hpays hnot

/-! ### What a request asks -/

/-- An answer to every query. -/
def someAnswer : (q : Query) → q.Answer
  | .edgeLimit _ => (.error "" : Rpc Bool)
  | .siteverify _ => (.error "" : Rpc Json)
  | .now => (0 : ℤ)
  | .random _ => ([] : List ℕ)
  | .randomUUID => ("" : String)
  | .consumeCapToken .. => (.error "" : Rpc Bool)
  | .isActiveApiKey _ => (.error "" : Rpc Bool)
  | .payout _ => (.error "" : Rpc PayoutResult)
  | .snapshot => (.error "" : Rpc Snapshot)
  | .maintain => (.error "" : Rpc MaintenanceResult)
  | .invitationSnapshot => (.error "" : Rpc Snapshot)
  | .issueInvitation _ => (.error "" : Rpc InvitationIssueResult)
  | .maintainInvitations => (.error "" : Rpc InvitationMaintenanceResult)
  | .portal (.store _) => (.error "" : Except String _)
  | .portal .asset => (.error "" : Except String Response)
  | .portal (.startLogin ..) => (preflight : Response)
  | .portal (.finishLogin _) => (.error "" "" : Portal.LoginOutcome)
  | .portal .clock => (0 : ℤ)
  | .portal (.random _) => ([] : List ℕ)
  | .assets => (.error "" : Rpc Response)

theorem asks_fetch {q : Query} : (fetch w request).Asks es q ↔ (route w request).Asks es q := by
  constructor
  · intro h
    rcases asks_bind.mp h with h | ⟨es₁, es₂, x, -, -, h⟩
    · exact asks_attempt.mp h
    · exact (asks_pure h).elim
  · exact fun h => asks_bind.mpr (.inl (asks_attempt.mpr h))

theorem quiet_fetch (w : Worker) (request : Request) : (fetch w request).Quiet fun _ => True := by
  have hroute : (route w request).Quiet fun _ => True := by
    rcases route_cases w request with ⟨-, h⟩ | ⟨-, -, h⟩ | ⟨-, -, h⟩
    · rw [h]
      exact quiet_handleFaucet.mono fun _ _ => trivial
    · rw [h]
      exact quiet_handleInvitation.mono fun _ _ => trivial
    · exact h.mono fun _ _ => trivial
  exact hroute.attempt.bind fun _ => trivial

/-- What gates guard is asked on one of two routes. -/
theorem asks_guarded {q : Query} (hq : ¬Idle q) (h : (fetch w request).Asks es q) :
    (PayoutRoute request ∧ (handleFaucet w request).Asks es q) ∨
      (InvitationRoute request ∧ (handleInvitation w request).Asks es q) := by
  have hroute := asks_fetch.mp h
  rcases route_cases w request with ⟨hpays, heq⟩ | ⟨-, hinvites, heq⟩ | ⟨-, -, hquiet⟩
  · exact .inl ⟨hpays, heq ▸ hroute⟩
  · exact .inr ⟨hinvites, heq ▸ hroute⟩
  · exact absurd (hquiet.of_asks hroute) hq

/-- **A payout asked for is backed** by what was heard before. -/
theorem asks_payout {input : PayoutRequest} (h : (fetch w request).Asks es (.payout input)) :
    PayoutRoute request ∧ Backed w request es input := by
  rcases asks_guarded (w := w) id h with ⟨hpays, h⟩ | ⟨-, h⟩
  · refine ⟨hpays, ?_⟩
    obtain ⟨es', r, hrun⟩ := h.transcript someAnswer quiet_handleFaucet
      (Except.error "" : Rpc PayoutResult)
    cases hcfg : w.resolved with
    | error e => exact absurd (handleFaucet_unresolved hcfg hrun).1 (by simp)
    | ok cfg => exact (course_handleFaucet hcfg hrun).paid fun _ _ => Backed.unpaid
  · rcases quiet_handleInvitation.of_asks h with hidle | ⟨_, heq⟩
    · exact hidle.elim
    · cases heq

/-- **A request asks for one payout at most.** -/
theorem asks_payout_once {heard : List Exchange} {rest : Prog Response} {es' : List Exchange}
    {input input' : PayoutRequest} (halong : Along (fetch w request) heard rest)
    (hpre : es <+: heard) (hpre' : es' <+: heard) (h : (fetch w request).Asks es (.payout input))
    (h' : (fetch w request).Asks es' (.payout input')) : es = es' ∧ input = input' := by
  -- nothing is paid before a payout is asked for, so neither comes before the other
  have hle : ∀ {es es' : List Exchange} {input input' : PayoutRequest}, es <+: heard →
      es' <+: heard → (fetch w request).Asks es (.payout input) →
      (fetch w request).Asks es' (.payout input') → es'.length ≤ es.length := by
    intro es es' input input' hpre hpre' h h'
    by_contra hlt
    have hlt := not_le.mp hlt
    obtain ⟨rest, rfl⟩ := List.prefix_of_prefix_length_le hpre hpre' hlt.le
    cases rest with
    | nil => simp at hlt
    | cons e rest =>
      have hnext : es ++ [e] <+: heard := by
        refine List.IsPrefix.trans ?_ hpre'
        exact ⟨rest, by simp⟩
      have hasked := halong.asks_heard (quiet_fetch w request) hnext
      refine (asks_payout h').2.unpaid e (List.mem_append_right _ List.mem_cons_self) ?_
      rw [asks_unique hasked h]
      trivial
  have hlength := le_antisymm (hle hpre' hpre h' h) (hle hpre hpre' h h')
  have heq : es = es' :=
    (List.prefix_of_prefix_length_le hpre hpre' hlength.le).eq_of_length hlength
  subst heq
  cases asks_unique h h'
  exact ⟨rfl, rfl⟩

/-- What verifies a capToken asks for it to be spent once it has been verified. -/
theorem asks_verifyCaptcha {ip : String} {body : FaucetBody} {token : String} {expiresAt : ℤ}
    (h : (verifyCaptcha w cfg ip body).Asks es (.consumeCapToken token expiresAt)) :
    cfg.capSecret ≠ "" ∧ ∃ (time : ℤ) (check : CapTokenCheck), es = [⟨.now, time⟩] ∧
      check.expiresAt = expiresAt ∧
        verifyCapToken w.runtime.hmac cfg.capSecret token time = .ok check := by
  unfold verifyCaptcha at h
  split at h
  · split at h
    · exact h.elim
    next hsecret =>
    have hnow : (ask .now : Prog ℤ).Quiet Idle := (quiet_ask _).mpr trivial
    obtain ⟨es₁, es₂, time, rfl, htime, hrest⟩ := hnow.asks_rest id h
    obtain ⟨_, rfl, heq⟩ := transcript_ask.mp htime
    cases heq
    split at hrest
    · exact hrest.elim
    next check hverified =>
    -- this is the call, for behind it nothing is asked
    rcases asks_bind.mp hrest with hcall | ⟨es₃, es₄, fresh, -, -, hlast⟩
    · obtain ⟨rfl, heq⟩ := asks_rpc.mp hcall
      cases heq
      exact ⟨hsecret, time, check, rfl, rfl, hverified⟩
    · split at hlast
      · exact hlast.elim
      · exact hlast.elim
  split at h
  · obtain ⟨_, _, outcome, -, -, hrest⟩ :=
      (quiet_verifyTurnstile fun _ => trivial : Quiet Idle _).asks_rest id h
    split at hrest
    · exact hrest.elim
    · exact hrest.elim
  · split at h
    · exact h.elim
    · exact h.elim

/-- **A capToken is spent only once verified.** -/
theorem asks_consumeCapToken {token : String} {expiresAt : ℤ}
    (h : (fetch w request).Asks es (.consumeCapToken token expiresAt)) :
    PayoutRoute request ∧ ∃ (cfg : Settings) (time : ℤ) (check : CapTokenCheck),
      w.resolved = .ok cfg ∧ cfg.capSecret ≠ "" ∧ check.expiresAt = expiresAt ∧
        verifyCapToken w.runtime.hmac cfg.capSecret token time = .ok check ∧
        es = edgeHeard w (clientIp request) ++ [⟨.now, time⟩] := by
  rcases asks_guarded (w := w) id h with ⟨hpays, h⟩ | ⟨-, h⟩
  · refine ⟨hpays, ?_⟩
    obtain ⟨es₁, es₂, cfg, rfl, hconfig, hrest⟩ :=
      (quiet_ofExcept w.resolved : Quiet Idle _).asks_rest id h
    obtain ⟨rfl, hcfg⟩ := transcript_ofExcept.mp hconfig
    dsimp only at hrest
    split at hrest
    · exact hrest.elim
    split at hrest
    · exact hrest.elim
    split at hrest
    · split at hrest
      · exact hrest.elim
      · -- with a key nothing is spent
        rcases (quiet_handleKeyFaucet (fun _ => .inl) fun _ => .inr trivial :
          Quiet (fun q => Idle q ∨ IsPayout q) _).of_asks hrest with hidle | hpays
        · exact hidle.elim
        · exact hpays.elim
    split at hrest
    · exact hrest.elim
    obtain ⟨es₃, es₄, limited, rfl, hedge, hlast⟩ := quiet_edge.asks_rest id hrest
    -- past the limiter, it is the captcha that spends
    rcases edgeLimited_cases hedge with ⟨rfl, heq⟩ | ⟨-, hrefused⟩
    · cases heq
      split at hlast
      next limited hlimited => cases hlimited
      split at hlast
      · exact hlast.elim
      rcases asks_bind.mp hlast with hcaptcha | ⟨_, _, verified, -, -, hpaid⟩
      · obtain ⟨hsecret, time, check, rfl, hexp, hverified⟩ := asks_verifyCaptcha hcaptcha
        exact ⟨cfg, time, check, hcfg.symm, hsecret, hexp, hverified, rfl⟩
      · split at hpaid
        · exact hpaid.elim
        · rcases asks_bind.mp hpaid with hask | ⟨_, _, _, -, -, hreply⟩
          · cases (asks_rpc.mp hask).2
          · exact hreply.elim
    · obtain ⟨response, heq, -⟩ | ⟨e, heq⟩ := hrefused
      · cases heq
        exact hlast.elim
      · cases heq
  · rcases quiet_handleInvitation.of_asks h with hidle | ⟨_, heq⟩
    · exact hidle.elim
    · cases heq

end DashFaucet.Worker

import DashFaucet.Deployment

/-!
# capTokens in a deployment

The requests with capTokens, and the Treasury that spends these, are the captcha of
`DashFaucet.Captcha`, whatever else goes on. So what holds of its runs holds of every deployment.

* `Deployment.Refines`, `Deployment.refines_move`, `Deployment.Reached.refines`: the refinement.
* `Deployment.token_pays_once`: a capToken that is spent in time buys one payout.
-/

namespace DashFaucet.Deployment

open Async Worker

variable {d : Deployment} {c c' : d.requests.Config}

/-- The captcha of a deployment. -/
def captcha (d : Deployment) : Captcha := ⟨d.faucet, d.worker.runtime.hmac, d.cfg.capSecret⟩

/-- A message that spends a capToken: the token was verified. -/
def checked (m : d.requests.Message) : Option Captcha.Checked :=
  match m.query with
  | .consumeCapToken token expiresAt => some ⟨token, expiresAt⟩
  | _ => none

/-- A call that spent a capToken, with its answer. -/
def consumed (x : d.requests.Made) : Option Captcha.Consumed :=
  (checked x.message).map fun r =>
    ⟨r, x.time, (x.store.admin.consumeCapToken r.capToken r.expiresAt x.time).1⟩

/-- What a configuration shows of the captcha. Messages may have been lost. -/
structure Refines (c : d.requests.Config) (g : d.captcha.Config) : Prop where
  reached : d.captcha.Reached g
  clock : g.clock = c.clock
  treasury : g.treasury = c.actor
  checked : List.Subperm (c.sent.filterMap checked) g.checked
  consumed : g.consumed = c.made.filterMap consumed

theorem reached_step {g g' : d.captcha.Config} {i : d.captcha.Input} (h : d.captcha.Reached g)
    (hstep : d.captcha.step g i = some g') : d.captcha.Reached g' := by
  obtain ⟨clock, is, hexec⟩ := h
  refine ⟨clock, is ++ [i], ?_⟩
  show (is ++ [i]).foldlM d.captcha.step _ = _
  rw [List.foldlM_append, show is.foldlM d.captcha.step _ = some g from hexec]
  show (d.captcha.step g i).bind pure = _
  rw [hstep]
  rfl

/-- What the verification of a token at `t` has checked. -/
def verified (d : Deployment) (token : String) (t : ℤ) : List Captcha.Checked :=
  match verifyCapToken d.worker.runtime.hmac d.cfg.capSecret token t with
  | .ok check => [⟨token, check.expiresAt⟩]
  | .error _ => []

/-- **Whatever takes time only** is the verification of some token. -/
theorem Refines.verify {g : d.captcha.Config} {t : ℤ} (h : Refines c g) (hle : c.clock ≤ t)
    (token : String) (hclock : c'.clock = t) (hactor : c'.actor = c.actor)
    (hsent : List.Subperm (c'.sent.filterMap Deployment.checked)
      (c.sent.filterMap Deployment.checked ++ verified d token t))
    (hmade : c'.made.filterMap Deployment.consumed = c.made.filterMap Deployment.consumed) :
    ∃ g', Refines c' g' := by
  have hstep : d.captcha.step g (.verify token t) =
      some { g with clock := t, checked := g.checked ++ verified d token t } := by
    have hg : g.clock ≤ t := h.clock ▸ hle
    have hverify : verifyCapToken d.captcha.hmac d.captcha.capSecret token t =
        verifyCapToken d.worker.runtime.hmac d.cfg.capSecret token t := rfl
    simp only [Captcha.step, if_pos hg, verified, hverify]
    cases verifyCapToken d.worker.runtime.hmac d.cfg.capSecret token t with
    | ok check => rfl
    | error reason => simp
  refine ⟨_, reached_step h.reached hstep, hclock.symm, h.treasury.trans hactor.symm, ?_,
    h.consumed.trans hmade.symm⟩
  exact hsent.trans (List.Subperm.append h.checked (List.Subperm.refl _))

/-- Whatever else the Treasury does. -/
theorem Refines.other {g : d.captcha.Config} {i : Actor.Input d.faucet.treasury}
    {actor : Actor.Config d.faucet.treasury} (h : Refines c g)
    (hspends : d.captcha.spends i = false) (htime : ∀ t ∈ i.time, c.clock ≤ t)
    (hstep : d.faucet.treasury.step c.actor i = some actor)
    (hclock : c'.clock = max c.clock actor.clock) (hactor : c'.actor = actor)
    (hsent : List.Subperm (c'.sent.filterMap Deployment.checked)
      (c.sent.filterMap Deployment.checked))
    (hmade : c'.made.filterMap Deployment.consumed = c.made.filterMap Deployment.consumed) :
    ∃ g', Refines c' g' := by
  have hinstant : ∀ t ∈ Captcha.instant d.captcha i, g.clock ≤ t := by
    rw [h.clock]
    cases i <;> exact htime
  -- the captcha's world makes the same step of its Treasury
  have hstep' : d.captcha.step g (.other i) =
      some { g with clock := max g.clock actor.clock, treasury := actor } := by
    simp only [Captcha.step, if_pos (And.intro hspends hinstant)]
    rw [h.treasury]
    exact Option.bind_eq_some_iff.mpr ⟨actor, hstep, rfl⟩
  refine ⟨_, reached_step h.reached hstep', ?_, hactor.symm, hsent.trans h.checked,
    h.consumed.trans hmade.symm⟩
  show max g.clock actor.clock = _
  rw [h.clock, hclock]

/-- A message that spends its token. -/
theorem Refines.spend {g : d.captcha.Config} {pre post : List d.requests.Message}
    {m : d.requests.Message} {token : String} {expiresAt t : ℤ}
    {actor : Actor.Config d.faucet.treasury} (h : Refines c g) (hsent : c.sent = pre ++ m :: post)
    (hquery : m.query = .consumeCapToken token expiresAt) (hle : c.clock ≤ t)
    (hstep : d.faucet.treasury.step c.actor (.call (.consumeCapToken token expiresAt) t) =
      some actor)
    (hclock : c'.clock = max c.clock actor.clock) (hactor : c'.actor = actor)
    (hsent' : c'.sent = pre ++ post) (hmade : c'.made = c.made ++ [⟨m, t, c.actor.store⟩]) :
    ∃ g', Refines c' g' := by
  have hm : Deployment.checked m = some ⟨token, expiresAt⟩ := by
    rw [Deployment.checked, hquery]
  have hchecked := h.checked
  rw [hsent, List.filterMap_append, List.filterMap_cons_some hm] at hchecked
  have hmem : (⟨token, expiresAt⟩ : Captcha.Checked) ∈ g.checked :=
    hchecked.subset (List.mem_append_right _ List.mem_cons_self)
  have hg : g.clock ≤ t ∧ (⟨token, expiresAt⟩ : Captcha.Checked) ∈ g.checked :=
    ⟨h.clock ▸ hle, hmem⟩
  -- the captcha spends the token at the same time, with the same answer
  have hstep' : d.captcha.step g (.consume ⟨token, expiresAt⟩ t) = some
      ⟨t, actor, g.checked.erase ⟨token, expiresAt⟩, g.consumed ++ [⟨⟨token, expiresAt⟩, t,
        (c.actor.store.admin.consumeCapToken token expiresAt t).1⟩]⟩ := by
    simp only [Captcha.step, if_pos hg]
    rw [h.treasury]
    exact Option.bind_eq_some_iff.mpr ⟨actor, hstep, rfl⟩
  refine ⟨_, reached_step h.reached hstep', ?_, hactor.symm, ?_, ?_⟩
  · have hnow : actor.clock = t := by
      rw [Actor.step] at hstep
      split at hstep
      · cases hstep
        rfl
      · cases hstep
    show t = _
    rw [hclock, hnow, max_eq_right hle]
  · rw [hsent', List.filterMap_append]
    -- the message is gone from both
    have herase := hchecked.erase ⟨token, expiresAt⟩
    have hperm : List.Perm
        (pre.filterMap Deployment.checked ++
          ⟨token, expiresAt⟩ :: post.filterMap Deployment.checked)
        (⟨token, expiresAt⟩ ::
          (pre.filterMap Deployment.checked ++ post.filterMap Deployment.checked)) :=
      List.perm_middle
    have hrest := hperm.erase ⟨token, expiresAt⟩
    rw [List.erase_cons_head] at hrest
    exact hrest.symm.subperm.trans herase
  · rw [hmade, List.filterMap_append, ← h.consumed]
    simp [Deployment.consumed, hm]

/-- What a client sends that spends a token was verified when the client last saw the clock. -/
theorem outgoing_checked (i : ℕ) (client : d.requests.Client)
    (halong : Along (fetch d.worker client.request) client.heard client.rest) :
    (Clients.outgoing i client).filterMap checked = [] ∨ ∃ (before : List Exchange)
      (token : String) (time : ℤ), client.heard = before ++ [⟨.now, time⟩] ∧
        (Clients.outgoing i client).filterMap checked = verified d token time := by
  unfold Clients.outgoing
  split
  next q k hrest =>
    rw [hrest] at halong
    have hasks := halong.asks (quiet_fetch _ _)
    cases q with
    -- what a client is about to spend it has verified, as the last thing
    | consumeCapToken token expiresAt =>
      obtain ⟨-, cfg, time, check, hcfg, -, hexp, hverify, hheard⟩ := asks_consumeCapToken hasks
      rw [d.resolved] at hcfg
      cases hcfg
      refine .inr ⟨_, token, time, hheard, ?_⟩
      rw [verified, hverify, ← hexp]
      rfl
    | payout | snapshot | maintain | isActiveApiKey | now | edgeLimit | siteverify | random
    | randomUUID | invitationSnapshot | issueInvitation | maintainInvitations | portal | assets =>
      exact .inl rfl
  · exact .inl rfl

/-- The one call a request makes spends a capToken. -/
theorem service_call {q : Worker.Query} {a : Call} {tell : State → ℤ → q.Answer}
    (h : d.service q = .call (some a) tell) :
    ∃ token expiresAt,
      q = .consumeCapToken token expiresAt ∧ a = .consumeCapToken token expiresAt := by
  cases q with
  | consumeCapToken token expiresAt =>
    cases h
    exact ⟨token, expiresAt, rfl, rfl⟩
  | payout | snapshot | maintain | isActiveApiKey | now => cases h
  | edgeLimit | siteverify | random | randomUUID | invitationSnapshot | issueInvitation
  | maintainInvitations | portal | assets => cases h

/-- A look spends none. -/
theorem checked_look {m : d.requests.Message} {tell : State → ℤ → m.query.Answer}
    (h : d.service m.query = .call none tell) : Deployment.checked m = none := by
  obtain ⟨sender, place, query⟩ := m
  cases query with
  | consumeCapToken => cases h
  | payout | snapshot | maintain | isActiveApiKey | now | edgeLimit | siteverify | random
  | randomUUID | invitationSnapshot | issueInvitation | maintainInvitations | portal | assets => rfl

/-- **A step of a deployment** is one of its captcha, or none. -/
theorem refines_move {start : ℤ} (hsound : Clients.Sound start (State.initial start) c)
    (hmove : Clients.Move c c') {g : d.captcha.Config} (h : Refines c g) :
    ∃ g', Refines c' g' := by
  -- nothing that spends a token is sent or taken
  have hsame : ∀ l : List d.requests.Message, List.Subperm (l.filterMap Deployment.checked)
      (l.filterMap Deployment.checked) := fun _ => List.Subperm.refl _
  have hless : ∀ {pre post : List d.requests.Message} {m : d.requests.Message},
      c.sent = pre ++ m :: post → List.Subperm ((pre ++ post).filterMap Deployment.checked)
        (c.sent.filterMap Deployment.checked) := by
    intro pre post m hsent
    rw [hsent]
    exact (((List.sublist_cons_self m post).append_left pre).filterMap _).subperm
  have hwaiting : ∀ {l l' : List Captcha.Checked}, List.Subperm l (l ++ l') :=
    fun {l l'} => (List.sublist_append_left l l').subperm
  cases hmove with
  | arrive r =>
    have hnone : (Clients.outgoing c.clients.length (Clients.newcomer r)).filterMap
        Deployment.checked = [] := by
      rcases outgoing_checked c.clients.length (Clients.newcomer r)
        (along_advance _ _) with hnone | ⟨before, token, time, heq, -⟩
      · exact hnone
      · simp [Clients.newcomer] at heq
    refine h.verify le_rfl "" rfl rfl ?_ rfl
    rw [Clients.arrive, List.filterMap_append, hnone, List.append_nil]
    exact hwaiting
  | @answer i client q k a t here waits later told now =>
    have halong := hsound.along client (List.mem_of_getElem? here)
    rw [waits] at halong
    have hsent : (Clients.put { c with clock := t } i (client.after a k)).sent =
        c.sent ++ Clients.outgoing i (client.after a k) := rfl
    rcases outgoing_checked i (client.after a k)
      (halong.trans (.await a (along_advance _ _))) with hnone | ⟨before, token, time, heq, hsome⟩
    · refine h.verify later "" rfl rfl ?_ rfl
      rw [hsent, List.filterMap_append, hnone, List.append_nil]
      exact hwaiting
    · -- the client was told the time just now
      have hlast := (List.append_inj' heq rfl).2
      cases hlast
      have htime : time = t := now _ rfl
      refine h.verify later token rfl rfl ?_ rfl
      rw [hsent, List.filterMap_append, hsome, htime]
  | @act i actor free later stepped =>
    have hspends : d.captcha.spends i = false := by
      cases i with
      | call a => cases a <;> first | rfl | cases free
      | «begin» | resume => rfl
    exact h.other hspends later stepped rfl rfl (hsame _) rfl
  | @begin pre post m op tell t actor sent service later stepped =>
    refine h.other rfl (fun t' ht => ?_) stepped rfl rfl (hless sent) rfl
    cases ht
    exact later
  | @call pre post m a tell t actor sent service later stepped =>
    obtain ⟨token, expiresAt, hquery, rfl⟩ := service_call service
    exact h.spend sent hquery later stepped rfl rfl rfl rfl
  | @look pre post m tell t sent service later =>
    refine h.verify later "" rfl rfl ((hless sent).trans hwaiting) ?_
    have hm : Deployment.checked m = none := checked_look service
    simp [Deployment.consumed, hm]
  | @lose pre post m sent =>
    exact ⟨g, h.reached, h.clock, h.treasury, (hless sent).trans h.checked, h.consumed⟩

/-- **The refinement.** -/
theorem Reached.refines (h : d.Reached c) : ∃ g, Refines c g := by
  obtain ⟨start, is, hexec⟩ := h
  refine (Clients.invariant (I := fun c => ∃ g, Refines c g) ?_ ?_ hexec).2
  · exact ⟨d.captcha.init start, ⟨start, [], rfl⟩, rfl, rfl, List.Subperm.refl _, rfl⟩
  · rintro c c' hsound ⟨g, hg⟩ hmove
    exact refines_move hsound hmove hg

/-! ### Payouts for a capToken -/

/-- The capToken that a request presents, if it has no key. -/
def capToken (request : Request) : Option String :=
  match bearerToken request with
  | some _ => none
  | none =>
    match readJsonObject request >>= faucetBody with
    | .ok body => body.presented
    | .error _ => none

/-- What is paid for a capToken had it spent, and found new, the moment before. -/
theorem spent_of_backed {w : Worker} {request : Request} {token : String} {es : List Exchange}
    {input : PayoutRequest} (h : capToken request = some token)
    (hbacked : Backed w request es input) : ∃ (before : List Exchange) (expiresAt : ℤ),
      es = before ++ [⟨.consumeCapToken token expiresAt, (.ok true : Rpc Bool)⟩] := by
  unfold capToken at h
  cases hbacked with
  | proof _ read _ noKey _ _ proven =>
    simp only [noKey, read] at h
    -- the proof is the token that the body presents
    cases proven with
    | capToken presented =>
      rw [h] at presented
      cases presented
      exact ⟨_ ++ [_], _, (List.append_assoc _ [_] [_]).symm⟩
    | turnstile presented =>
      rw [h] at presented
      cases presented
    | off presented =>
      rw [h] at presented
      cases presented
  | key _ _ _ bearer =>
    simp only [bearer] at h
    cases h

/-- Of two calls that spend one token, the later one does not find it new, if it comes in time. -/
theorem Refines.not_fresh_later {g : d.captcha.Config} (h : Refines c g) {k k' : ℕ}
    {x x' : d.requests.Made} {a a' : Captcha.Consumed} (hk : c.made[k]? = some x)
    (hk' : c.made[k']? = some x') (hx : Deployment.consumed x = some a)
    (hx' : Deployment.consumed x' = some a') (htoken : a.capToken = a'.capToken)
    (hfresh : a'.fresh = true) (htimely : a'.calledAt ≤ a'.expiresAt) : ¬k < k' := by
  intro hlt
  obtain ⟨start, is, hexec⟩ := h.reached
  have hjudged := (Captcha.sound_exec (.init start) hexec).judged
  -- all that was consumed before the later call, in the order of the calls
  have hpre : (c.made.take k').filterMap Deployment.consumed ++ [a'] <+: g.consumed := by
    have hsplit := (Clients.sent_split hk').1
    rw [h.consumed]
    conv_rhs => rw [hsplit]
    rw [List.filterMap_append, List.filterMap_cons_some hx']
    exact ⟨_, List.append_assoc _ [_] _⟩
  rcases (hjudged _ a' hpre).mp hfresh with hnew | hlate
  · have hmem : x ∈ c.made.take k' := by
      refine List.mem_of_getElem? (i := k) ?_
      rw [List.getElem?_take_of_lt hlt, hk]
    exact hnew a (List.mem_filterMap.mpr ⟨x, hmem, hx⟩) htoken
  · exact absurd htimely (not_le.mpr hlate)

/-- Every call that spends the token comes before the token has expired. -/
def Timely (c : d.requests.Config) (token : String) : Prop :=
  ∀ x ∈ c.made, ∀ expiresAt, x.message.query = .consumeCapToken token expiresAt →
    x.time ≤ expiresAt

/-- The operation at `j` of the record is a payout for a request that presents the token. -/
def PaysFor (c : d.requests.Config) (token : String) (j : ℕ) : Prop :=
  ∃ (r : OpRecord) (input : PayoutRequest) (work : d.requests.Work) (m : d.requests.Message)
    (client : d.requests.Client), c.actor.store.records[j]? = some r ∧ r.op = .payout input ∧
      c.works[j]? = some work ∧ work.owner = some m ∧ c.clients[m.sender]? = some client ∧
        capToken client.request = some token

/-- A payout for a token has a call of its client's that found the token new. -/
theorem PaysFor.call {start : ℤ} (hsound : Clients.Sound start (State.initial start) c)
    (hjournal : Faucet.journal c.actor.store = Clients.history c) {token : String} {j : ℕ}
    (h : PaysFor c token j) : ∃ (k : ℕ) (x : d.requests.Made) (expiresAt : ℤ)
      (input : PayoutRequest) (work : d.requests.Work) (m : d.requests.Message),
      c.made[k]? = some x ∧ x.message.query = .consumeCapToken token expiresAt ∧
        Deployment.consumed x = some ⟨⟨token, expiresAt⟩, x.time, true⟩ ∧
        c.works[j]? = some work ∧ work.op = .payout input ∧ work.owner = some m ∧
        x.message.sender = m.sender := by
  obtain ⟨r, input, work, m, client, hr, hop, hj, howner, hclient, hpresents⟩ := h
  obtain ⟨work', hj', hop'⟩ := work_of_record hjournal hr
  rw [hj] at hj'
  cases hj'
  rw [hop] at hop'
  obtain ⟨m', client', es, howner', hclient', hpre, -, hasks⟩ := payout_owned hsound hj hop'
  rw [howner] at howner'
  cases howner'
  rw [hclient] at hclient'
  cases hclient'
  -- the client heard that its token was new, and so it was
  obtain ⟨before, expiresAt, rfl⟩ := spent_of_backed hpresents (asks_payout hasks).2
  obtain ⟨x, hx, hquery, horigin, hanswer⟩ := hsound.call_told hclient hpre rfl rfl
  obtain ⟨k, hk⟩ := List.mem_iff_getElem?.mp hx
  have hchecked : Deployment.checked x.message = some ⟨token, expiresAt⟩ := by
    rw [Deployment.checked, hquery]
  have hfresh : (x.store.admin.consumeCapToken token expiresAt x.time).1 = true :=
    (Except.ok.inj hanswer).symm
  refine ⟨k, x, expiresAt, input, work, m, hk, hquery, ?_, hj, hop', howner,
    congrArg Prod.fst horigin⟩
  rw [Deployment.consumed, hchecked, Option.map_some, hfresh]

/-- **A capToken buys one payout.** In every run of the Worker and its Treasury, whatever messages
are late or lost: if all calls that spend a capToken come before it expires, the Treasury begins one
payout at most for all the requests that ever present it. -/
theorem token_pays_once (h : d.Reached c) {token : String} (htimely : Timely c token) {j j' : ℕ}
    (hj : PaysFor c token j) (hj' : PaysFor c token j') : j = j' := by
  obtain ⟨start, hsound, -, hjournal⟩ := h.sound
  obtain ⟨g, hg⟩ := h.refines
  obtain ⟨k, x, exp, input, work, m, hk, hquery, hx, hwork, hop, howner, hsender⟩ :=
    hj.call hsound hjournal
  obtain ⟨k', x', exp', input', work', m', hk', hquery', hx', hwork', hop', howner', hsender'⟩ :=
    hj'.call hsound hjournal
  have hin := htimely x (List.mem_of_getElem? hk) exp hquery
  have hin' := htimely x' (List.mem_of_getElem? hk') exp' hquery'
  -- neither call comes before the other, so they are one
  have hsame : k = k' := le_antisymm
    (not_lt.mp (hg.not_fresh_later hk' hk hx' hx rfl rfl hin))
    (not_lt.mp (hg.not_fresh_later hk hk' hx hx' rfl rfl hin'))
  rw [← hsame, hk] at hk'
  cases hk'
  exact payout_unique hsound hwork hwork' hop hop' howner howner' (hsender.symm.trans hsender')

/-- Another request with the same token. -/
def sampleAgain : Request :=
  { sampleRequest with
    body := .ok (.obj [("address", .str "ybob"), ("capToken", .str Captcha.smallToken)]) }

/-- Both have the token verified before either spends it. -/
def rivals : Option sample.requests.Config :=
  Clients.exec (Clients.init 0 (.initial 0))
    ([.arrive sampleRequest, .arrive sampleAgain, .hear 0 sampleAnswer, .hear 1 sampleAnswer,
        .tick 0 1700001199000, .tick 1 1700001199000, .call 0 1700001199500,
        .call 0 1700001199600, .report 0 0, .report 1 1, .begin 0 1700001199700] ++
      List.replicate 5 (.other (.resume (Faucet.smallWorld (.ok "txid")))) ++ [.reply 0 0])

/-- Two requests present one token, in time, and one of them is paid. -/
theorem token_pays_once_sample : ∃ c : sample.requests.Config, sample.Reached c ∧
    (c.clients.map fun client => capToken client.request) =
      [some Captcha.smallToken, some Captcha.smallToken] ∧
    PaysFor c Captcha.smallToken 0 ∧ ∀ j, PaysFor c Captcha.smallToken j → j = 0 := by
  have hrun : rivals.map (fun c => (c.actor.store.records.map OpRecord.op,
      c.clients.map fun client => capToken client.request,
      c.made.filterMap Deployment.consumed)) =
        some ([.payout samplePayout], [some Captcha.smallToken, some Captcha.smallToken],
          [⟨⟨Captcha.smallToken, 1700001200000⟩, 1700001199500, true⟩,
            ⟨⟨Captcha.smallToken, 1700001200000⟩, 1700001199600, false⟩]) := by
    decide +kernel
  obtain ⟨c, hc, heq⟩ := Option.map_eq_some_iff.mp hrun
  obtain ⟨hrecords, hrest⟩ := Prod.mk.inj heq
  obtain ⟨htokens, hconsumed⟩ := Prod.mk.inj hrest
  have hreached : sample.Reached c := ⟨0, _, hc⟩
  obtain ⟨start, hsound, -, hjournal⟩ := hreached.sound
  obtain ⟨r, hr, hop⟩ := List.map_eq_singleton_iff.mp hrecords
  have hr : c.actor.store.records[0]? = some r := by rw [hr]; rfl
  -- whichever request the payout is of presents the token
  obtain ⟨work, hwork, hop'⟩ := work_of_record hjournal hr
  obtain ⟨m, client, -, howner, hclient, -⟩ := payout_owned hsound hwork (hop'.trans hop)
  have hmem := List.mem_of_getElem? hclient
  have htoken : capToken client.request ∈ [some Captcha.smallToken, some Captcha.smallToken] :=
    htokens ▸ List.mem_map_of_mem hmem
  have hpays : PaysFor c Captcha.smallToken 0 :=
    ⟨r, _, work, m, client, hr, hop, hwork, howner, hclient, by simpa using htoken⟩
  -- and both calls are in time
  have hjudged : ∀ a ∈ c.made.filterMap Deployment.consumed, a.calledAt ≤ a.expiresAt := by
    rw [hconsumed]
    decide
  have htimely : Timely c Captcha.smallToken := by
    intro x hx expiresAt hquery
    obtain ⟨fresh, hfresh⟩ : ∃ fresh, Deployment.consumed x =
        some ⟨⟨Captcha.smallToken, expiresAt⟩, x.time, fresh⟩ := by
      rw [Deployment.consumed, Deployment.checked, hquery]
      exact ⟨_, rfl⟩
    exact hjudged _ (List.mem_filterMap.mpr ⟨x, hx, hfresh⟩)
  exact ⟨c, hreached, htokens, hpays, fun j hj => token_pays_once hreached htimely hj hpays⟩

end DashFaucet.Deployment

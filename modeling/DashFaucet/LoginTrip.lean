import DashFaucet.LoginCookies
import Mathlib.Data.Rat.Encodable
import Mathlib.Logic.Equiv.List

/-!
# A login that completes

One browser and one provider, and nobody between: what a login comes to, run by run
(`Async.run`).

* `auth_login`, `auth_callback`: the two requests of a login.
* `login_completes`: from the first redirect to a session that is taken for the person the provider
  vouched for.
* `token_revoked`: GitHub's token does not outlive the reads it was for.
-/

namespace DashFaucet.Login

open Async Auth Portal

variable {lib : Libraries} {cfg : LoginConfig} {request : Request} {provider : Auth.Provider}
  {client : OAuthClient}

/-! ### The two requests -/

/-- A request for a step of the login: its first one, or the callback. -/
structure Asks (request : Request) (provider : Auth.Provider) (login : Bool) : Prop where
  method : request.method = "GET"
  path : loginPath request.path = some (provider, login)

def location (response : Response) : Option String := response.headers.lookup "Location"

/-- The identity that a provider yields for a code. -/
def identityOf (lib : Libraries) (provider : Auth.Provider) (client : OAuthClient)
    (cfg : AuthConfig) (code : String) (flow : OAuthState) : Prog (Option Identity) :=
  match provider with
  | .google => googleIdentity lib client cfg code flow
  | .github => githubIdentity lib client cfg code flow

/-- What follows the outcome of a login. -/
def finish (lib : Libraries) (cfg : LoginConfig) (outcome : LoginOutcome) : Portal.Prog Response :=
  match outcome with
  | .ok identity _ => do
    let _ ← callStore (.recordLogin identity)
    loginResponse lib.runtime cfg.toPortalConfig outcome
  | .error .. => loginResponse lib.runtime cfg.toPortalConfig outcome

theorem handle_startLogin (hclient : cfg.client provider = some client)
    (returnParam : Option String) :
    Async.handle (answer lib cfg request)
        (Portal.ask (.startLogin provider returnParam) : Portal.Prog Response) =
      startLogin lib provider client cfg.auth returnParam := by
  refine (bind_ret (answer lib cfg request (.startLogin provider returnParam))).trans ?_
  simp only [answer, hclient]
  rfl

theorem handle_finishLogin (hclient : cfg.client provider = some client) :
    Async.handle (answer lib cfg request)
        (Portal.ask (.finishLogin provider) : Portal.Prog LoginOutcome) =
      finishLogin lib provider client cfg.auth request := by
  refine (bind_ret (answer lib cfg request (.finishLogin provider))).trans ?_
  simp only [answer, hclient]
  rfl

section Requests

variable {login : Bool} (hasks : Asks request provider login)
  (hclient : cfg.client provider = some client)

include hasks

/-- No step of a login is a logout. -/
theorem Asks.not_logout : ¬(request.path = "/auth/logout" ∧ request.method = "POST") := by
  rintro ⟨hpath, -⟩
  have hstep := hasks.path
  rw [hpath] at hstep
  cases hstep

include hclient

/-- What a step of a login asks first. -/
theorem handleAuth_eq : handleAuth lib.runtime cfg.toPortalConfig request =
    if login then Portal.ask (.startLogin provider (searchParam request.search "return"))
    else Async.bind (Portal.ask (.finishLogin provider)) (finish lib cfg) := by
  have hconfigured : cfg.auth.configured provider = true := by rw [cfg.configured, hclient]; rfl
  have hstep : ((loginPath request.path).filter fun _ => request.method = "GET") =
      some (provider, login) := by
    rw [hasks.path, Option.filter_some, if_pos (decide_eq_true hasks.method)]
  unfold handleAuth
  rw [if_neg hasks.not_logout, hstep]
  dsimp only
  rw [if_neg (by rw [hconfigured]; decide)]
  cases login with
  | true => rfl
  | false =>
    refine congrArg (Async.bind (Portal.ask (.finishLogin provider))) (funext fun outcome => ?_)
    cases outcome <;> rfl

end Requests

theorem auth_login (hasks : Asks request provider true)
    (hclient : cfg.client provider = some client) :
    auth lib cfg request =
      startLogin lib provider client cfg.auth (searchParam request.search "return") := by
  rw [auth, handleAuth_eq hasks hclient]
  exact handle_startLogin hclient _

theorem auth_callback (hasks : Asks request provider false)
    (hclient : cfg.client provider = some client) :
    auth lib cfg request = finishLogin lib provider client cfg.auth request >>=
      fun outcome => Async.handle (answer lib cfg request) (finish lib cfg outcome) := by
  rw [auth, handleAuth_eq hasks hclient, ← handle_finishLogin hclient]
  exact handle_bind (Portal.ask (.finishLogin provider) : Portal.Prog LoginOutcome) (finish lib cfg)

/-! ### A completed login -/

/-- A fresh isolate: nothing is cached, nothing was fetched, nobody came. -/
def World.fresh (time : ℤ) : World := ⟨time, none, [], [], []⟩

section Completes

variable {o : ℕ → (q : Query) → q.Answer}

/-- The flow that a login begins, from the random bytes it is given. -/
def firstFlow (provider : Auth.Provider) (returnParam : Option String)
    (state nonce verifier : List ℕ) (time : ℤ) : OAuthState where
  provider := provider
  state := b64url state
  nonce := b64url nonce
  verifier := b64url verifier
  returnTo := returnPath returnParam
  exp := Number.ofInt (time + oauthTtlMs)

theorem run_startLogin (returnParam : Option String) (n : ℕ) (w : World) :
    run emit o (startLogin lib provider client cfg.auth returnParam) n w =
      (.ok (consent lib client cfg.auth (firstFlow provider returnParam
        (o n (.portal (.random 32))) (o (n + 1) (.portal (.random 32)))
        (o (n + 2) (.portal (.random 48))) w.now)), n + 3, w) := rfl

theorem returnPath_mem (returnParam : Option String) : returnPath returnParam ∈ returnPaths := by
  unfold returnPath
  cases hfilter : returnParam.filter (returnPaths.contains ·) with
  | none => decide
  | some path =>
    have hpath := (Option.filter_eq_some_iff.mp hfilter).2
    simpa using hpath

/-- The consent page is asked with the flow's state and challenge. -/
theorem consentParams_lookup (flow : OAuthState) :
    (consentParams lib client cfg.auth flow).lookup "state" = some flow.state ∧
      (consentParams lib client cfg.auth flow).lookup "code_challenge" =
        some (pkceChallenge lib flow.verifier) := by
  unfold consentParams
  cases flow.provider <;> exact ⟨rfl, rfl⟩

/-- A browser that comes back with a code, in the flow it keeps the cookie of. -/
structure Returns (lib : Libraries) (cfg : LoginConfig) (request : Request) (flow : OAuthState)
    (code : String) : Prop where
  asks : Asks request flow.provider false
  query : ∃ pairs, request.search = "?" ++ queryText pairs ∧
    pairs.lookup "state" = some flow.state ∧ pairs.lookup "error" = none ∧
    pairs.lookup "code" = some code
  code_ne : code ≠ ""
  cookie : ∃ cookies, Carries request cookies ∧
    cookies.lookup oauthCookie = some (flowCookie lib cfg flow)

/-- The callback of a live flow comes to the identity that the provider yields. -/
theorem run_finishLogin (hlib : Faithful lib) {flow : OAuthState} {time : ℤ}
    (hbegun : Begun flow time) (hprovider : flow.provider = provider) {code : String}
    (hreturns : Returns lib cfg request flow code) {n m : ℕ} {w w' : World}
    (hlive : w.now < time + oauthTtlMs) {identity : Identity}
    (hidentity : run emit o (identityOf lib provider client cfg.auth code flow) n w =
      (.ok (some identity), m, w')) :
    run emit o (finishLogin lib provider client cfg.auth request) n w =
      (.ok (.ok identity flow.returnTo), m, w') := by
  obtain ⟨-, ⟨pairs, hsearch, hstate, herror, hcode⟩, hne, cookies, hcarries, hcookie⟩ := hreturns
  have hflow : «unseal» lib.hmac lib.flows cfg.auth.sessionSecret "oauth"
      (readCookie request oauthCookie) (Number.ofInt w.now) = some flow := by
    rw [readCookie_of_carries hcarries, hcookie]
    have hkeeps := hlib.flows flow time hbegun
    refine unseal_iff.mpr ⟨_, sealedAs hkeeps _ _, reads_b64url hkeeps, flow.exp, ?_, ?_⟩
    · rw [lib.flows_exp]
    · rw [hbegun.exp]
      exact Number.ofInt_lt_ofInt.mpr hlive
  -- the cookie is opened, is not expired and has the state of the address
  have hcheck : checkState lib provider cfg.auth request w.now = (some flow, true) := by
    unfold checkState
    rw [hflow, hsearch, searchParam_query, hstate]
    simp [hprovider, digestEquals_iff]
  have hdenied : ((searchParam request.search "error").any (· ≠ "")) = false := by
    rw [hsearch, searchParam_query, herror]
    rfl
  have hgiven : (searchParam request.search "code").filter (· ≠ "") = some code := by
    rw [hsearch, searchParam_query, hcode, Option.filter_some, if_pos (decide_eq_true hne)]
  have hnow : run emit o now n w = (.ok w.now, n, w) := rfl
  unfold finishLogin
  rw [run_bind, hnow]
  dsimp only
  rw [hcheck]
  dsimp only
  rw [hdenied, if_neg Bool.false_ne_true, hgiven]
  dsimp only
  rw [run_bind, run_attempt]
  -- the providers differ in nothing but their own part
  cases provider with
  | google =>
    have hrun : run emit o (googleIdentity lib client cfg.auth code flow) n w = _ := hidentity
    rw [hrun]
    rfl
  | github =>
    have hrun : run emit o (githubIdentity lib client cfg.auth code flow) n w = _ := hidentity
    rw [hrun]
    rfl

/-- The person is recorded, and the session is set. -/
theorem run_finish {identity : Identity} {returnTo : String} {n : ℕ} (w : World)
    (hrecord : o n (.portal (.store (.recordLogin identity))) = .ok ()) :
    ∃ session : Session, session.toIdentity = identity ∧
      session.exp = Number.ofInt (w.now + sessionTtlMs) ∧
      run emit o (Async.handle (answer lib cfg request) (finish lib cfg (.ok identity returnTo)))
          n w =
        (.ok (redirect returnTo [Auth.cookie oauthCookie "" 0,
          Auth.cookie sessionCookie (sessionValue lib cfg session) sessionTtlMs]), n + 2, w) := by
  have hask : run emit o (Async.handle (answer lib cfg request)
      (Portal.ask (.store (.recordLogin identity)))) n w =
      (.ok (o n (.portal (.store (.recordLogin identity)))), n + 1, w) := rfl
  -- one call to the store, then 16 random bytes
  have hstore : run emit o (Async.handle (answer lib cfg request)
      (callStore (.recordLogin identity))) n w = (.ok (), n + 1, w) := by
    unfold callStore
    rw [handle_bind, run_bind, hask, hrecord]
    rfl
  unfold finish
  dsimp only
  rw [handle_bind, run_bind, hstore]
  refine ⟨{ identity with
    sid := b64url (o (n + 1) (.portal (.random 16)))
    exp := Number.ofInt (w.now + sessionTtlMs) }, rfl, rfl, ?_⟩
  rw [sessionValue, ← runtime_sessions]
  rfl

/-- The first request begins a flow. -/
theorem run_login (hclient : cfg.client provider = some client) (hasks : Asks request provider true)
    (n : ℕ) (w : World) :
    ∃ flow, Begun flow w.now ∧ flow.provider = provider ∧
      flow.returnTo = returnPath (searchParam request.search "return") ∧
      run emit o (auth lib cfg request) n w =
        (.ok (consent lib client cfg.auth flow), n + 3, w) := by
  rw [auth_login hasks hclient, run_startLogin]
  exact ⟨_, ⟨rfl, returnPath_mem _⟩, rfl, rfl, rfl⟩

/-- The callback of a flow sets a session. -/
theorem run_callback (hlib : Faithful lib) {flow : OAuthState} {time : ℤ}
    (hbegun : Begun flow time) (hclient : cfg.client flow.provider = some client) {code : String}
    (hreturns : Returns lib cfg request flow code) {n m : ℕ} {w w' : World}
    (hlive : w.now < time + oauthTtlMs) {identity : Identity}
    (hidentity : run emit o (identityOf lib flow.provider client cfg.auth code flow) n w =
      (.ok (some identity), m, w'))
    (hrecord : o m (.portal (.store (.recordLogin identity))) = .ok ()) :
    ∃ session : Session, session.toIdentity = identity ∧
      session.exp = Number.ofInt (w'.now + sessionTtlMs) ∧
      run emit o (auth lib cfg request) n w =
        (.ok (redirect flow.returnTo [Auth.cookie oauthCookie "" 0,
          Auth.cookie sessionCookie (sessionValue lib cfg session) sessionTtlMs]), m + 2, w') := by
  obtain ⟨session, hperson, hexp, hfinish⟩ :=
    @run_finish lib cfg request _ _ flow.returnTo _ w' hrecord
  refine ⟨session, hperson, hexp, ?_⟩
  rw [auth_callback hreturns.asks hclient, run_bind,
    run_finishLogin hlib hbegun rfl hreturns hlive hidentity]
  exact hfinish

/-- A session that is set is taken for it until it expires. -/
theorem readSession_eq (hlib : Faithful lib) (hsecret : cfg.auth.sessionSecret ≠ "")
    {session : Session} {exp : ℤ} (hexp : session.exp = Number.ofInt exp)
    {cookies : List (String × String)} (hcarries : Carries request cookies)
    (hcookie : cookies.lookup sessionCookie = some (sessionValue lib cfg session)) {now : ℤ}
    (hlive : now < exp) :
    Portal.readSession lib.runtime cfg.toPortalConfig request now = some session := by
  have hkeeps := hlib.sessions session _ hexp
  unfold Portal.readSession Auth.readSession
  rw [if_neg hsecret, runtime_sessions, readCookie_of_carries hcarries, hcookie]
  refine unseal_iff.mpr ⟨_, sealedAs hkeeps _ _, reads_b64url hkeeps, session.exp, ?_, ?_⟩
  · rw [lib.sessions_exp]
  · rw [hexp]
    exact Number.ofInt_lt_ofInt.mpr hlive

/-- **An honest login completes.** The first request is sent on to the provider's consent page with
a fresh state and the challenge of its verifier, and sets the cookie of the flow. Whatever happens
then: when the browser comes back within ten minutes, with this state, a code and its cookie, and
the provider vouches for an identity in this flow, it is sent to the page it came for with a session
of that identity, and every request that shows the session is taken for that identity until twelve
hours are over. -/
theorem login_completes (hlib : Faithful lib) (hsecret : cfg.auth.sessionSecret ≠ "")
    (hclient : cfg.client provider = some client) (hasks : Asks request provider true) (n : ℕ)
    (w : World) :
    ∃ flow search response, run emit o (auth lib cfg request) n w = (.ok response, n + 3, w) ∧
      flow.provider = provider ∧
      flow.returnTo = returnPath (searchParam request.search "return") ∧
      location response = some (consentPage provider ++ search) ∧
      searchParam search "state" = some flow.state ∧
      searchParam search "code_challenge" = some (pkceChallenge lib flow.verifier) ∧
      setCookies response = [(oauthCookie, flowCookie lib cfg flow)] ∧
      ∀ callback code n' w' identity m w'', Returns lib cfg callback flow code →
        w'.now < w.now + oauthTtlMs →
        run emit o (identityOf lib provider client cfg.auth code flow) n' w' =
          (.ok (some identity), m, w'') →
        o m (.portal (.store (.recordLogin identity))) = .ok () →
        ∃ session reply, run emit o (auth lib cfg callback) n' w' = (.ok reply, m + 2, w'') ∧
          location reply = some flow.returnTo ∧ session.toIdentity = identity ∧
          setCookies reply = [(oauthCookie, ""), (sessionCookie, sessionValue lib cfg session)] ∧
          ∀ later cookies now, Carries later cookies →
            cookies.lookup sessionCookie = some (sessionValue lib cfg session) →
            now < w''.now + sessionTtlMs →
            Portal.readSession lib.runtime cfg.toPortalConfig later now = some session := by
  obtain ⟨flow, hbegun, hprovider, hreturn, hlogin⟩ :=
    @run_login lib _ _ _ _ o hclient hasks n w
  obtain ⟨hstate, hchallenge⟩ := @consentParams_lookup lib cfg client flow
  refine ⟨flow, "?" ++ queryText (consentParams lib client cfg.auth flow), _, hlogin, hprovider,
    hreturn, ?_, ?_, ?_, ?_, ?_⟩
  · rw [← hprovider]
    show some _ = some _
    rw [String.append_assoc]
  · rw [searchParam_query, hstate]
  · rw [searchParam_query, hchallenge]
  · exact setCookies_consent client flow
  · -- the callback is a run of its own, from any later world
    intro callback code n' w' identity m w'' hreturns hlive hidentity hrecord
    subst hprovider
    obtain ⟨session, hperson, hexp, hcallback⟩ :=
      run_callback hlib hbegun hclient hreturns hlive hidentity hrecord
    exact ⟨session, _, hcallback, rfl, hperson, setCookies_finish flow.returnTo session,
      fun later cookies now hcarries hcookie hlater =>
        readSession_eq hlib hsecret hexp hcarries hcookie hlater⟩

end Completes

/-! ### GitHub's token -/

section Token

variable {cfg : AuthConfig} {code token basic : String} {flow : OAuthState}

/-- The reads go to GitHub's API, with the token. -/
theorem quiet_githubReads : (githubReads lib cfg token).Quiet fun q =>
    ∃ path, q = .fetch (githubGet token path) := by
  refine Quiet.bind (Quiet.bind ⟨⟨_, rfl⟩, fun _ => trivial⟩ fun reply => quiet_ofExcept _)
    fun userRes => ?_
  split
  · exact quiet_throw _
  refine Quiet.bind (quiet_ofExcept _) fun user => Quiet.bind (quiet_ofExcept _) fun id =>
    Quiet.bind (quiet_ofExcept _) fun login => Quiet.bind (quiet_ofExcept _) fun name => ?_
  split
  · refine Quiet.bind ⟨⟨_, rfl⟩, fun _ => trivial⟩ fun emailsRes =>
      Quiet.bind ⟨⟨_, rfl⟩, fun _ => trivial⟩ fun memberRes => ?_
    exact Quiet.bind (quiet_ofExcept _) fun _ => Quiet.bind (quiet_ofExcept _) fun _ =>
      quiet_ofExcept _
  · exact quiet_throw _

/-- What is cleaned up after, however it ends. -/
theorem transcript_finallyDo {α : Type} {p : Prog α} {cleanup : Prog Unit}
    {es : List ((q : Query) × q.Answer)} {r : Except String α}
    (h : (finallyDo p cleanup).Transcript es r) :
    ∃ es₁ r₁ es₂ r₂, p.Transcript es₁ r₁ ∧ cleanup.Transcript es₂ r₂ ∧ es = es₁ ++ es₂ ∧
      (r₂ = .ok () → r = r₁) := by
  obtain ⟨es₁, x, hattempt, hrest⟩ := transcript_bind.mp h
  obtain ⟨r₁, rfl, hp⟩ := transcript_attempt.mp hattempt
  obtain ⟨es', rfl, hrest⟩ := hrest
  obtain ⟨es₂, r₂, hcleanup, hend⟩ := transcript_bind.mp hrest
  refine ⟨es₁, r₁, es₂, r₂, hp, hcleanup, ?_, ?_⟩
  · cases r₂ with
    | ok u =>
      obtain ⟨es₃, rfl, hlast⟩ := hend
      rw [(transcript_ofExcept.mp hlast).1, List.append_nil]
    | error e => rw [hend.1]
  · rintro rfl
    obtain ⟨es₃, rfl, hlast⟩ := hend
    exact (transcript_ofExcept.mp hlast).2

theorem transcript_revoke {es : List ((q : Query) × q.Answer)} {r : Except String Unit}
    (hbasic : btoa (client.clientId ++ ":" ++ client.clientSecret) = .ok basic)
    (h : (revoke client token).Transcript es r) :
    ∃ answer, es = [⟨.fetch (revokeRequest client token basic), answer⟩] ∧ r = .ok () := by
  unfold revoke at h
  rw [hbasic] at h
  obtain ⟨answer, es', rfl, rfl, hr⟩ := h
  exact ⟨answer, rfl, hr⟩

/-- A form is posted once. -/
theorem transcript_postForm {url : String} {form : List (String × String)}
    {es : List ((q : Query) × q.Answer)} {r : Except String Json}
    (h : (postForm lib url form).Transcript es r) :
    ∃ reply, es = [⟨.fetch (postFormRequest url form), reply⟩] ∧ r = reply >>= tokens lib := by
  obtain ⟨reply, es', rfl, hreply⟩ := h
  cases reply with
  | error e =>
    obtain ⟨rfl, rfl⟩ := hreply
    exact ⟨_, rfl, rfl⟩
  | ok reply =>
    obtain ⟨rfl, rfl⟩ := transcript_ofExcept.mp hreply
    exact ⟨_, rfl, rfl⟩

/-- **GitHub's token does not outlive the reads it was for.** Either the code yields no token, and
nothing else is fetched; or the token goes to GitHub's API only, and is revoked last, however the
reads end, and the revocation does not change how the login ends. -/
theorem token_revoked (hbasic : btoa (client.clientId ++ ":" ++ client.clientSecret) = .ok basic)
    {es : List ((q : Query) × q.Answer)} {r : Except String (Option Identity)}
    (h : (githubIdentity lib client cfg code flow).Transcript es r) :
    (∃ reply e, es = [⟨.fetch (githubExchange client cfg code flow), reply⟩] ∧ r = .error e) ∨
      ∃ reply token reads answer,
        es = ⟨.fetch (githubExchange client cfg code flow), .ok reply⟩ :: reads ++
          [⟨.fetch (revokeRequest client token basic), answer⟩] ∧
        (tokens lib reply >>= fun body => property body "access_token") = .ok (some (.str token)) ∧
        (∀ e ∈ reads, ∃ path, e.1 = .fetch (githubGet token path)) ∧
        (githubReads lib cfg token).Transcript reads r := by
  unfold githubIdentity at h
  obtain ⟨es₁, x, hpost, hrest⟩ := transcript_bind.mp h
  obtain ⟨reply, rfl, rfl⟩ := transcript_postForm hpost
  clear h
  cases reply with
  | error e =>
    obtain ⟨rfl, rfl⟩ := hrest
    exact .inl ⟨_, _, rfl, rfl⟩
  | ok reply =>
    cases htokens : tokens lib reply with
    | error e =>
      rw [show (Except.ok reply >>= tokens lib) = .error e from htokens] at hrest
      obtain ⟨rfl, rfl⟩ := hrest
      exact .inl ⟨_, _, rfl, rfl⟩
    | ok body =>
      rw [show (Except.ok reply >>= tokens lib) = .ok body from htokens] at hrest
      obtain ⟨es, rfl, h⟩ := hrest
      -- what fails before there is a token ends the login at once
      have hfail : ∀ e, es = [] ∧ r = .error e → (∃ reply' e,
          [⟨.fetch (githubExchange client cfg code flow), .ok reply⟩] ++ es =
            ([⟨.fetch (githubExchange client cfg code flow), reply'⟩] :
              List ((q : Query) × q.Answer)) ∧ r = .error e) := by
        rintro e ⟨rfl, rfl⟩
        exact ⟨_, _, rfl, rfl⟩
      cases htoken : property body "access_token" with
      | error e =>
        have h : (Async.ofExcept (property body "access_token") >>= _ : Prog _).Transcript es r := h
        rw [htoken] at h
        exact .inl (hfail e h)
      | ok value =>
        have h : (Async.ofExcept (property body "access_token") >>= _ : Prog _).Transcript es r := h
        rw [htoken] at h
        rcases value with _ | value
        · exact .inl (hfail _ h)
        cases value with
        | str token =>
          have h : (if token = "" then .throw "token response had no access_token"
            else finallyDo (githubReads lib cfg token) (revoke client token) :
              Prog (Option Identity)).Transcript es r := h
          split at h
          · exact .inl (hfail _ h)
          · obtain ⟨reads, r₁, es₂, r₂, hreads, hrevoke, rfl, hr⟩ := transcript_finallyDo h
            obtain ⟨answer, rfl, hdone⟩ := transcript_revoke hbasic hrevoke
            refine .inr ⟨reply, token, reads, answer, rfl, ?_, ?_, ?_⟩
            · rw [htokens]
              exact htoken
            · exact quiet_githubReads.of_mem_transcript hreads
            · rw [hr hdone]
              exact hreads
        | null | bool _ | num _ | arr _ | obj _ => exact .inl (hfail _ h)

end Token

/-! ### Ann signs in with GitHub -/

section Sample

instance countable_char : Countable Char :=
  Function.Injective.countable fun _ _ h => Char.toNat_inj.mp h

instance countable_string : Countable String :=
  Function.Injective.countable fun _ _ h => String.toList_inj.mp h

instance : Countable Number := inferInstanceAs (Countable (Option (Option ℚ)))

instance : Countable Auth.Provider :=
  Function.Injective.countable (f := fun p : Auth.Provider => decide (p = .google))
    fun p p' h => by cases p <;> cases p' <;> first | rfl | cases h

instance : Countable OAuthState := by
  refine Function.Injective.countable (f := fun flow =>
    (flow.provider, flow.state, flow.nonce, flow.verifier, flow.returnTo, flow.exp)) ?_
  rintro ⟨_, _, _, _, _, _⟩ ⟨_, _, _, _, _, _⟩ h
  cases h
  rfl

instance : Countable Session := by
  refine Function.Injective.countable (f := fun session => (session.id, session.provider,
    session.email, session.name, session.login, session.sid, session.exp)) ?_
  rintro ⟨⟨_, _, _, _, _⟩, _, _⟩ ⟨⟨_, _, _, _, _⟩, _, _⟩ h
  cases h
  rfl

/-- Countably many values have texts of their own. -/
theorem exists_codec {T : Type} [Countable T] (exp : T → Option Number) :
    ∃ codec : JsonCodec T, codec.exp = exp ∧ ∀ value, codec.Keeps value := by
  classical
  obtain ⟨f, hf⟩ := exists_injective_nat T
  let stringify : T → String := fun value => String.ofList ('{' :: List.replicate (f value) ' ')
  have hinj : Function.Injective stringify := by
    intro a b h
    have hlength := congrArg (fun s : String => s.toList.length) h
    simp only [stringify, String.toList_ofList, List.length_cons, List.length_replicate] at hlength
    exact hf (Nat.succ.inj hlength)
  refine ⟨⟨stringify, fun text => if h : ∃ value, stringify value = text then .ok h.choose
    else .error "SyntaxError", exp⟩, rfl, fun value => ⟨?_, ?_⟩⟩
  · have hsome : ∃ v, stringify v = stringify value := ⟨value, rfl⟩
    show (if h : ∃ v, stringify v = stringify value then _ else _) = _
    rw [dif_pos hsome, hinj hsome.choose_spec]
  · exact congrArg List.head? String.toList_ofList

/-- A MAC that shows the first byte of its message. -/
def sampleHmac (_ message : List ℕ) : List ℕ := List.replicate 32 (message.headD 0 % 256)

def sampleLibraries (sessions : JsonCodec Session) (flows : JsonCodec OAuthState)
    (sessions_exp : sessions.exp = fun session => some session.exp)
    (flows_exp : flows.exp = fun flow => some flow.exp) : Libraries where
  hmac := sampleHmac
  digest _ message := ⟨List.length_replicate, fun b hb => by
    rw [List.eq_of_mem_replicate hb]
    omega⟩
  sha256 message := message
  sessions := sessions
  sessions_exp := sessions_exp
  flows := flows
  flows_exp := flows_exp
  parseJson _ := .error "SyntaxError"
  toLowerCase text := text
  toUpperCase text := text
  hostOf origin := origin
  numberText _ := "7"
  templateText _ := ""
  importable _ := false
  verify _ _ _ := false

theorem exists_sample : ∃ lib : Libraries, Faithful lib ∧ lib.hmac = sampleHmac ∧
    lib.toLowerCase = id ∧ lib.numberText = fun _ => "7" := by
  obtain ⟨sessions, hsessions, hkeepsSession⟩ :=
    exists_codec fun session : Session => some session.exp
  obtain ⟨flows, hflows, hkeepsFlow⟩ := exists_codec fun flow : OAuthState => some flow.exp
  exact ⟨sampleLibraries sessions flows hsessions hflows,
    ⟨fun flow _ _ => hkeepsFlow flow, fun session _ _ => hkeepsSession session⟩, rfl, rfl, rfl⟩

def sampleClient : OAuthClient := ⟨"client", "secret"⟩

def sampleConfig : LoginConfig where
  auth :=
    { origin := "https://faucet.example", sessionSecret := "secret", emailDomain := "dash.org"
      githubOrg := "dashpay", admins := [], configured := fun p => decide (p = .github)
      keyTtlMs := 0, maxKeysPerUser := 1 }
  enabled := true
  adminTokenSha256 := ""
  maxPerRequestSats := 0
  client provider := if provider = .github then some sampleClient else none
  configured provider := by cases provider <;> rfl

/-- GitHub knows Ann, a member of the organization. -/
def sampleReply (request : Fetch) : FetchReply :=
  if request.method = "POST" then ⟨200, .ok (.obj [("access_token", .str "token")])⟩
  else if request.url = "https://api.github.com/user" then
    ⟨200, .ok (.obj [("id", .num (Number.ofInt 7)), ("login", .str "ann")])⟩
  else if request.url = "https://api.github.com/user/emails" then ⟨200, .ok (.arr [])⟩
  else ⟨200, .ok (.obj [("state", .str "active"),
    ("organization", .obj [("login", .str "dashpay")])])⟩

def sampleAnswer : (q : Query) → q.Answer
  | .fetch request => .ok (sampleReply request)
  | .portal (.random count) => List.replicate count 7
  | .portal (.store (.recordLogin _)) => .ok ()
  | .portal (.store _) | .portal .asset => .error "unavailable"
  | .portal (.startLogin ..) => { status := 404, headers := [] }
  | .portal (.finishLogin _) => .error "state" "/keys"
  | .portal .clock => (0 : ℤ)

def ann : Identity where
  id := "github:7"
  provider := .github
  email := "ann@users.noreply.github.com"
  name := "ann"
  login := some "ann"

/-- A page opened in a browser that keeps these cookies. -/
def visit (path search : String) (cookies : List (String × String)) : Request where
  method := "GET"
  path := path
  host := "faucet.example"
  search := search
  header name := if name = "Cookie" then some (cookieHeader cookies) else none
  body := .error "no body"

theorem run_ann {lib : Libraries} (hlower : lib.toLowerCase = id)
    (hnumber : lib.numberText = fun _ => "7") (flow : OAuthState) (n : ℕ) (w : World) :
    ∃ heard, run emit (fun _ => sampleAnswer)
        (identityOf lib .github sampleClient sampleConfig.auth "code" flow) n w =
      (.ok (some ann), n + 5, { w with heard := heard }) := by
  cases lib
  cases hlower
  cases hnumber
  exact ⟨_, rfl⟩

theorem carries_visit (path search : String) {name value : String} (hname : name ≠ "")
    (htoken : IsToken name) (hvalue : IsToken value) :
    Carries (visit path search [(name, value)]) [(name, value)] where
  header := rfl
  names pair hpair := by
    cases List.mem_singleton.mp hpair
    exact ⟨hname, htoken⟩
  values pair hpair := by
    cases List.mem_singleton.mp hpair
    exact hvalue.isValue

/-- The callback of a flow with GitHub. -/
def returning (lib : Libraries) (flow : OAuthState) : Request :=
  visit "/auth/github/callback" ("?" ++ queryText [("code", "code"), ("state", flow.state)])
    [(oauthCookie, flowCookie lib sampleConfig flow)]

theorem returns_returning {lib : Libraries} {flow : OAuthState} (hflow : flow.provider = .github) :
    Returns lib sampleConfig (returning lib flow) flow "code" where
  asks := ⟨rfl, by rw [hflow]; rfl⟩
  query := ⟨_, rfl, rfl, rfl, rfl⟩
  code_ne := by decide
  cookie := ⟨_, carries_visit _ _ (by decide) isToken_oauthCookie (isToken_seal lib _ _ _ _), rfl⟩

/-- Ann comes from no page of ours, and is sent to `/keys` with a session of hers. -/
theorem login_completes_ann : ∃ (lib : Libraries) (callback later : Request)
    (response reply : Response) (w : World) (session : Session),
    run emit (fun _ => sampleAnswer)
        (auth lib sampleConfig (visit "/auth/github/login" "" [])) 0 (World.fresh 0) =
      (.ok response, 3, World.fresh 0) ∧
    run emit (fun _ => sampleAnswer) (auth lib sampleConfig callback) 3 (World.fresh 0) =
      (.ok reply, 10, w) ∧
    location reply = some "/keys" ∧
    Portal.readSession lib.runtime sampleConfig.toPortalConfig later 0 = some session ∧
    session.toIdentity = ann := by
  obtain ⟨lib, hlib, -, hlower, hnumber⟩ := exists_sample
  obtain ⟨flow, search, response, hlogin, hprovider, hreturn, -, -, -, -, hcompletes⟩ :=
    @login_completes lib sampleConfig (visit "/auth/github/login" "" []) .github sampleClient
      (fun _ => sampleAnswer) hlib (by decide) rfl ⟨rfl, rfl⟩ 0 (World.fresh 0)
  -- what the sample answers make of the code
  obtain ⟨heard, hidentity⟩ := run_ann hlower hnumber flow 3 (World.fresh 0)
  obtain ⟨session, reply, hcallback, hlocation, hperson, -, hshown⟩ :=
    hcompletes (returning lib flow) "code" 3 (World.fresh 0) ann 8 _ (returns_returning hprovider)
      (by decide) hidentity rfl
  refine ⟨lib, returning lib flow,
    visit "/keys" "" [(sessionCookie, sessionValue lib sampleConfig session)], response, reply, _,
    session, hlogin, hcallback, ?_, ?_, hperson⟩
  · rw [hlocation, hreturn]
    rfl
  · exact hshown _ _ 0 (carries_visit _ _ (by decide) isToken_sessionCookie
      (isToken_seal lib _ _ _ _)) rfl
      (show (0 : ℤ) < 0 + sessionTtlMs by decide)

/-- Ann's token is revoked after the reads that let her in. -/
theorem token_revoked_ann : ∃ (lib : Libraries) (flow : OAuthState)
    (es : List ((q : Query) × q.Answer)),
    (githubIdentity lib sampleClient sampleConfig.auth "code" flow).Transcript es
      (.ok (some ann)) ∧
    ∃ reply token reads answer,
      es = ⟨.fetch (githubExchange sampleClient sampleConfig.auth "code" flow), .ok reply⟩ ::
        reads ++ [⟨.fetch (revokeRequest sampleClient token "Y2xpZW50OnNlY3JldA=="), answer⟩] := by
  obtain ⟨lib, -, -, hlower, hnumber⟩ := exists_sample
  obtain ⟨flow, hflow⟩ : ∃ flow, flow = firstFlow .github none [] [] [] 0 := ⟨_, rfl⟩
  -- the exchange, three reads and a revocation that times out
  have htranscript : ∃ es,
      (githubIdentity lib sampleClient sampleConfig.auth "code" flow).Transcript es
        (.ok (some ann)) := by
    cases lib
    cases hlower
    cases hnumber
    exact ⟨_, .ok (sampleReply (githubExchange sampleClient sampleConfig.auth "code" flow)), _, rfl,
      .ok (sampleReply (githubGet "token" "/user")), _, rfl,
      .ok (sampleReply (githubGet "token" "/user/emails")), _, rfl,
      .ok (sampleReply (githubGet "token" (membershipPath sampleConfig.auth))), _, rfl,
      .error "timeout", _, rfl, rfl, rfl⟩
  obtain ⟨es, hes⟩ := htranscript
  obtain ⟨reply, e, -, hr⟩ | ⟨reply, token, reads, answer, heq, -, -, -⟩ :=
    token_revoked (by decide : btoa (sampleClient.clientId ++ ":" ++ sampleClient.clientSecret) =
      .ok "Y2xpZW50OnNlY3JldA==") hes
  · cases hr
  · exact ⟨lib, flow, es, hes, reply, token, reads, answer, heq⟩

end Sample

end DashFaucet.Login

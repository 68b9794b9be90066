import DashFaucet.LoginTrip

/-!
# Runs of the login

`/auth/*` as a server: any number of requests at once, from browsers and from anybody else, while
time passes. Whoever sends a request may put anything into it but a MAC under the secret that no
reply gave away: `Unforged`.

* `flow_of_unseal`, `session_of_unseal`: what a request's cookies stand for.
* `keeps_finishLogin`, `keeps_auth`: whatever a request is, the cookies of its reply are accounted
  for.
* `site`: the server. `Sound.of_reached`: its record stays sound over every run.
* `session_traces`: whoever shows a session signed in, within its twelve hours.
-/

namespace DashFaucet.Login

open Async Auth Portal

variable {lib : Libraries} {cfg : LoginConfig}

/-! ### What is shown -/

/-- Whoever sent the request, it carries no MAC that was not given away: what verifies as a flow was
set as one, and what verifies as a session was set as one. -/
structure Unforged (lib : Libraries) (cfg : LoginConfig) (request : Request) (w : World) :
    Prop where
  flow : ∀ name payload, readCookie request name = some (token lib cfg "oauth" payload) →
    (oauthCookie, token lib cfg "oauth" payload) ∈ w.cookies
  session : ∀ name payload, readCookie request name = some (token lib cfg "session" payload) →
    (sessionCookie, token lib cfg "session" payload) ∈ w.cookies

theorem stable_unforged (request : Request) : Stable (Unforged lib cfg request) :=
  fun _ _ h hu => ⟨fun name payload hcookie => h.cookies (hu.flow name payload hcookie),
    fun name payload hcookie => h.cookies (hu.session name payload hcookie)⟩

theorem sealed_ne_empty {purpose payload : String}
    (h : SealedAs lib.hmac cfg.auth.sessionSecret purpose payload "") : False :=
  absurd (congrArg List.length h.split) (by decide : (1 : ℕ) ≠ 2)

/-- A token has one payload. -/
theorem sealed_unique {purpose payload payload' value : String}
    (h : SealedAs lib.hmac cfg.auth.sessionSecret purpose payload value)
    (h' : SealedAs lib.hmac cfg.auth.sessionSecret purpose payload' value) :
    payload = payload' := by
  have hsplit := h.split
  rw [h'.split] at hsplit
  exact (String.toList_inj.mp (List.cons.inj hsplit).1).symm

section Sealed

variable (hlib : Faithful lib) {w : World} (hsound : Sound lib cfg w) {request : Request}
  (hunforged : Unforged lib cfg request w)

include hlib hsound hunforged

/-- **A flow that a request shows is one that a reply began.** -/
theorem flow_of_unseal {name : String} {now : ℤ} {flow : OAuthState}
    (h : «unseal» lib.hmac lib.flows cfg.auth.sessionSecret "oauth" (readCookie request name)
      (Number.ofInt now) = some flow) :
    readCookie request name = some (flowCookie lib cfg flow) ∧
      ∃ start ∈ w.served, (oauthCookie, flowCookie lib cfg flow) ∈ setCookies start.response ∧
        start.time ≤ w.now ∧ Begun flow start.time ∧ now < start.time + oauthTtlMs := by
  cases hcookie : readCookie request name with
  | none =>
    rw [hcookie] at h
    cases h
  | some value =>
    rw [hcookie] at h
    obtain ⟨payload, hsealed, hreads, exp, hexp, hlive⟩ := unseal_iff.mp h
    have hset := hunforged.flow name payload (hcookie.trans (congrArg some hsealed.eq))
    rw [← show value = token lib cfg "oauth" payload from hsealed.eq] at hset
    obtain ⟨start, hstart, hset⟩ := List.mem_flatMap.mp hset
    -- a cookie that was set is a flow, a session or empty; only a flow is sealed for this purpose
    cases hsound.issued start hstart _ hset with
    | cleared empty =>
      have hempty : value = "" := empty
      exact (sealed_ne_empty (hempty ▸ hsealed)).elim
    | session session login name_eq sealed =>
      exact absurd name_eq (by decide : oauthCookie ≠ sessionCookie)
    | flow flow' begun name_eq sealed =>
      have hvalue : value = flowCookie lib cfg flow' := sealed
      have hkeeps := hlib.flows flow' start.time begun
      have hother : SealedAs lib.hmac cfg.auth.sessionSecret "oauth" _ (flowCookie lib cfg flow') :=
        sealedAs hkeeps _ _
      rw [← hvalue] at hother
      -- what is sealed in it can be only one thing
      obtain rfl := sealed_unique hsealed hother
      obtain rfl := hreads.unique (reads_b64url hkeeps)
      refine ⟨congrArg some hvalue, start, hstart, hvalue ▸ hset, hsound.past start hstart, begun,
        ?_⟩
      rw [lib.flows_exp] at hexp
      have hexp := Option.some.inj hexp
      rw [← hexp, begun.exp] at hlive
      exact Number.ofInt_lt_ofInt.mp hlive

/-- **A session that a request shows was opened by a reply.** -/
theorem session_of_unseal {name : String} {now : ℤ} {session : Session}
    (h : «unseal» lib.hmac lib.sessions cfg.auth.sessionSecret "session" (readCookie request name)
      (Number.ofInt now) = some session) :
    ∃ reply ∈ w.served, (sessionCookie, sessionValue lib cfg session) ∈ setCookies reply.response ∧
      LoggedIn lib cfg w session reply ∧ Number.ofInt now < session.exp := by
  cases hcookie : readCookie request name with
  | none =>
    rw [hcookie] at h
    cases h
  | some value =>
    rw [hcookie] at h
    obtain ⟨payload, hsealed, hreads, exp, hexp, hlive⟩ := unseal_iff.mp h
    have hset := hunforged.session name payload (hcookie.trans (congrArg some hsealed.eq))
    rw [← show value = token lib cfg "session" payload from hsealed.eq] at hset
    rw [lib.sessions_exp] at hexp
    obtain ⟨reply, hreply, hset⟩ := List.mem_flatMap.mp hset
    -- as for flows, with the other purpose
    cases hsound.issued reply hreply _ hset with
    | cleared empty =>
      have hempty : value = "" := empty
      exact (sealed_ne_empty (hempty ▸ hsealed)).elim
    | flow flow begun name_eq sealed =>
      exact absurd name_eq (by decide : sessionCookie ≠ oauthCookie)
    | session session' login name_eq sealed =>
      have hvalue : value = sessionValue lib cfg session' := sealed
      have hkeeps := hlib.sessions session' _ login.exp
      have hother : SealedAs lib.hmac cfg.auth.sessionSecret "session" _
          (sessionValue lib cfg session') := sealedAs hkeeps _ _
      rw [← hvalue] at hother
      obtain rfl := sealed_unique hsealed hother
      obtain rfl := hreads.unique (reads_b64url hkeeps)
      exact ⟨reply, hreply, hvalue ▸ hset, login, Option.some.inj hexp ▸ hlive⟩

end Sealed

/-! ### The steps -/

section Steps

variable {request : Request}

/-- After a look at the clock, with the world of that instant. -/
theorem keeps_bind_look {F : World → Prop} {α : Type} {f : ℤ → Prog α}
    {Post : Except String α → World → Prop}
    (h : ∀ w, Sound lib cfg w → F w → KeepsLogin lib cfg w.Grows (f w.now) Post) :
    KeepsLogin lib cfg F (now >>= f) Post :=
  fun w₀ w hR hw => h w hw.1 hw.2 w₀ w hR ⟨hw.1, .refl w⟩

/-- A request that has just come. -/
def Coming (lib : Libraries) (cfg : LoginConfig) (request : Request) (w : World) : Prop :=
  Unforged lib cfg request w ∧ (request, w.now) ∈ w.came

theorem stable_grows (w : World) : Stable fun w' => w.Grows w' := fun _ _ h hw => hw.trans h

/-- How the login of a callback may end. -/
def Ended (lib : Libraries) (cfg : LoginConfig) (request : Request) (w : World) :
    LoginOutcome → Prop
  | .ok identity returnTo => returnTo ∈ returnPaths ∧
      ∃ flow began came, Completed lib cfg w flow identity request began came ∧ came ≤ w.now
  | .error _ returnTo => returnTo ∈ returnPaths

theorem Ended.mono {w w' : World} (h : w.Grows w') {outcome : LoginOutcome}
    (he : Ended lib cfg request w outcome) : Ended lib cfg request w' outcome := by
  cases outcome with
  | ok identity returnTo =>
    obtain ⟨hreturn, flow, began, came, hcompleted, hle⟩ := he
    exact ⟨hreturn, flow, began, came, hcompleted.mono h, hle.trans h.now⟩
  | error error returnTo => exact he

/-- Either provider vouches for the identity it yields. -/
theorem keeps_identity {F : World → Prop} (hF : Stable F) (provider : Auth.Provider)
    (client : OAuthClient) (code : String) (flow : OAuthState) :
    KeepsLogin lib cfg F (match provider with
        | .google => googleIdentity lib client cfg.auth code flow
        | .github => githubIdentity lib client cfg.auth code flow) fun x w =>
      F w ∧ ∀ identity, x = .ok (some identity) → Vouched lib cfg w client flow identity ∧
        identity.provider = provider := by
  cases provider with
  | google => exact keeps_google hF client code flow
  | github => exact keeps_github hF client code flow

/-- **A callback yields an identity only at the end of its own flow.** -/
theorem keeps_finishLogin (hlib : Faithful lib) {provider : Auth.Provider} {client : OAuthClient}
    (hclient : cfg.client provider = some client) :
    KeepsLogin lib cfg (Coming lib cfg request) (finishLogin lib provider client cfg.auth request)
      fun x w => ∃ outcome, x = .ok outcome ∧ Ended lib cfg request w outcome := by
  refine keeps_bind_look fun w hsound hcoming => ?_
  obtain ⟨hunforged, harrived⟩ := hcoming
  have hkeys : "/keys" ∈ returnPaths := by decide
  rcases hcheck : checkState lib provider cfg.auth request w.now with ⟨flow, matches_⟩
  have hflow : flow = «unseal» lib.hmac lib.flows cfg.auth.sessionSecret "oauth"
      (readCookie request oauthCookie) (Number.ofInt w.now) := (congrArg Prod.fst hcheck).symm
  -- the cookie, when it has one, is of a flow that began here
  have hbegan : ∀ f, flow = some f → readCookie request oauthCookie = some (flowCookie lib cfg f) ∧
      ∃ start ∈ w.served, (oauthCookie, flowCookie lib cfg f) ∈ setCookies start.response ∧
        start.time ≤ w.now ∧ Begun f start.time ∧ w.now < start.time + oauthTtlMs :=
    fun f hf => flow_of_unseal hlib hsound hunforged (hflow.symm.trans hf)
  split
  · next f heq =>
    obtain ⟨rfl, rfl⟩ := Prod.mk.inj heq
    obtain ⟨hcookie, start, hstart, hset, hpast, hbegun, hlive⟩ := hbegan f rfl
    have hstate : f.provider = provider ∧
        (searchParam request.search "state").getD "" = f.state := by
      have hany := congrArg Prod.snd hcheck
      unfold checkState at hany
      dsimp only at hany
      rw [← hflow] at hany
      simpa [digestEquals_iff] using hany
    split
    · exact Keeps.pure fun w' hw => ⟨hw.1, _, rfl, hbegun.returnTo⟩
    split
    · exact Keeps.pure fun w' hw => ⟨hw.1, _, rfl, hbegun.returnTo⟩
    next code hcode =>
      refine Keeps.bind (M := fun x w' => Sound lib cfg w' ∧ ∃ r, x = .ok r ∧ w.Grows w' ∧
          ∀ identity, r = .ok (some identity) → Vouched lib cfg w' client f identity ∧
            identity.provider = provider)
        (Keeps.attempt ?_) (fun r => Keeps.pure ?_) ?_
      · exact (keeps_identity (stable_grows w) provider client code f).mono (fun _ hw => hw)
          fun x w' hw => ⟨x, rfl, hw⟩
      · rintro w' ⟨hsound', r', hr, hgrows, hvouched⟩
        cases hr
        refine ⟨hsound', _, rfl, ?_⟩
        split
        · next identity =>
          obtain ⟨hv, hprovider⟩ := hvouched identity rfl
          obtain ⟨hfp, hs⟩ := hstate
          exact ⟨hbegun.returnTo, f, start.time, w.now, ⟨⟨start, hgrows.served hstart, rfl, hset⟩,
            hbegun, hgrows.came harrived, ⟨hpast, hlive⟩, ⟨hcookie, hs⟩,
            ⟨client, hfp ▸ hclient, hv⟩, hprovider.trans hfp.symm⟩, hgrows.now⟩
        · exact hbegun.returnTo
        · exact hbegun.returnTo
      · rintro e w' ⟨-, r, hr, -⟩
        cases hr
  · next flow' _ _ heq =>
    refine Keeps.pure fun w' hw => ⟨hw.1, _, rfl, ?_⟩
    obtain ⟨rfl, -⟩ := Prod.mk.inj heq
    cases flow with
    | none => exact hkeys
    | some f =>
      obtain ⟨-, start, -, -, -, hbegun, -⟩ := hbegan f rfl
      exact hbegun.returnTo

theorem setCookies_errorJson (status : ℕ) (error : String) :
    setCookies (errorJson status error []) = [] := by
  have hnames : ((("content-type", "application/json") :: cors ++ []).filter
      fun header : String × String => header.1 = "Set-Cookie") = [] := by decide
  show ((("content-type", "application/json") :: cors ++ []).filter _).map _ = _
  rw [hnames]
  rfl

/-- The cookies of a reply of this instant are accounted for. -/
def Accounted (lib : Libraries) (cfg : LoginConfig) (request : Request)
    (x : Except String Response) (w : World) : Prop :=
  ∀ response, x = .ok response → ∀ cookie ∈ setCookies response,
    Issued lib cfg w ⟨request, response, w.now⟩ cookie.1 cookie.2

theorem accounted_errorJson (status : ℕ) (error : String) (w : World) :
    Accounted lib cfg request (.ok (errorJson status error [])) w := by
  rintro response hresponse cookie hmem
  cases hresponse
  rw [setCookies_errorJson] at hmem
  cases hmem

theorem keeps_startLogin {F : World → Prop} (hF : Stable F) (provider : Auth.Provider)
    (client : OAuthClient) (returnParam : Option String) :
    KeepsLogin lib cfg F (startLogin lib provider client cfg.auth returnParam)
      (Accounted lib cfg request) := by
  refine keeps_bind_ask hF fun state => keeps_bind_ask hF fun nonce =>
    keeps_bind_ask hF fun verifier => keeps_bind_instant fun w => Keeps.pure ?_
  rintro _ ⟨hsound, -, rfl⟩
  refine ⟨hsound, ?_⟩
  rintro response hresponse cookie hmem
  cases hresponse
  rw [setCookies_consent, List.mem_singleton] at hmem
  rw [hmem]
  exact .flow _ ⟨rfl, returnPath_mem _⟩ rfl rfl

/-- A finished login sets the session it stands for, and clears the flow. -/
theorem keeps_loginResponse (request : Request) (outcome : LoginOutcome) :
    KeepsLogin lib cfg (Ended lib cfg request · outcome)
      (Async.handle (answer lib cfg request)
        (loginResponse lib.runtime cfg.toPortalConfig outcome)) (Accounted lib cfg request) := by
  cases outcome with
  | error error returnTo =>
    refine Keeps.pure fun w hw => ⟨hw.1, ?_⟩
    rintro response hresponse cookie hmem
    cases hresponse
    rw [setCookies_redirect, List.map_singleton, List.mem_singleton, cookiePair_clear] at hmem
    rw [hmem]
    exact .cleared rfl
  | ok identity returnTo =>
    have hstable : Stable (Ended lib cfg request · (.ok identity returnTo)) :=
      fun _ _ h he => he.mono h
    unfold loginResponse
    simp only [handle_bind, Portal.ask, handle_ask]
    refine keeps_bind_ask hstable fun sid => keeps_bind_instant fun w => Keeps.pure ?_
    rintro s ⟨hsound, ⟨-, hlogin⟩, rfl⟩
    refine ⟨hsound, ?_⟩
    rintro response hresponse cookie hmem
    cases hresponse
    rw [setCookies_redirect, List.map_cons, List.map_singleton, cookiePair_clear,
      runtime_sessions] at hmem
    -- the reply clears the flow and sets the session
    rcases List.mem_cons.mp hmem with rfl | hmem
    · exact .cleared rfl
    · let session : Session :=
        ⟨identity, b64url (show List ℕ from sid), Number.ofInt (s.now + sessionTtlMs)⟩
      have hcookie : cookie = _ :=
        (List.mem_singleton.mp hmem).trans (cookiePair_session session sessionTtlMs)
      rw [hcookie]
      exact .session session ⟨hlogin, rfl⟩ rfl rfl

/-- **Whatever is asked of `/auth/*`, the cookies of the reply are accounted for.** -/
theorem keeps_auth (hlib : Faithful lib) (request : Request) :
    KeepsLogin lib cfg (Coming lib cfg request) (auth lib cfg request)
      (Accounted lib cfg request) := by
  unfold auth handleAuth
  split
  · split
    · exact Keeps.pure fun w hw => ⟨hw.1, accounted_errorJson _ _ w⟩
    · -- logging out clears the session
      refine Keeps.pure fun w hw => ⟨hw.1, ?_⟩
      rintro response hresponse cookie hmem
      cases hresponse
      have hclear : setCookies { status := 204, headers :=
          ("Set-Cookie", clearSessionCookie) :: noStoreHeader } = [(sessionCookie, "")] := by
        have hcontrol : ("Cache-Control" : String) ≠ "Set-Cookie" := by decide
        simp only [setCookies, noStoreHeader, List.filter_cons, hcontrol, decide_true,
          decide_false, if_true, List.filter_nil, List.map_cons]
        exact congrArg (· :: []) (cookiePair_cookie isToken_sessionCookie isToken_empty 0)
      rw [hclear] at hmem
      rw [List.mem_singleton.mp hmem]
      exact .cleared rfl
  split
  · exact Keeps.pure fun w hw => ⟨hw.1, accounted_errorJson _ _ w⟩
  next provider login hpath =>
    split
    · exact Keeps.pure fun w hw => ⟨hw.1, accounted_errorJson _ _ w⟩
    next hconfigured =>
      obtain ⟨client, hclient⟩ : ∃ client, cfg.client provider = some client := by
        rw [← Option.isSome_iff_exists, ← cfg.configured]
        simpa using hconfigured
      cases login with
      | true =>
        change KeepsLogin lib cfg _ (Async.handle (answer lib cfg request)
          (Portal.ask (.startLogin provider _) : Portal.Prog Response)) _
        rw [handle_startLogin hclient]
        exact (keeps_startLogin (stable_unforged request) provider client _).mono
          (fun w hw => hw.1) fun _ _ h => h
      | false =>
        change KeepsLogin lib cfg _ (Async.handle (answer lib cfg request)
          ((Portal.ask (.finishLogin provider) : Portal.Prog LoginOutcome) >>= _)) _
        rw [handle_bind, handle_finishLogin hclient]
        refine Keeps.bind (M := fun x w => Sound lib cfg w ∧
          ∃ outcome, x = .ok outcome ∧ Ended lib cfg request w outcome) ?_ (fun outcome => ?_) ?_
        · exact keeps_finishLogin hlib hclient
        · refine Keeps.mono (P := fun w => Sound lib cfg w ∧ Ended lib cfg request w outcome) ?_ ?_
            fun _ _ h => h
          · have hstable : Stable (Ended lib cfg request · outcome) := fun _ _ h he => he.mono h
            cases outcome with
            | error error returnTo => exact keeps_loginResponse request _
            | ok identity returnTo =>
              -- the login is recorded at the Treasury first
              simp only [callStore, handle_bind, Portal.ask, handle_ask]
              refine Keeps.bind
                (M := fun _ w => Sound lib cfg w ∧ Ended lib cfg request w (.ok identity returnTo))
                (keeps_bind_ask (P := fun _ w => Ended lib cfg request w (.ok identity returnTo))
                  hstable fun a => ?_) (fun _ => ?_) ?_
              · cases a with
                | ok profile => exact Keeps.pure fun w hw => hw
                | error e => exact Keeps.throw fun w hw => hw
              · exact keeps_loginResponse request _
              · exact fun e w hw => ⟨hw.1, fun response hresponse => by cases hresponse⟩
          · rintro w ⟨hsound, outcome', ho, hended⟩
            cases ho
            exact ⟨hsound, hended⟩
        · rintro e w ⟨-, outcome, ho, -⟩
          cases ho

end Steps

/-! ### The server -/

/-- `/auth/*`, asked by whoever cannot forge a MAC. Requests and replies are written down with the
time they come and leave. -/
def site (lib : Libraries) (cfg : LoginConfig) : Server Query Query.Answer World String where
  Request := Request
  Reply := Response
  program request := Async.modify (World.arrive request) >>= fun _ => auth lib cfg request
  emit := emit
  leave request x w :=
    match x with
    | .ok response => w.serve request response
    | .error _ => w
  admits := Unforged lib cfg
  world w w' := ∃ time, w.now ≤ time ∧ w' = { w with now := time }

/-- A request is served at once, and its browser keeps the cookies. -/
theorem serve_site {o : ℕ → (q : Query) → q.Answer} {time : ℤ} {w w' : World}
    {cs : List (site lib cfg).Client} {request : Request} {response : Response} {n m : ℕ}
    (h : Server.Reached (V := site lib cfg) (World.fresh time) ⟨w, cs⟩)
    (hunforged : Unforged lib cfg request w)
    (hrun : run emit o (auth lib cfg request) n (w.arrive request) = (.ok response, m, w')) :
    ∃ w'' cs', Server.Reached (V := site lib cfg) (World.fresh time) ⟨w'', cs'⟩ ∧
      w''.now = w'.now ∧ setCookies response ⊆ w''.cookies := by
  obtain ⟨cs', hserved⟩ := h.serve hunforged hrun
  refine ⟨_, cs', hserved, rfl, fun cookie hset => ?_⟩
  exact List.mem_flatMap.mpr ⟨_, List.mem_append_right _ List.mem_cons_self, hset⟩

theorem upholds_site (hlib : Faithful lib) :
    (site lib cfg).Upholds (Grown lib cfg) (Sound lib cfg) (Accounted lib cfg) where
  refl := Grown.refl
  trans _ _ _ := Grown.trans
  keeps _ _ h := h.2
  world := by
    rintro w _ ⟨time, hle, rfl⟩
    have hgrows : w.Grows { w with now := time } :=
      ⟨hle, List.Subset.refl _, List.Subset.refl _, List.Subset.refl _⟩
    exact ⟨hgrows, fun h =>
      h.of_grows hgrows (fun cache hcache => (h.cache cache hcache).mono hgrows) rfl⟩
  emit := grown_emit
  leave := by
    intro request x w hsound haccounted
    cases x with
    | error e => exact Grown.refl w
    | ok response =>
      exact ⟨.serve request response w, fun h => h.serve (haccounted response rfl)⟩
  meets request w hsound hunforged := by
    -- the request is written down first
    have hgrows : w.Grows (w.arrive request) := .arrive request w
    have hsound' : Sound lib cfg (w.arrive request) :=
      hsound.of_grows hgrows (fun cache hcache => (hsound.cache cache hcache).mono hgrows) rfl
    refine Keeps.bind (M := fun _ w' => w' = w.arrive request)
      (Keeps.modify (fun _ _ _ => Grown.trans) ?_) (fun _ => ?_) ?_
    · rintro _ rfl
      exact ⟨⟨hgrows, fun _ => hsound'⟩, rfl⟩
    · refine Keeps.mono (keeps_auth hlib request) ?_ fun x w' h => h.2
      rintro _ rfl
      exact ⟨hsound', stable_unforged request _ _ hgrows hunforged,
        List.mem_append_right _ List.mem_cons_self⟩
    · rintro e _ - response hresponse
      cases hresponse

/-- **The record stays sound over every run.** -/
theorem Sound.of_reached (hlib : Faithful lib) {time : ℤ} {c : (site lib cfg).Config}
    (h : Server.Reached (World.fresh time) c) : Sound lib cfg c.store := by
  have hfresh : Sound lib cfg (World.fresh time) :=
    ⟨fun cache hcache => (nomatch hcache), fun reply hreply => (nomatch hreply),
      fun reply hreply => (nomatch hreply)⟩
  exact (h.upholds (upholds_site hlib) hfresh).2.1

/-- **Whoever shows a session signed in.** In every run of `/auth/*`, whatever the providers answer
and whatever anybody sends: a request without a forged MAC that is taken for a session, on whichever
route, shows one that a reply of the run opened, less than twelve hours ago. That reply was to a
callback of the run, which came no later, within ten minutes of a reply that began its flow, with
the flow's cookie and state; and in that flow, with its verifier and its nonce, the provider vouched
for the identity. -/
theorem session_traces (hlib : Faithful lib) {time : ℤ} {c : (site lib cfg).Config}
    (h : Server.Reached (World.fresh time) c) {request : Request}
    (hunforged : Unforged lib cfg request c.store) {now : ℤ} {session : Session}
    (hsession : Portal.readSession lib.runtime cfg.toPortalConfig request now = some session) :
    ∃ reply ∈ c.store.served,
      (sessionCookie, sessionValue lib cfg session) ∈ setCookies reply.response ∧
      LoggedIn lib cfg c.store session reply ∧ reply.time ≤ c.store.now ∧
      now < reply.time + sessionTtlMs := by
  unfold Portal.readSession Auth.readSession at hsession
  split at hsession
  · cases hsession
  · rw [runtime_sessions] at hsession
    have hsound := Sound.of_reached hlib h
    obtain ⟨reply, hreply, hset, hlogin, hlive⟩ := session_of_unseal hlib hsound hunforged hsession
    rw [hlogin.exp] at hlive
    exact ⟨reply, hreply, hset, hlogin, hsound.past reply hreply, Number.ofInt_lt_ofInt.mp hlive⟩

section Sample

variable {w : World}

/-- The MACs of the sample show their purpose. -/
theorem sample_token (hhmac : lib.hmac = sampleHmac) (payload payload' : String) :
    token lib cfg "oauth" payload ≠ token lib cfg "session" payload' := by
  intro h
  have hmacs : ∀ purpose payload : String,
      Auth.mac lib.hmac cfg.auth.sessionSecret purpose payload =
      b64url (List.replicate 32 ((encodeUtf8 (purpose ++ "." ++ payload)).headD 0 % 256)) :=
    fun purpose payload => by rw [Auth.mac, hhmac, sampleHmac]
  have hoauth : (encodeUtf8 ("oauth" ++ "." ++ payload)).headD 0 = 111 := by
    rw [encodeUtf8, String.toList_append]
    rfl
  have hsession : (encodeUtf8 ("session" ++ "." ++ payload')).headD 0 = 115 := by
    rw [encodeUtf8, String.toList_append]
    rfl
  have hlist := congrArg String.toList h
  simp only [token, hmacs, hoauth, hsession, String.toList_append] at hlist
  have htail := List.append_inj_right' hlist (by decide)
  exact absurd htail (by decide)

/-- A browser that shows what it was given forges nothing. -/
theorem unforged_visit (hhmac : lib.hmac = sampleHmac) {request : Request}
    {cookies : List (String × String)} (hcarries : Carries request cookies)
    (hset : ∀ pair ∈ cookies, pair ∈ w.cookies ∧
      (pair.1 = oauthCookie ∧ (∃ flow, pair.2 = flowCookie lib cfg flow) ∨
        pair.1 = sessionCookie ∧ ∃ session, pair.2 = sessionValue lib cfg session)) :
    Unforged lib cfg request w := by
  -- a cookie that is read is one of those carried
  have hread : ∀ name value, readCookie request name = some value → (name, value) ∈ cookies := by
    intro name value h
    rw [readCookie_of_carries hcarries, List.lookup_eq_some_iff] at h
    obtain ⟨before, after, rfl, -⟩ := h
    exact List.mem_append_right _ List.mem_cons_self
  constructor
  · intro name payload h
    obtain ⟨hmem, ⟨hname, -⟩ | ⟨-, session, hvalue⟩⟩ := hset _ (hread name _ h)
    · exact hname ▸ hmem
    · exact absurd hvalue (sample_token hhmac payload _)
  · intro name payload h
    obtain ⟨hmem, ⟨-, flow, hvalue⟩ | ⟨hname, -⟩⟩ := hset _ (hread name _ h)
    · exact absurd hvalue.symm (sample_token hhmac _ payload)
    · exact hname ▸ hmem

/-- Ann's session, shown after her login. -/
theorem session_traces_ann : ∃ (lib : Libraries) (c : (site lib sampleConfig).Config)
    (request : Request) (session : Session), Server.Reached (World.fresh 0) c ∧
      Portal.readSession lib.runtime sampleConfig.toPortalConfig request 0 = some session ∧
      session.toIdentity = ann ∧
      ∃ reply ∈ c.store.served, LoggedIn lib sampleConfig c.store session reply := by
  obtain ⟨lib, hlib, hhmac, hlower, hnumber⟩ := exists_sample
  -- she asks to log in
  let asking := visit "/auth/github/login" "" []
  obtain ⟨flow, hbegun, hprovider, -, hlogin⟩ := @run_login lib sampleConfig asking .github
    sampleClient (fun _ => sampleAnswer) rfl ⟨rfl, rfl⟩ 0 ((World.fresh 0).arrive asking)
  have hfresh : Carries asking [] := ⟨rfl, by simp, by simp⟩
  obtain ⟨w, cs, hbegan, hnow, hcookies⟩ := serve_site Relation.ReflTransGen.refl
    (unforged_visit hhmac hfresh (by simp)) hlogin
  rw [setCookies_consent] at hcookies
  have hflow : (oauthCookie, flowCookie lib sampleConfig flow) ∈ w.cookies :=
    hcookies List.mem_cons_self
  -- the callback shows the flow's cookie
  let callback := returning lib flow
  obtain ⟨heard, hidentity⟩ := run_ann hlower hnumber flow 3 (w.arrive callback)
  rw [← hprovider] at hidentity
  have hreturns := @returns_returning lib flow hprovider
  have hclient : sampleConfig.client flow.provider = some sampleClient := by rw [hprovider]; rfl
  obtain ⟨session, hperson, hexp, hcallback⟩ := run_callback hlib hbegun hclient hreturns
    (by show w.now < 0 + oauthTtlMs; rw [hnow]; decide) hidentity rfl
  obtain ⟨w', cs', hcame, -, hcookies'⟩ := serve_site hbegan (unforged_visit hhmac
    (carries_visit _ _ (by decide) isToken_oauthCookie (isToken_seal lib _ _ _ _))
    (List.forall_mem_singleton.mpr ⟨hflow, .inl ⟨rfl, flow, rfl⟩⟩)) hcallback
  rw [setCookies_finish] at hcookies'
  have hsession : (sessionCookie, sessionValue lib sampleConfig session) ∈ w'.cookies :=
    hcookies' (List.mem_cons_of_mem _ List.mem_cons_self)
  -- a later request shows the session's
  have hcarries := @carries_visit "/keys" "" sessionCookie (sessionValue lib sampleConfig session)
    (by decide) isToken_sessionCookie (isToken_seal lib _ _ _ _)
  have hlive : (0 : ℤ) < w.now + sessionTtlMs := by rw [hnow]; decide
  have hread := readSession_eq hlib (by decide) hexp hcarries rfl hlive
  obtain ⟨reply, hreply, -, hloggedIn, -⟩ := session_traces hlib hcame (unforged_visit hhmac
    hcarries (List.forall_mem_singleton.mpr ⟨hsession, .inr ⟨rfl, session, rfl⟩⟩)) hread
  exact ⟨lib, ⟨w', cs'⟩, _, session, hcame, hread, hperson, reply, hreply, hloggedIn⟩

end Sample

end DashFaucet.Login

import DashFaucet.Async.Server
import DashFaucet.Data.Reader
import DashFaucet.Login
import DashFaucet.SealedCookies

/-!
# Who may sign in

What stands behind an identity that a login yields: what the provider was asked, and what it
answered. Other requests are served meanwhile, and share Google's keys.

* `World.Grows`: what the record of the world only gains.
* `Published`, `Verified`, `Vouched`: a key that Google publishes, a token that verifies under one,
  and an identity a provider vouches for.
* `Sound`: the cached keys are published ones, and every cookie set was sealed for a flow or a
  session that is accounted for (`LoggedIn`).
* `keeps_googleKey`, `keeps_verify`, `keeps_google`, `keeps_github`: the steps, each from what it is
  called with to the evidence for what it returns.
-/

namespace DashFaucet.Login

open Async Auth Portal

/-! ### The record -/

/-- The name and the value that a browser keeps of a `Set-Cookie` header. -/
def cookiePair (header : String) : String × String :=
  let pair := header.toList.takeWhile (· ≠ ';')
  (trim (String.ofList (pair.takeWhile (· ≠ '='))),
    trim (String.ofList (pair.dropWhile (· ≠ '=')).tail))

def setCookies (response : Response) : List (String × String) :=
  (response.headers.filter fun header => header.1 = "Set-Cookie").map fun header =>
    cookiePair header.2

namespace World

/-- The cookies that replies set. -/
def cookies (w : World) : List (String × String) :=
  w.served.flatMap fun served => setCookies served.response

/-- A request comes. -/
def arrive (request : Request) (w : World) : World :=
  { w with came := w.came ++ [(request, w.now)] }

/-- A request is answered. -/
def serve (request : Request) (response : Response) (w : World) : World :=
  { w with served := w.served ++ [⟨request, response, w.now⟩] }

end World

/-- Time goes on, and what is recorded stays. -/
structure World.Grows (w w' : World) : Prop where
  now : w.now ≤ w'.now
  heard : w.heard ⊆ w'.heard
  came : w.came ⊆ w'.came
  served : w.served ⊆ w'.served

namespace World.Grows

variable {w w' w'' : World}

theorem refl (w : World) : w.Grows w :=
  ⟨le_rfl, List.Subset.refl _, List.Subset.refl _, List.Subset.refl _⟩

theorem trans (h : w.Grows w') (h' : w'.Grows w'') : w.Grows w'' :=
  ⟨h.now.trans h'.now, List.Subset.trans h.heard h'.heard, List.Subset.trans h.came h'.came,
    List.Subset.trans h.served h'.served⟩

theorem cookies (h : w.Grows w') : w.cookies ⊆ w'.cookies := by
  intro cookie hmem
  obtain ⟨served, hserved, hset⟩ := List.mem_flatMap.mp hmem
  exact List.mem_flatMap.mpr ⟨served, h.served hserved, hset⟩

theorem arrive (request : Request) (w : World) : w.Grows (w.arrive request) :=
  ⟨le_rfl, List.Subset.refl _, List.subset_append_left _ _, List.Subset.refl _⟩

theorem serve (request : Request) (response : Response) (w : World) :
    w.Grows (w.serve request response) :=
  ⟨le_rfl, List.Subset.refl _, List.Subset.refl _, List.subset_append_left _ _⟩

end World.Grows

/-! ### Evidence -/

section

variable (lib : Libraries) (cfg : LoginConfig) (w : World)

/-- Google's endpoint published this key under this id, within the hour before `time`. -/
structure Published (kid jwk : Json) (time : ℤ) : Prop where
  reply : ∃ heard ∈ w.heard, ∃ reply keys, heard.request = jwksRequest ∧ heard.reply = .ok reply ∧
    reply.ok = true ∧ publishedKeys lib reply = .ok keys ∧
    JwksCache.find ⟨keys, 0⟩ kid = some jwk ∧ time < heard.time + 3600000
  past : time ≤ w.now

/-- An ID token that says `claims`: signed under a key of Google's, and its claims hold. -/
inductive Verified (idToken clientId nonce : String) (claims : Json) : Prop where
  | intro {headerB64 payloadB64 signatureB64 : String} {header kid jwk : Json}
      {signature : List ℕ} {keyTime time : ℤ}
      (parts : (idToken.toList.splitOn '.').map String.ofList =
        [headerB64, payloadB64, signatureB64])
      (header_eq : jwtPart lib headerB64 = .ok header)
      (alg : property header "alg" = .ok (some (.str "RS256")))
      (kid_eq : property header "kid" = .ok (some kid))
      (published : Published lib w kid jwk keyTime)
      (signature_eq : fromB64url signatureB64 = .ok signature)
      (signed : lib.verify jwk signature (encodeUtf8 (headerB64 ++ "." ++ payloadB64)) = true)
      (claims_eq : jwtPart lib payloadB64 = .ok claims)
      (hold : claimsHold claims clientId nonce (time / 1000) = .ok true)
      (past : time ≤ w.now)

/-- Verified claims of somebody in the Workspace. -/
structure InWorkspace (claims : Json) (identity : Identity) : Prop where
  verified : ∃ value, property claims "email_verified" = .ok value ∧ isTrue value = true
  hd : property claims "hd" >>= lowerCase lib = .ok cfg.auth.emailDomain
  email : property claims "email" >>= lowerCase lib = .ok identity.email
  domain : endsWith identity.email ("@" ++ cfg.auth.emailDomain) = true
  id : ∃ sub, property claims "sub" = .ok sub ∧ identity.id = "google:" ++ lib.templateText sub

/-- GitHub's answers show an active member of the organization, or a verified address in the
domain. -/
def Welcome (emailsRes memberRes : FetchReply) : Prop :=
  isMember lib cfg.auth memberRes = .ok true ∨
    ∃ emails email, emailList emailsRes = .ok emails ∧
      domainEmail lib cfg.auth emails = .ok (some email)

/-- GitHub shows with this token that the identity is an account that may sign in. -/
inductive GithubShows (token : String) (identity : Identity) : Prop where
  | intro {userRes emailsRes memberRes : FetchReply} {user : Json} {id : Number}
      {userTime emailsTime memberTime : ℤ}
      (user_heard : ⟨githubGet token "/user", .ok userRes, userTime⟩ ∈ w.heard)
      (user_eq : userRes.json = .ok user)
      (id_eq : property user "id" = .ok (some (.num id)))
      (emails_heard : ⟨githubGet token "/user/emails", .ok emailsRes, emailsTime⟩ ∈ w.heard)
      (member_heard : ⟨githubGet token (membershipPath cfg.auth), .ok memberRes, memberTime⟩ ∈
        w.heard)
      (welcome : Welcome lib cfg emailsRes memberRes)
      (identity_id : identity.id = "github:" ++ lib.numberText id)

/-- What a provider was asked in this flow, and that it vouches for the identity. -/
inductive Vouched (client : OAuthClient) (flow : OAuthState) (identity : Identity) : Prop where
  | google {code idToken : String} {reply : FetchReply} {body claims : Json} {time : ℤ}
      (exchange : ⟨googleExchange client cfg.auth code flow, .ok reply, time⟩ ∈ w.heard)
      (tokens_eq : tokens lib reply = .ok body)
      (idToken_eq : property body "id_token" = .ok (some (.str idToken)))
      (verified : Verified lib w idToken client.clientId flow.nonce claims)
      (inWorkspace : InWorkspace lib cfg claims identity)
      (provider : identity.provider = .google)
  | github {code token : String} {reply : FetchReply} {body : Json} {time : ℤ}
      (exchange : ⟨githubExchange client cfg.auth code flow, .ok reply, time⟩ ∈ w.heard)
      (tokens_eq : tokens lib reply = .ok body)
      (token_eq : property body "access_token" = .ok (some (.str token)))
      (shown : GithubShows lib cfg w token identity)
      (provider : identity.provider = .github)

/-- What a flow is sealed as. -/
def flowCookie (flow : OAuthState) : String :=
  «seal» lib.hmac lib.flows cfg.auth.sessionSecret "oauth" flow

def sessionValue (session : Session) : String :=
  «seal» lib.hmac lib.sessions cfg.auth.sessionSecret "session" session

/-- A flow that began at `time`. -/
structure Begun (flow : OAuthState) (time : ℤ) : Prop where
  exp : flow.exp = Number.ofInt (time + oauthTtlMs)
  returnTo : flow.returnTo ∈ returnPaths

/-- A callback of this flow: it shows the flow's cookie and its state. -/
structure CallbackOf (request : Request) (flow : OAuthState) : Prop where
  cookie : readCookie request oauthCookie = some (flowCookie lib cfg flow)
  state : (searchParam request.search "state").getD "" = flow.state

/-- A flow that a reply began at `began` came back at `came`, within ten minutes, with this request,
and its provider vouched for this identity. -/
structure Completed (flow : OAuthState) (identity : Identity) (request : Request)
    (began came : ℤ) : Prop where
  set : ∃ start ∈ w.served, start.time = began ∧
    (oauthCookie, flowCookie lib cfg flow) ∈ setCookies start.response
  begun : Begun flow began
  arrived : (request, came) ∈ w.came
  inTime : began ≤ came ∧ came < began + oauthTtlMs
  callback : CallbackOf lib cfg request flow
  vouched : ∃ client, cfg.client flow.provider = some client ∧
    Vouched lib cfg w client flow identity
  provider : identity.provider = flow.provider

/-- A session that this reply to a callback opened. -/
structure LoggedIn (session : Session) (reply : Served) : Prop where
  login : ∃ flow began came,
    Completed lib cfg w flow session.toIdentity reply.request began came ∧ came ≤ reply.time
  exp : session.exp = Number.ofInt (reply.time + sessionTtlMs)

/-- What a cookie that a reply set under a name may hold. -/
inductive Issued (reply : Served) (name value : String) : Prop where
  | cleared (empty : value = "")
  | flow (flow : OAuthState) (begun : Begun flow reply.time) (name_eq : name = oauthCookie)
      (sealed : value = flowCookie lib cfg flow)
  | session (session : Session) (login : LoggedIn lib cfg w session reply)
      (name_eq : name = sessionCookie) (sealed : value = sessionValue lib cfg session)

/-- The cached keys are those of one reply, and stale an hour after it. -/
def CacheHeard (cache : JwksCache) : Prop :=
  ∃ heard ∈ w.heard, ∃ reply, heard.request = jwksRequest ∧ heard.reply = .ok reply ∧
    reply.ok = true ∧ publishedKeys lib reply = .ok cache.keys ∧
    cache.expires = heard.time + 3600000

structure Sound : Prop where
  cache : ∀ cache, w.jwks = some cache → CacheHeard lib w cache
  past : ∀ reply ∈ w.served, reply.time ≤ w.now
  issued : ∀ reply ∈ w.served, ∀ cookie ∈ setCookies reply.response,
    Issued lib cfg w reply cookie.1 cookie.2

end

variable {lib : Libraries} {cfg : LoginConfig} {w w' : World}

theorem Published.mono (h : w.Grows w') {kid jwk : Json} {time : ℤ}
    (hp : Published lib w kid jwk time) : Published lib w' kid jwk time := by
  obtain ⟨⟨heard, hheard, hrest⟩, hpast⟩ := hp
  exact ⟨⟨heard, h.heard hheard, hrest⟩, hpast.trans h.now⟩

theorem Verified.mono (h : w.Grows w') {idToken clientId nonce : String} {claims : Json}
    (hv : Verified lib w idToken clientId nonce claims) :
    Verified lib w' idToken clientId nonce claims := by
  obtain ⟨parts, header, alg, kid, published, signature, signed, claims, hold, past⟩ := hv
  exact ⟨parts, header, alg, kid, published.mono h, signature, signed, claims, hold,
    past.trans h.now⟩

theorem GithubShows.mono (h : w.Grows w') {token : String} {identity : Identity}
    (hs : GithubShows lib cfg w token identity) : GithubShows lib cfg w' token identity := by
  obtain ⟨user, user_eq, id_eq, emails, member, welcome, id⟩ := hs
  exact ⟨h.heard user, user_eq, id_eq, h.heard emails, h.heard member, welcome, id⟩

theorem Vouched.mono (h : w.Grows w') {client : OAuthClient} {flow : OAuthState}
    {identity : Identity} (hv : Vouched lib cfg w client flow identity) :
    Vouched lib cfg w' client flow identity := by
  cases hv with
  | google exchange tokens_eq idToken_eq verified inWorkspace provider =>
    exact .google (h.heard exchange) tokens_eq idToken_eq (verified.mono h) inWorkspace provider
  | github exchange tokens_eq token_eq shown provider =>
    exact .github (h.heard exchange) tokens_eq token_eq (shown.mono h) provider

theorem Completed.mono (h : w.Grows w') {flow : OAuthState} {identity : Identity}
    {request : Request} {began came : ℤ}
    (hc : Completed lib cfg w flow identity request began came) :
    Completed lib cfg w' flow identity request began came := by
  obtain ⟨start, hstart, hset⟩ := hc.set
  obtain ⟨client, hclient, hv⟩ := hc.vouched
  exact { hc with
    set := ⟨start, h.served hstart, hset⟩
    arrived := h.came hc.arrived
    vouched := ⟨client, hclient, hv.mono h⟩ }

theorem LoggedIn.mono (h : w.Grows w') {session : Session} {reply : Served}
    (hl : LoggedIn lib cfg w session reply) : LoggedIn lib cfg w' session reply := by
  obtain ⟨⟨flow, began, came, hcompleted, hle⟩, hexp⟩ := hl
  exact ⟨⟨flow, began, came, hcompleted.mono h, hle⟩, hexp⟩

theorem Issued.mono (h : w.Grows w') {reply : Served} {name value : String}
    (hi : Issued lib cfg w reply name value) : Issued lib cfg w' reply name value := by
  cases hi with
  | cleared empty => exact .cleared empty
  | flow flow begun name_eq sealed => exact .flow flow begun name_eq sealed
  | session session login name_eq sealed => exact .session session (login.mono h) name_eq sealed

theorem CacheHeard.mono (h : w.Grows w') {cache : JwksCache} (hc : CacheHeard lib w cache) :
    CacheHeard lib w' cache := by
  obtain ⟨heard, hheard, hrest⟩ := hc
  exact ⟨heard, h.heard hheard, hrest⟩

/-! ### The relation between segments -/

/-- What the world records when an answer comes. -/
def emit : (q : Query) → q.Answer → World → World
  | .fetch request, reply, w => { w with heard := w.heard ++ [⟨request, reply, w.now⟩] }
  | .portal _, _, w => w

variable (lib cfg)

/-- The record grows, and stays sound. -/
def Grown (w w' : World) : Prop := w.Grows w' ∧ (Sound lib cfg w → Sound lib cfg w')

/-- A fact that the growing record does not take back. -/
def Stable (F : World → Prop) : Prop := ∀ w w', w.Grows w' → F w → F w'

variable {lib cfg}

theorem Grown.refl (w : World) : Grown lib cfg w w := ⟨.refl w, id⟩

theorem Grown.trans {w'' : World} (h : Grown lib cfg w w') (h' : Grown lib cfg w' w'') :
    Grown lib cfg w w'' := ⟨h.1.trans h'.1, h'.2 ∘ h.2⟩

/-- Where the keys stay cached and nothing is answered, more of a record is sound. -/
theorem Sound.of_grows (h : Sound lib cfg w) (hgrows : w.Grows w')
    (hcache : ∀ cache, w'.jwks = some cache → CacheHeard lib w' cache)
    (hserved : w'.served = w.served) : Sound lib cfg w' where
  cache := hcache
  past reply hreply := (h.past reply (hserved ▸ hreply)).trans hgrows.now
  issued reply hreply cookie hset :=
    (h.issued reply (hserved ▸ hreply) cookie hset).mono hgrows

/-- A reply whose cookies are accounted for keeps the record sound. -/
theorem Sound.serve (h : Sound lib cfg w) {request : Request} {response : Response}
    (hissued : ∀ cookie ∈ setCookies response,
      Issued lib cfg w ⟨request, response, w.now⟩ cookie.1 cookie.2) :
    Sound lib cfg (w.serve request response) where
  cache cache hcache := (h.cache cache hcache).mono (.serve request response w)
  past reply hreply := by
    rcases List.mem_append.mp hreply with hold | hnew
    · exact h.past reply hold
    · rw [List.mem_singleton.mp hnew]
      exact le_rfl
  issued reply hreply cookie hset := by
    rcases List.mem_append.mp hreply with hold | hnew
    · exact (h.issued reply hold cookie hset).mono (.serve request response w)
    · rw [List.mem_singleton.mp hnew] at hset ⊢
      exact (hissued cookie hset).mono (.serve request response w)

theorem grows_emit (q : Query) (a : q.Answer) (w : World) : w.Grows (emit q a w) := by
  cases q with
  | fetch request =>
    exact ⟨le_rfl, List.subset_append_left _ _, List.Subset.refl _, List.Subset.refl _⟩
  | portal q => exact .refl w

theorem grown_emit (q : Query) (a : q.Answer) (w : World) : Grown lib cfg w (emit q a w) := by
  have hgrows := grows_emit q a w
  refine ⟨hgrows, fun h => h.of_grows hgrows ?_ ?_⟩
  · cases q with
    | fetch request => exact fun cache hcache => (h.cache cache hcache).mono hgrows
    | portal q => exact h.cache
  · cases q <;> rfl

/-! ### Steps -/

variable {F : World → Prop}

/-- A program from a sound world with some fact to one with its postcondition. -/
abbrev KeepsLogin (lib : Libraries) (cfg : LoginConfig) (F : World → Prop) {α : Type}
    (p : Prog α) (Post : Except String α → World → Prop) : Prop :=
  Keeps emit (Grown lib cfg) (fun w => Sound lib cfg w ∧ F w) p
    fun x w => Sound lib cfg w ∧ Post x w

theorem stable_and {G : World → Prop} (hF : Stable F) (hG : Stable G) :
    Stable fun w => F w ∧ G w := fun w w' h ⟨hf, hg⟩ => ⟨hF w w' h hf, hG w w' h hg⟩

theorem stable_now (time : ℤ) : Stable fun w => time ≤ w.now := fun _ _ h hle => hle.trans h.now

theorem keeps_ask (hF : Stable F) (q : Query) :
    KeepsLogin lib cfg F (ask q) fun x w => F w ∧ ∃ a w', x = .ok a ∧ w = emit q a w' := by
  refine Keeps.ask Grown.refl fun w w' a ⟨hsound, hf⟩ hgrown => ?_
  have hgrown' := hgrown.trans (grown_emit q a w')
  exact ⟨hgrown'.2 hsound, hF _ _ hgrown'.1 hf, a, w', rfl, rfl⟩

/-- After a question, whatever the answer. -/
theorem keeps_bind_ask {α : Type} (hF : Stable F) {q : Query} {f : q.Answer → Prog α}
    {P : Except String α → World → Prop} (h : ∀ a, KeepsLogin lib cfg F (f a) P) :
    KeepsLogin lib cfg F (ask q >>= f) P := by
  refine Keeps.bind (keeps_ask hF q) (fun a => (h a).mono (fun w hw => ⟨hw.1, hw.2.1⟩)
    fun _ _ hx => hx) ?_
  rintro e w ⟨-, -, a, w', ha, -⟩
  cases ha

/-- After a fetch that is not yet looked at, with the record of what came back just now. -/
theorem keeps_bind_askFetch {α : Type} (hF : Stable F) {request : Fetch}
    {f : Except String FetchReply → Prog α} {Post : Except String α → World → Prop}
    (h : ∀ reply, KeepsLogin lib cfg (fun w => F w ∧ ⟨request, reply, w.now⟩ ∈ w.heard)
      (f reply) Post) : KeepsLogin lib cfg F (ask (.fetch request) >>= f) Post := by
  refine Keeps.bind (keeps_ask hF _) (fun reply w₀ w hR hw => ?_) ?_
  · obtain ⟨hsound, hf, a, w', ha, rfl⟩ := hw
    cases ha
    exact h reply w₀ _ hR ⟨hsound, hf, List.mem_append_right _ List.mem_cons_self⟩
  · rintro e w ⟨-, -, a, w', ha, -⟩
    cases ha

/-- After a fetch, with its reply. -/
theorem keeps_bind_fetch {α : Type} (hF : Stable F) {request : Fetch} {f : FetchReply → Prog α}
    {Post : Except String α → World → Prop} (herr : ∀ e w, F w → Post (.error e) w)
    (h : ∀ reply, KeepsLogin lib cfg (fun w => F w ∧ ⟨request, .ok reply, w.now⟩ ∈ w.heard)
      (f reply) Post) : KeepsLogin lib cfg F (fetch request >>= f) Post := by
  show KeepsLogin lib cfg F (Async.bind (Async.bind _ _) _) Post
  rw [bind_bind]
  refine keeps_bind_askFetch hF fun reply => ?_
  cases reply with
  | ok reply => exact h reply
  | error e => exact Keeps.throw fun w hw => ⟨hw.1, herr e w hw.2.1⟩

/-- After something computed, with its value. -/
theorem keeps_bind_ofExcept {α β : Type} {r : Except String α} {f : α → Prog β}
    {Post : Except String β → World → Prop} (herr : ∀ e w, F w → Post (.error e) w)
    (h : ∀ a, r = .ok a → KeepsLogin lib cfg F (f a) Post) :
    KeepsLogin lib cfg F (Async.ofExcept r >>= f) Post :=
  Keeps.bind_ofExcept h fun e w hw => ⟨hw.1, herr e w hw.2⟩

/-- After a form was posted, with the reply and what it says. -/
theorem keeps_bind_postForm {α : Type} (hF : Stable F) {url : String}
    {form : List (String × String)} {f : Json → Prog α} {Post : Except String α → World → Prop}
    (herr : ∀ e w, F w → Post (.error e) w)
    (h : ∀ reply body, tokens lib reply = .ok body → KeepsLogin lib cfg
      (fun w => F w ∧ ⟨postFormRequest url form, .ok reply, w.now⟩ ∈ w.heard) (f body) Post) :
    KeepsLogin lib cfg F (postForm lib url form >>= f) Post := by
  show KeepsLogin lib cfg F (Async.bind (Async.bind _ _) _) Post
  rw [bind_bind]
  refine keeps_bind_fetch hF herr fun reply => ?_
  exact keeps_bind_ofExcept (fun e w hw => herr e w hw.1) fun body hbody => h reply body hbody

/-- After a look at the clock. -/
theorem keeps_bind_now {α : Type} {f : ℤ → Prog α} {Post : Except String α → World → Prop}
    (h : ∀ time, KeepsLogin lib cfg (fun w => F w ∧ time ≤ w.now) (f time) Post) :
    KeepsLogin lib cfg F (now >>= f) Post :=
  fun w₀ w hR hw => h w.now w₀ w hR ⟨hw.1, hw.2, le_rfl⟩

/-- After a look at the clock, as long as nothing is asked. -/
theorem keeps_bind_instant {α : Type} {f : ℤ → Prog α} {Post : Except String α → World → Prop}
    (h : ∀ w, KeepsLogin lib cfg (fun w' => F w' ∧ w' = w) (f w.now) Post) :
    KeepsLogin lib cfg F (now >>= f) Post :=
  fun w₀ w hR hw => h w w₀ w hR ⟨hw.1, hw.2, rfl⟩

/-- With less known before, and less wanted after. -/
theorem KeepsLogin.mono {α : Type} {G : World → Prop} {p : Prog α}
    {Post Post' : Except String α → World → Prop} (h : KeepsLogin lib cfg F p Post)
    (hpre : ∀ w, G w → F w) (hpost : ∀ x w, Post x w → Post' x w) :
    KeepsLogin lib cfg G p Post' :=
  Keeps.mono h (fun w hw => ⟨hw.1, hpre w hw.2⟩) fun x w hx => ⟨hx.1, hpost x w hx.2⟩

/-! ### Google -/

/-- A cached key that is not stale was published. -/
theorem published_of_cachedKey (hsound : Sound lib cfg w) {kid key : Json}
    (h : cachedKey w kid = some key) : Published lib w kid key w.now := by
  obtain ⟨cache, hcache, hfind⟩ := Option.bind_eq_some_iff.mp h
  obtain ⟨hjwks, hfresh⟩ := Option.filter_eq_some_iff.mp hcache
  obtain ⟨heard, hheard, reply, hrequest, hreply, hok, hkeys, hexpires⟩ :=
    hsound.cache cache hjwks
  refine ⟨⟨heard, hheard, reply, cache.keys, hrequest, hreply, hok, hkeys, hfind, ?_⟩, le_rfl⟩
  rw [← hexpires]
  exact of_decide_eq_true hfresh

/-- **A key that is used was published**, by Google and within the hour. -/
theorem keeps_googleKey (hF : Stable F) (kid : Json) :
    KeepsLogin lib cfg F (googleKey lib kid) fun x w =>
      F w ∧ ∀ key, x = .ok (some key) → ∃ time, Published lib w kid key time := by
  refine Keeps.bind_read fun world => ?_
  cases hcached : cachedKey world kid with
  | some key =>
    refine Keeps.pure ?_
    rintro w ⟨⟨hsound, hf⟩, rfl⟩
    refine ⟨hsound, hf, fun key' hkey => ?_⟩
    cases hkey
    exact ⟨_, published_of_cachedKey hsound hcached⟩
  | none =>
    refine Keeps.mono (P := fun w => Sound lib cfg w ∧ F w) ?_ (fun w hw => hw.1) fun _ _ h => h
    have hfails : ∀ (e : String) w, F w → F w ∧ ∀ key, (Except.error e : Except String _) =
        .ok (some key) → ∃ time, Published lib w kid key time :=
      fun e w hf => ⟨hf, fun key hkey => by cases hkey⟩
    refine keeps_bind_fetch hF hfails fun reply => ?_
    split
    · exact Keeps.throw fun w hw => ⟨hw.1, hfails _ w hw.2.1⟩
    next hok =>
      refine keeps_bind_ofExcept (fun e w hw => hfails e w hw.1) fun keys hkeys => ?_
      -- the reply of this instant becomes the cache
      refine Keeps.bind (M := fun _ w => Sound lib cfg w ∧ F w ∧
        ⟨jwksRequest, .ok reply, w.now⟩ ∈ w.heard) (Keeps.modify (fun _ _ _ => Grown.trans) ?_)
        (fun _ => Keeps.pure ?_) ?_
      · rintro w ⟨hsound, hf, hheard⟩
        have hgrows : w.Grows { w with jwks := some ⟨keys, w.now + 3600000⟩ } :=
          ⟨le_rfl, List.Subset.refl _, List.Subset.refl _, List.Subset.refl _⟩
        have hkept : Sound lib cfg { w with jwks := some ⟨keys, w.now + 3600000⟩ } := by
          refine hsound.of_grows hgrows (fun cache hcache => ?_) rfl
          cases hcache
          exact ⟨_, hheard, reply, rfl, rfl, by simpa using hok, hkeys, rfl⟩
        exact ⟨⟨hgrows, fun _ => hkept⟩, hkept, hF _ _ hgrows hf, hheard⟩
      · rintro w ⟨hsound, hf, hheard⟩
        refine ⟨hsound, hf, fun key hkey => ⟨w.now, ⟨_, hheard, reply, keys, rfl, rfl,
          by simpa using hok, hkeys, Except.ok.inj hkey, Int.lt_add_of_pos_right _ (by decide)⟩,
          le_rfl⟩⟩
      · rintro e w ⟨hsound, hf, -⟩
        exact ⟨hsound, hfails e w hf⟩

/-- **A token that is accepted verifies.** -/
theorem keeps_verify (hF : Stable F) (idToken clientId nonce : String) :
    KeepsLogin lib cfg F (verifyGoogleIdToken lib idToken clientId nonce) fun x w =>
      F w ∧ ∀ claims, x = .ok (some claims) → Verified lib w idToken clientId nonce claims := by
  have hfails : ∀ {time : ℤ} (e : String) w, F w ∧ time ≤ w.now → F w ∧ ∀ claims,
      (Except.error e : Except String _) = .ok (some claims) →
        Verified lib w idToken clientId nonce claims :=
    fun e w hw => ⟨hw.1, fun claims hclaims => by cases hclaims⟩
  have hnone : ∀ w, F w → F w ∧ ∀ claims, (Except.ok none : Except String _) = .ok (some claims) →
        Verified lib w idToken clientId nonce claims :=
    fun w hf => ⟨hf, fun claims hclaims => by cases hclaims⟩
  refine keeps_bind_now fun time => ?_
  have hnow := stable_and hF (stable_now time)
  split
  · next headerB64 payloadB64 signatureB64 hparts =>
    split
    · exact Keeps.pure fun w hw => ⟨hw.1, hnone w hw.2.1⟩
    refine keeps_bind_ofExcept hfails fun header hheader => ?_
    refine keeps_bind_ofExcept hfails fun alg halg => ?_
    refine keeps_bind_ofExcept hfails fun kid hkid => ?_
    split
    · exact Keeps.pure fun w hw => ⟨hw.1, hnone w hw.2.1⟩
    next kid' hfiltered =>
      obtain ⟨rfl, hchecked⟩ := Option.filter_eq_some_iff.mp hfiltered
      -- another request may refresh the keys meanwhile
      refine Keeps.bind (keeps_googleKey hnow kid') (fun key => ?_) ?_
      · cases key with
        | none => exact Keeps.pure fun w hw => ⟨hw.1, hnone w hw.2.1.1⟩
        | some key =>
          refine Keeps.mono (P := fun w => Sound lib cfg w ∧
            ((F w ∧ time ≤ w.now) ∧ ∃ keyTime, Published lib w kid' key keyTime))
            ?_ (fun w hw => ⟨hw.1, hw.2.1, hw.2.2 key rfl⟩) fun _ _ h => h
          refine keeps_bind_ofExcept (fun e w hw => hfails e w hw.1) fun signature hsignature => ?_
          split
          · exact Keeps.pure fun w hw => ⟨hw.1, hnone w hw.2.1.1⟩
          next hsigned =>
            refine keeps_bind_ofExcept (fun e w hw => hfails e w hw.1) fun claims hclaims => ?_
            refine keeps_bind_ofExcept (fun e w hw => hfails e w hw.1) fun hold hhold => ?_
            refine Keeps.pure ?_
            rintro w ⟨hsound, ⟨hf, hpast⟩, keyTime, hpublished⟩
            refine ⟨hsound, hf, fun claims' hclaims' => ?_⟩
            split at hclaims'
            next htrue =>
              cases hclaims'
              have halg' : alg = some (.str "RS256") := by
                rw [Bool.and_eq_true] at hchecked
                have htext := hchecked.1
                unfold isText at htext
                split at htext
                · rw [of_decide_eq_true htext]
                · cases htext
              exact .intro hparts hheader (halg' ▸ halg) hkid hpublished hsignature
                (by simpa using hsigned) hclaims (htrue ▸ hhold) hpast
            · cases hclaims'
      · rintro e w ⟨hsound, hw, -⟩
        exact ⟨hsound, hfails e w hw⟩
  · exact Keeps.pure fun w hw => ⟨hw.1, hnone w hw.2.1⟩

/-- Whom claims stand for is in the Workspace. -/
theorem inWorkspace_of_claimedIdentity {claims : Json} {identity : Identity}
    (h : claimedIdentity lib cfg.auth claims = .ok (some identity)) :
    InWorkspace lib cfg claims identity ∧ identity.provider = .google := by
  obtain ⟨email, hemail, h⟩ := Except.of_bind_ok h
  obtain ⟨verified, hverified, h⟩ := Except.of_bind_ok h
  split at h
  · cases h
  next htrue =>
    obtain ⟨hd, hhd, h⟩ := Except.of_bind_ok h
    split at h
    · cases h
    next hdomain =>
      obtain ⟨sub, hsub, h⟩ := Except.of_bind_ok h
      obtain ⟨name, -, h⟩ := Except.of_bind_ok h
      cases h
      rw [not_or, not_not, Bool.not_eq_false] at hdomain
      refine ⟨⟨⟨verified, hverified, by simpa using htrue⟩, hdomain.1 ▸ hhd, hemail, hdomain.2,
        sub, hsub, rfl⟩, rfl⟩

/-- **Whom Google is taken to vouch for, it vouches for.** -/
theorem keeps_google (hF : Stable F) (client : OAuthClient) (code : String) (flow : OAuthState) :
    KeepsLogin lib cfg F (googleIdentity lib client cfg.auth code flow) fun x w =>
      F w ∧ ∀ identity, x = .ok (some identity) → Vouched lib cfg w client flow identity ∧
        identity.provider = .google := by
  have hfails : ∀ (e : String) w, F w → F w ∧ ∀ identity,
      (Except.error e : Except String _) = .ok (some identity) →
        Vouched lib cfg w client flow identity ∧ identity.provider = .google :=
    fun e w hf => ⟨hf, fun identity hidentity => by cases hidentity⟩
  refine keeps_bind_postForm hF hfails fun reply body hbody => ?_
  refine keeps_bind_ofExcept (fun e w hw => hfails e w hw.1) fun value hvalue => ?_
  split
  · next idToken =>
    -- the exchange stays on record while the keys are fetched
    let G := fun w => F w ∧ ∃ time, ⟨googleExchange client cfg.auth code flow, .ok reply, time⟩ ∈
      w.heard
    have hG : Stable G := fun w w' h ⟨hf, time, hmem⟩ => ⟨hF _ _ h hf, time, h.heard hmem⟩
    refine KeepsLogin.mono (F := G) ?_ (fun w hw => ⟨hw.1, _, hw.2⟩) fun _ _ h => h
    refine Keeps.bind (keeps_verify hG idToken client.clientId flow.nonce) (fun claims => ?_) ?_
    · split
      · exact Keeps.throw fun w hw => ⟨hw.1, hfails _ w hw.2.1.1⟩
      next claims =>
        refine Keeps.ofExcept fun w hw => ?_
        obtain ⟨hsound, ⟨hf, time, hexchange⟩, hverified⟩ := hw
        refine ⟨hsound, hf, fun identity hidentity => ?_⟩
        obtain ⟨hworkspace, hprovider⟩ := inWorkspace_of_claimedIdentity hidentity
        exact ⟨.google hexchange hbody hvalue (hverified claims rfl) hworkspace hprovider,
          hprovider⟩
    · rintro e w ⟨hsound, ⟨hf, -⟩, -⟩
      exact ⟨hsound, hfails e w hf⟩
  · exact Keeps.throw fun w hw => ⟨hw.1, hfails _ w hw.2.1⟩

/-! ### GitHub -/

/-- Whom GitHub's answers stand for is let in by one of the checks. -/
theorem welcome_of_githubAccount {id : Number} {login : String} {name : Option Json}
    {emailsRes memberRes : FetchReply} {identity : Identity}
    (h : githubAccount lib cfg.auth id login name emailsRes memberRes = .ok (some identity)) :
    Welcome lib cfg emailsRes memberRes ∧ identity.id = "github:" ++ lib.numberText id ∧
      identity.provider = .github := by
  obtain ⟨emails, hemails, h⟩ := Except.of_bind_ok h
  obtain ⟨inDomain, hdomain, h⟩ := Except.of_bind_ok h
  obtain ⟨member, hmember, h⟩ := Except.of_bind_ok h
  split at h
  · cases h
  next hchecks =>
    obtain ⟨primary, -, h⟩ := Except.of_bind_ok h
    obtain ⟨email, -, h⟩ := Except.of_bind_ok h
    cases h
    refine ⟨?_, rfl, rfl⟩
    -- past the check, an address of the domain or a member
    cases inDomain with
    | some email => exact .inr ⟨emails, email, hemails, hdomain⟩
    | none =>
      cases member with
      | true => exact .inl hmember
      | false => exact absurd ⟨rfl, rfl⟩ hchecks

theorem keeps_githubReads (hF : Stable F) (token : String) :
    KeepsLogin lib cfg F (githubReads lib cfg.auth token) fun x w =>
      F w ∧ ∀ identity, x = .ok (some identity) → GithubShows lib cfg w token identity ∧
        identity.provider = .github := by
  have hfails : ∀ (e : String) w, F w → F w ∧ ∀ identity,
      (Except.error e : Except String _) = .ok (some identity) →
        GithubShows lib cfg w token identity ∧ identity.provider = .github :=
    fun e w hf => ⟨hf, fun identity hidentity => by cases hidentity⟩
  refine keeps_bind_fetch hF hfails fun userRes => ?_
  split
  · exact Keeps.throw fun w hw => ⟨hw.1, hfails _ w hw.2.1⟩
  refine keeps_bind_ofExcept (fun e w hw => hfails e w hw.1) fun user huser => ?_
  refine keeps_bind_ofExcept (fun e w hw => hfails e w hw.1) fun value hvalue => ?_
  refine keeps_bind_ofExcept (fun e w hw => hfails e w hw.1) fun login hlogin => ?_
  refine keeps_bind_ofExcept (fun e w hw => hfails e w hw.1) fun name hname => ?_
  split
  · next id login =>
    -- what was read stays on record while the other two are asked
    let G := fun w => F w ∧ ∃ time, ⟨githubGet token "/user", .ok userRes, time⟩ ∈ w.heard
    have hG : Stable G := fun w w' h ⟨hf, time, hmem⟩ => ⟨hF _ _ h hf, time, h.heard hmem⟩
    refine KeepsLogin.mono (F := G) ?_ (fun w hw => ⟨hw.1, _, hw.2⟩) fun _ _ h => h
    refine keeps_bind_askFetch hG fun emailsReply => ?_
    let H := fun w => G w ∧ ∃ time, ⟨githubGet token "/user/emails", emailsReply, time⟩ ∈ w.heard
    have hH : Stable H := fun w w' h ⟨hg, time, hmem⟩ => ⟨hG _ _ h hg, time, h.heard hmem⟩
    refine KeepsLogin.mono (F := H) ?_ (fun w hw => ⟨hw.1, _, hw.2⟩) fun _ _ h => h
    refine keeps_bind_askFetch hH fun memberReply => ?_
    refine keeps_bind_ofExcept (fun e w hw => hfails e w hw.1.1.1) fun emailsRes hemails => ?_
    refine keeps_bind_ofExcept (fun e w hw => hfails e w hw.1.1.1) fun memberRes hmember => ?_
    refine Keeps.ofExcept ?_
    rintro w ⟨hsound, ⟨⟨hf, userTime, huserMem⟩, emailsTime, hemailsMem⟩, hmemberMem⟩
    refine ⟨hsound, hf, fun identity hidentity => ?_⟩
    obtain ⟨hwelcome, hid, hprovider⟩ := welcome_of_githubAccount hidentity
    subst hemails hmember
    exact ⟨⟨huserMem, huser, hvalue, hemailsMem, hmemberMem, hwelcome, hid⟩, hprovider⟩
  · exact Keeps.throw fun w hw => ⟨hw.1, hfails _ w hw.2.1⟩

theorem keeps_revoke (hF : Stable F) (client : OAuthClient) (token : String) :
    KeepsLogin lib cfg F (revoke client token) fun _ w => F w :=
  keeps_bind_ofExcept (fun _ _ hf => hf) fun _ _ =>
    keeps_bind_ask hF fun _ => Keeps.pure fun _ hw => hw

/-- A cleanup takes nothing back. -/
theorem keeps_finallyDo {α : Type} {p : Prog α} {cleanup : Prog Unit}
    {Post : Except String α → World → Prop} (hPost : ∀ x, Stable (Post x))
    (hp : KeepsLogin lib cfg F p Post)
    (hcleanup : ∀ {G : World → Prop}, Stable G → KeepsLogin lib cfg G cleanup fun _ w => G w)
    (herr : ∀ x e w, Post x w → Post (.error e) w) :
    KeepsLogin lib cfg F (finallyDo p cleanup) Post := by
  refine Keeps.bind (M := fun x w => Sound lib cfg w ∧ ∃ r, x = .ok r ∧ Post r w)
    (Keeps.attempt (hp.mono (fun _ h => h) fun x w h => ⟨x, rfl, h⟩)) (fun r => ?_) ?_
  · refine Keeps.mono (P := fun w => Sound lib cfg w ∧ Post r w) ?_ (fun w hw => ?_)
      fun _ _ h => h
    · refine Keeps.bind (hcleanup (hPost r)) (fun _ => Keeps.ofExcept fun w hw => hw) ?_
      exact fun e w hw => ⟨hw.1, herr r e w hw.2⟩
    · obtain ⟨hsound, r', hr, hpost⟩ := hw
      cases hr
      exact ⟨hsound, hpost⟩
  · rintro e w ⟨-, r, hr, -⟩
    cases hr

/-- **Whom GitHub is taken to vouch for, it vouches for.** -/
theorem keeps_github (hF : Stable F) (client : OAuthClient) (code : String) (flow : OAuthState) :
    KeepsLogin lib cfg F (githubIdentity lib client cfg.auth code flow) fun x w =>
      F w ∧ ∀ identity, x = .ok (some identity) → Vouched lib cfg w client flow identity ∧
        identity.provider = .github := by
  have hfails : ∀ (e : String) w, F w → F w ∧ ∀ identity,
      (Except.error e : Except String _) = .ok (some identity) →
        Vouched lib cfg w client flow identity ∧ identity.provider = .github :=
    fun e w hf => ⟨hf, fun identity hidentity => by cases hidentity⟩
  refine keeps_bind_postForm hF hfails fun reply body hbody => ?_
  refine keeps_bind_ofExcept (fun e w hw => hfails e w hw.1) fun value hvalue => ?_
  split
  · next token =>
    split
    · exact Keeps.throw fun w hw => ⟨hw.1, hfails _ w hw.2.1⟩
    let G := fun w => F w ∧ ∃ time, ⟨githubExchange client cfg.auth code flow, .ok reply, time⟩ ∈
      w.heard
    have hG : Stable G := fun w w' h ⟨hf, time, hmem⟩ => ⟨hF _ _ h hf, time, h.heard hmem⟩
    -- from here on the exchange that gave the token stays on record
    refine KeepsLogin.mono (F := G) ?_ (fun w hw => ⟨hw.1, _, hw.2⟩) fun _ _ h => h
    refine (keeps_finallyDo (fun x => ?_) (keeps_githubReads hG token)
      (fun hG => keeps_revoke hG client token) ?_).mono (fun _ h => h) ?_
    · -- what GitHub showed stays on record while the token is revoked
      intro w w' h hw
      exact ⟨hG _ _ h hw.1, fun identity hidentity =>
        ⟨(hw.2 identity hidentity).1.mono h, (hw.2 identity hidentity).2⟩⟩
    · exact fun x e w hw => ⟨hw.1, fun identity hidentity => by cases hidentity⟩
    · rintro x w ⟨⟨hf, time, hexchange⟩, hreads⟩
      refine ⟨hf, fun identity hidentity => ?_⟩
      obtain ⟨hshows, hprovider⟩ := hreads identity hidentity
      exact ⟨.github hexchange hbody hvalue hshows hprovider, hprovider⟩
  · exact Keeps.throw fun w hw => ⟨hw.1, hfails _ w hw.2.1⟩

end DashFaucet.Login

import DashFaucet.Portal
import DashFaucet.SealedCookies
import DashFaucet.Treasury.System

/-!
# Every change passes a gate

Which credentials stand behind a call of the portal that changes keys or codes.

* `Authorised`: the admin's bearer token on an admin route, or a sealed session with the origin and
  the CSRF token of a write, an admin's on an admin route.
* `OwnedBy`: a call that names the session's identity as owner; `others_effect` says that it leaves
  the keys of everybody else as they are.
* `handleOwnKeys_quiet`, `handleAdminKeys_quiet`, `handleAdminCodes_quiet`: what the routes behind a
  gate call, and with which methods.
* `portal_gates`: no route leads around the gates.
-/

namespace DashFaucet.Portal

/-! ### Credentials -/

section

variable (rt : Runtime) (cfg : PortalConfig) (request : Request) (now : ℤ)

/-- A route under `/api/admin/`. -/
def AdminRoute : Prop := startsWith request.path "/api/admin/" = true

/-- A route under `/api/me`. -/
def MeRoute : Prop := request.path = "/api/me" ∨ startsWith request.path "/api/me/" = true

/-- A request that may change something. -/
def Writes : Prop := request.method ≠ "GET" ∧ request.method ≠ "HEAD"

/-- The request presents the admin's bearer token. -/
def PresentsAdminToken : Prop :=
  ∃ header token, request.header "Authorization" = some header ∧ isBearer header = true ∧
    bearerToken request = some token ∧ cfg.adminTokenSha256 ≠ "" ∧
    hashApiKey rt token = cfg.adminTokenSha256

/-- The request's cookie is a session, sealed and unexpired. -/
structure CarriesSession (session : Auth.Session) : Prop where
  secret : cfg.auth.sessionSecret ≠ ""
  cookie : ∃ payload, Auth.readCookie request Auth.sessionCookie =
    some (payload ++ "." ++ Auth.mac rt.hmac cfg.auth.sessionSecret "session" payload) ∧
      Auth.Reads rt.sessions payload session
  unexpired : Number.ofInt now < session.exp

/-- The request comes from our own origin and shows the session's CSRF token. -/
structure PassesCsrf (session : Auth.Session) : Prop where
  origin : request.header "Origin" = some cfg.auth.origin
  token : request.header "X-CSRF-Token" = some (Auth.csrfToken rt.hmac session cfg.auth)

/-- A call that changes the keys of this session's person. -/
inductive OwnedBy (session : Auth.Session) : StoreCall → Prop
  | issue (label : Option String) (maxActive : ℕ) (ttlMs : ℤ) (replacing : Option String) :
      OwnedBy session (.issueOwnKey session.toIdentity label maxActive ttlMs replacing)
  | revoke (id : String) : OwnedBy session (.revokeApiKey id (some session.id) none)

/-- What entitles a request to a call. -/
inductive Authorised (call : StoreCall) : Prop
  | token (route : AdminRoute request) (presents : PresentsAdminToken rt cfg request)
  | admin (route : AdminRoute request) (session : Auth.Session)
      (carries : CarriesSession rt cfg request now session)
      (csrf : PassesCsrf rt cfg request session)
      (admin : Auth.isAdminSession rt.toLowerCase session cfg.auth = true)
  | own (route : MeRoute request) (session : Auth.Session)
      (carries : CarriesSession rt cfg request now session)
      (csrf : PassesCsrf rt cfg request session) (owned : OwnedBy session call)

end

/-- The call of the Treasury that performs a method, with what it draws at random there. -/
inductive Performs : StoreCall → Call → Prop
  | createApiKey (input : MintKeyInput) (hash : String) :
      Performs (.createApiKey input) (.createApiKey input hash)
  | revokeApiKey (id : String) (owner admin : Option String) :
      Performs (.revokeApiKey id owner admin) (.revokeApiKey id owner admin)
  | issueOwnKey (who : Auth.Identity) (label : Option String) (maxActive : ℕ) (ttlMs : ℤ)
      (replacing : Option String) (hash : String) :
      Performs (.issueOwnKey who label maxActive ttlMs replacing)
        (.issueOwnKey { who := who.id, label, maxActive, ttlMs, replacing } hash)
  | createCodes (input : NewCodes) (batch : String) (ids : List String) :
      Performs (.createCodes input) (.createCodes input batch ids)
  | updateCode (id : String) (patch : CodePatch) (editor : String) :
      Performs (.updateCode id patch editor) (.updateCode id patch editor)

/-! ### The keys of others -/

/-- The keys that are not of this owner. -/
def others (owner : String) (a : Admin) : List ApiKeyRow :=
  a.apiKeys.rows.filter fun row => row.owner ≠ some owner

/-- A change of what a filter drops is not seen through it. -/
theorem filter_map_eq {α : Type} {f : α → α} {p : α → Bool} {l : List α}
    (hkept : ∀ a ∈ l, p a = true → f a = a) (hdropped : ∀ a ∈ l, p a = false → p (f a) = false) :
    (l.map f).filter p = l.filter p := by
  induction l with
  | nil => rfl
  | cons a l ih =>
    have htail := ih (fun b hb => hkept b (List.mem_cons_of_mem _ hb))
      (fun b hb => hdropped b (List.mem_cons_of_mem _ hb))
    rw [List.map_cons]
    -- by whether the filter keeps this one
    cases hp : p a with
    | true => rw [hkept a List.mem_cons_self hp, List.filter_cons_of_pos hp,
        List.filter_cons_of_pos hp, htail]
    | false =>
      have hfa := hdropped a List.mem_cons_self hp
      rw [List.filter_cons_of_neg (by rw [hfa]; exact Bool.false_ne_true),
        List.filter_cons_of_neg (by rw [hp]; exact Bool.false_ne_true), htail]

/-- An update of one owner's keys that leaves them theirs. -/
theorem others_update {owner : String} {a : Admin} {p : ApiKeyRow → Bool}
    {g : ApiKeyRow → ApiKeyRow} {hkey halt}
    (hp : ∀ row ∈ a.apiKeys.rows, p row = true → row.owner = some owner)
    (hg : ∀ row, (g row).owner = row.owner) :
    others owner { a with apiKeys := a.apiKeys.update p g hkey halt } = others owner a := by
  refine filter_map_eq (fun row hrow hother => ?_) fun row hrow hown => ?_
  · -- an update that reached it would make it the owner's
    rw [if_neg]
    intro hmatch
    exact of_decide_eq_true hother (hp row hrow hmatch)
  · rw [decide_eq_false_iff_not, not_not] at hown ⊢
    split
    · rw [hg, hown]
    · exact hown

/-- A key minted for the owner. -/
theorem others_mintKey {owner : String} {a a' : Admin} {input : MintKeyInput} {hash : String}
    {now : ℤ} {key : ApiKeyRow} (howner : input.owner = some owner)
    (h : a.mintKey input hash now = some (key, a')) : others owner a' = others owner a := by
  obtain ⟨apiKeys, hins, heq⟩ := Option.map_eq_some_iff.mp h
  cases heq
  rw [others, (Table.insert?_eq_some hins).1, List.filter_append, List.filter_cons_of_neg]
  · exact List.append_nil _
  · simp [howner]

theorem others_issueOwnKey {owner : String} (input : IssueOwnKeyInput) (howner : input.who = owner)
    (hash : String) (now : ℤ) (a : Admin) :
    others owner (a.issueOwnKey input hash now).2 = others owner a := by
  refine Admin.issueOwnKey_keeps (P := fun a' => others owner a' = others owner a) rfl
    (fun old hold howned => ?_) fun m a' hm hkept key a'' hmint => ?_
  · -- an id is one key's, and the one found is theirs
    refine others_update (fun row hrow hrowid => ?_) fun row => rfl
    rw [Table.eq_of_alt hrow hold (of_decide_eq_true hrowid), howned, howner]
  · exact (others_mintKey (hm.trans (congrArg some howner)) hmint).trans hkept

/-- **A call that names an owner leaves everybody else's keys alone.** -/
theorem others_effect {session : Auth.Session} {call : StoreCall} (h : OwnedBy session call)
    {c : Call} (hc : Performs call c) (cfg : FaucetConfig) (now : ℤ) (a : Admin) :
    others session.id (c.effect cfg now a) = others session.id a := by
  cases h with
  | issue label maxActive ttlMs replacing =>
    cases hc with
    | issueOwnKey _ _ _ _ _ hash =>
      exact others_issueOwnKey ⟨session.id, label, maxActive, ttlMs, replacing⟩ rfl hash now a
  | revoke id =>
    cases hc
    refine others_update (fun row hrow hmatch => ?_) fun row => rfl
    have howner := (of_decide_eq_true hmatch).2.2
    exact howner.resolve_left fun h => by cases h

/-! ### The gates -/

/-- Every call of the Treasury asked for is one of `P`. -/
def Calls (P : StoreCall → Prop) : Query → Prop
  | .store call => P call
  | _ => True

section

variable {rt : Runtime} {cfg : PortalConfig} {request : Request} {now : ℤ} {P P' : StoreCall → Prop}

theorem Calls.mono (h : ∀ call, P call → P' call) (q : Query) (hq : Calls P q) : Calls P' q := by
  cases q with
  | store call => exact h call hq
  | asset => trivial
  | startLogin provider returnParam => trivial
  | finishLogin provider => trivial
  | clock => trivial
  | random count => trivial

theorem quiet_callStore {call : StoreCall} (h : P call) : (callStore call).Quiet (Calls P) :=
  Async.Quiet.bind ((Async.quiet_ask _).mpr h) fun answer => Async.quiet_ofExcept answer

/-- A call, and a reply that depends on its answer. -/
theorem quiet_reply {call : StoreCall} (h : P call) {reply : call.Answer → Response} :
    (callStore call >>= fun answer => pure (reply answer) : Prog Response).Quiet (Calls P) :=
  (quiet_callStore h).bind fun _ => trivial

/-- So a missing header is no token. -/
theorem csrfToken_ne_empty (session : Auth.Session) :
    Auth.csrfToken rt.hmac session cfg.auth ≠ "" := by
  obtain ⟨hlen, hlt⟩ := rt.digest (encodeUtf8 cfg.auth.sessionSecret)
    (encodeUtf8 ("csrf" ++ "." ++ session.sid))
  refine Auth.b64url_ne_empty hlt fun hempty => ?_
  rw [hempty] at hlen
  cases hlen

/-- What `readSession` returns is carried. -/
theorem carries_of_readSession {session : Auth.Session}
    (h : readSession rt cfg request now = some session) :
    CarriesSession rt cfg request now session := by
  unfold readSession Auth.readSession at h
  split at h
  · cases h
  next hsecret =>
    cases hcookie : Auth.readCookie request Auth.sessionCookie with
    | none =>
      rw [hcookie] at h
      cases h
    | some token =>
      rw [hcookie] at h
      obtain ⟨payload, hsealed, hreads, exp, hexp, hlive⟩ := Auth.unseal_iff.mp h
      cases hexp
      exact ⟨hsecret, ⟨payload, hcookie.trans (congrArg some hsealed.eq), hreads⟩, hlive⟩

/-- A write that `checkCsrf` lets through shows origin and token. -/
theorem passes_of_checkCsrf {session : Auth.Session} (hwrites : Writes request)
    (h : Auth.checkCsrf rt.hmac request session cfg.auth = true) :
    PassesCsrf rt cfg request session := by
  unfold Auth.checkCsrf at h
  rw [if_neg (not_or.mpr hwrites)] at h
  split at h
  · cases h
  next horigin =>
    rw [Bool.not_eq_false, Auth.sameOrigin, decide_eq_true_eq] at horigin
    rw [digestEquals_iff] at h
    refine ⟨horigin, ?_⟩
    cases htoken : request.header "X-CSRF-Token" with
    | some token =>
      rw [htoken] at h
      exact congrArg some h
    | none =>
      rw [htoken] at h
      exact absurd h.symm (csrfToken_ne_empty session)

/-- Who may act on an admin route. -/
theorem authorizeAdmin_ok {actor : String} (h : authorizeAdmin rt cfg request now = .ok actor) :
    PresentsAdminToken rt cfg request ∨ ∃ session, CarriesSession rt cfg request now session ∧
      Auth.isAdminSession rt.toLowerCase session cfg.auth = true ∧
        Auth.checkCsrf rt.hmac request session cfg.auth = true := by
  unfold authorizeAdmin at h
  split at h
  · next token htoken =>
    -- a bearer is presented, and the cookie does not count
    dsimp only at h
    split at h
    · next hvalid =>
      obtain ⟨hset, hbearer, hdigest⟩ := hvalid
      left
      cases hheader : request.header "Authorization" with
      | none =>
        rw [bearerToken, hheader] at htoken
        cases htoken
      | some header =>
        rw [hheader] at hbearer
        exact ⟨header, token, hheader, hbearer, htoken, hset, digestEquals_iff.mp hdigest⟩
    · cases h
  · split at h
    · cases h
    next session hsession =>
      split at h
      · cases h
      next hadmin =>
        split at h
        · cases h
        next hcsrf =>
          rw [Bool.not_eq_false] at hadmin hcsrf
          exact .inr ⟨session, carries_of_readSession hsession, hadmin, hcsrf⟩

theorem writes_of_method {method : String} (h : request.method = method) (hget : method ≠ "GET")
    (hhead : method ≠ "HEAD") : Writes request := ⟨h ▸ hget, h ▸ hhead⟩

/-- The routes of `/api/me` change keys in writes only, and the session's own. -/
theorem handleOwnKeys_quiet (session : Auth.Session) : (handleOwnKeys cfg request session).Quiet
    (Calls fun call => call.Mutating → Writes request ∧ OwnedBy session call) := by
  unfold handleOwnKeys
  split
  · -- the list
    exact quiet_reply fun hmutating => hmutating.elim
  split
  · next hpost =>
    -- a new key, if the body is an object with a label
    split
    · trivial
    split
    · trivial
    · exact quiet_reply fun _ => ⟨writes_of_method hpost.2 (by decide) (by decide), .issue ..⟩
  split
  · next id hrotate =>
    -- a new key in the place of one of theirs
    have hpost := of_decide_eq_true (Option.filter_eq_some_iff.mp hrotate).2
    exact quiet_reply fun _ => ⟨writes_of_method hpost (by decide) (by decide), .issue ..⟩
  split
  · next id hrevoke =>
    -- one of theirs revoked
    have hdelete := of_decide_eq_true (Option.filter_eq_some_iff.mp hrevoke).2
    exact quiet_reply fun _ => ⟨writes_of_method hdelete (by decide) (by decide), .revoke id⟩
  · trivial

theorem handleAdminKeys_quiet (actor : String) : (handleAdminKeys request actor).Quiet
    (Calls fun call => call.Mutating → Writes request) := by
  unfold handleAdminKeys
  split
  · -- the list
    exact quiet_reply fun hmutating => hmutating.elim
  split
  · next hpost =>
    -- a new key
    split
    · trivial
    · exact quiet_reply fun _ => writes_of_method hpost.2 (by decide) (by decide)
  split
  · next id hrevoke =>
    -- any key revoked
    have hdelete := of_decide_eq_true (Option.filter_eq_some_iff.mp hrevoke).2
    exact quiet_reply fun _ => writes_of_method hdelete (by decide) (by decide)
  · trivial

theorem handleAdminCodes_quiet (actor : String) :
    (handleAdminCodes rt cfg request now actor).Quiet
      (Calls fun call => call.Mutating → Writes request) := by
  unfold handleAdminCodes
  split
  · -- the list
    exact quiet_reply fun hmutating => hmutating.elim
  split
  · next hpost =>
    split
    · trivial
    · -- drawing the vouchers calls nothing
      refine Async.Quiet.bind (Async.Quiet.forEach fun _ _ => ?_) fun vouchers =>
        quiet_reply fun _ => writes_of_method hpost.2 (by decide) (by decide)
      exact Async.Quiet.bind ((Async.quiet_ask _).mpr trivial) fun bytes => trivial
  split
  · trivial
  split
  · -- one code shown
    exact quiet_reply fun hmutating => hmutating.elim
  split
  · next hpatch =>
    -- one code edited
    split
    · trivial
    · exact quiet_reply fun _ => writes_of_method hpatch (by decide) (by decide)
  · trivial

/-- What the gate of `/api/me` lets through. -/
theorem handleMe_quiet (route : MeRoute request) : (handleMe rt cfg request now).Quiet
    (Calls fun call => call.Mutating → Authorised rt cfg request now call) := by
  unfold handleMe
  dsimp only
  -- `GET /api/me` is for anybody, and calls nothing
  split
  · trivial
  split
  · trivial
  next session hsession =>
    split
    · trivial
    next hcsrf =>
      -- the check lets reads through, but no call in a read changes anything
      rw [Bool.not_eq_false] at hcsrf
      refine Async.Quiet.mono (Calls.mono fun call h hmutating => ?_) (handleOwnKeys_quiet session)
      obtain ⟨hwrites, howned⟩ := h hmutating
      exact .own route session (carries_of_readSession hsession)
        (passes_of_checkCsrf hwrites hcsrf) howned

/-- What the gate of `/api/admin/` lets through. -/
theorem handleAdmin_quiet (route : AdminRoute request) : (handleAdmin rt cfg request now).Quiet
    (Calls fun call => call.Mutating → Authorised rt cfg request now call) := by
  unfold handleAdmin
  split
  · trivial
  split
  · trivial
  next actor hactor =>
    have hgate : ∀ call : StoreCall, (call.Mutating → Writes request) → call.Mutating →
        Authorised rt cfg request now call := by
      intro call h hmutating
      rcases authorizeAdmin_ok hactor with htoken | ⟨session, hcarries, hadmin, hcsrf⟩
      · exact .token route htoken
      · exact .admin route session hcarries (passes_of_checkCsrf (h hmutating) hcsrf) hadmin
    split
    · exact Async.Quiet.mono (Calls.mono hgate) (handleAdminKeys_quiet actor)
    split
    · exact Async.Quiet.mono (Calls.mono hgate) (handleAdminCodes_quiet actor)
    · trivial

/-- A login changes no keys and no codes. -/
theorem handleAuth_quiet : (handleAuth rt cfg request).Quiet
    (Calls fun call => call.Mutating → False) := by
  have hresponse : ∀ outcome, (loginResponse rt cfg outcome).Quiet
      (Calls fun call => call.Mutating → False) := by
    intro outcome
    cases outcome with
    | ok identity returnTo =>
      refine Async.Quiet.bind ((Async.quiet_ask _).mpr trivial) fun sid => ?_
      exact Async.Quiet.bind ((Async.quiet_ask _).mpr trivial) fun now => trivial
    | error error returnTo => trivial
  unfold handleAuth
  split
  · split
    · trivial
    · trivial
  split
  · trivial
  next provider login _ =>
  split
  · trivial
  cases login with
  | true => exact (Async.quiet_ask _).mpr trivial
  | false =>
    refine Async.Quiet.bind ((Async.quiet_ask _).mpr trivial) fun outcome => ?_
    cases outcome with
    | ok identity returnTo =>
      -- the login is recorded
      refine Async.Quiet.bind (quiet_callStore fun hmutating => hmutating.elim) fun _ => ?_
      exact hresponse _
    | error error returnTo => exact hresponse _

theorem ofExcept_bind {α β : Type} (a : α) (f : α → Prog β) :
    (Async.ofExcept (.ok a) : Prog α) >>= f = f a := rfl

theorem portalPage_quiet : portalPage.Quiet (Calls P) :=
  Async.Quiet.bind ((Async.quiet_ask _).mpr trivial) fun _ =>
    Async.Quiet.bind (Async.quiet_ofExcept _) fun _ => trivial

theorem quiet_some {p : Prog Response} (h : p.Quiet (Calls P)) :
    (some <$> p : Prog (Option Response)).Quiet (Calls P) :=
  Async.Quiet.bind h fun _ => trivial

/-- No route is of both kinds. -/
theorem not_adminRoute (h : MeRoute request) : ¬AdminRoute request := by
  intro hadmin
  have hprefix : "/api/admin/".toList <+: request.path.toList :=
    List.isPrefixOf_iff_prefix.mp hadmin
  rcases h with hpath | hme
  · rw [hpath] at hprefix
    exact absurd hprefix (by decide)
  · have hme : "/api/me/".toList <+: request.path.toList := List.isPrefixOf_iff_prefix.mp hme
    exact absurd (List.prefix_of_prefix_length_le hme hprefix (by decide)) (by decide)

/-- On `/api/me` only the session's own keys are changed. -/
theorem Authorised.owned {call : StoreCall} (h : Authorised rt cfg request now call)
    (route : MeRoute request) : ∃ session, CarriesSession rt cfg request now session ∧
      OwnedBy session call := by
  cases h with
  | token hadmin _ => exact absurd hadmin (not_adminRoute route)
  | admin hadmin _ _ _ _ => exact absurd hadmin (not_adminRoute route)
  | own _ session hcarries _ howned => exact ⟨session, hcarries, howned⟩

/-- **Only authorised requests change keys or codes.** Whatever the request and however its queries
are answered, each call that changes keys or codes has its credentials behind it; and one reached
through `/api/me` leaves the keys of everybody but the session's person as they are. -/
theorem portal_gates (rt : Runtime) (request : Request) (now : ℤ)
    (resolved : Except String PortalConfig) :
    (handlePortal rt request now resolved).Quiet (Calls fun call => call.Mutating →
      ∃ cfg, resolved = .ok cfg ∧ Authorised rt cfg request now call ∧
        (MeRoute request → ∃ session, CarriesSession rt cfg request now session ∧
          OwnedBy session call ∧ ∀ (c : Call), Performs call c →
            ∀ (treasury : FaucetConfig) (t : ℤ) (a : Admin),
              others session.id (c.effect treasury t a) = others session.id a)) := by
  have hauthorised : ∀ {cfg : PortalConfig} (call : StoreCall), resolved = .ok cfg →
      (call.Mutating → Authorised rt cfg request now call) → call.Mutating →
        ∃ cfg, resolved = .ok cfg ∧ Authorised rt cfg request now call ∧
          (MeRoute request → ∃ session, CarriesSession rt cfg request now session ∧
            OwnedBy session call ∧ ∀ (c : Call), Performs call c →
              ∀ (treasury : FaucetConfig) (t : ℤ) (a : Admin),
                others session.id (c.effect treasury t a) = others session.id a) := by
    intro cfg call hcfg h hmutating
    refine ⟨cfg, hcfg, h hmutating, fun route => ?_⟩
    obtain ⟨session, hcarries, howned⟩ := (h hmutating).owned route
    exact ⟨session, hcarries, howned, fun c hc => others_effect howned hc⟩
  unfold handlePortal
  dsimp only
  split
  -- no route of the portal
  · trivial
  next hportal =>
    cases resolved with
    | error reason => trivial
    | ok cfg =>
      rw [ofExcept_bind]
      split
      · trivial
      split
      · exact quiet_some portalPage_quiet
      next hpage =>
        split
        · refine quiet_some (Async.Quiet.mono (Calls.mono fun call h hmutating => ?_)
            handleAuth_quiet)
          exact (h hmutating).elim
        next hauth =>
          split
          · next hme =>
            rw [Bool.or_eq_true, decide_eq_true_eq] at hme
            exact quiet_some (Async.Quiet.mono (Calls.mono fun call => hauthorised call rfl)
              (handleMe_quiet hme))
          · next hme =>
            -- what is left of the portal is the admin's
            have hadmin : AdminRoute request := by
              rw [AdminRoute, ← Bool.not_eq_false]
              intro hnot
              rw [Bool.not_eq_true] at hauth hme hpage hportal
              rw [hauth, hme, hpage, hnot] at hportal
              cases hportal
            exact quiet_some (Async.Quiet.mono (Calls.mono fun call => hauthorised call rfl)
              (handleAdmin_quiet hadmin))

end

end DashFaucet.Portal

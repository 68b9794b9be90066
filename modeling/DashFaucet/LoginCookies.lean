import DashFaucet.LoginGates

/-!
# Cookies and queries of a login

What a browser does with the replies of a login, and what the next request then shows.

* `setCookies`, `Carries`: what a browser keeps of a reply, and a request that shows what it keeps.
  `cookiePair_cookie`, `readCookie_of_carries`: a cookie is shown as it was sealed.
* `searchParam_query`: what is written into a query is read from it.
* `token`, `sealedAs`: a cookie that stands for a flow or a session.
-/

namespace DashFaucet.Login

open Async Auth Portal

/-! ### Cookies -/

/-- What may stand in a cookie's name, and what the values here are made of. -/
def IsToken (text : String) : Prop :=
  ∀ c ∈ text.toList, c ≠ ';' ∧ c ≠ '=' ∧ Text.isWhite c = false

/-- What a browser may keep as a cookie's value: no semicolon, and no blanks around it. -/
def IsValue (text : String) : Prop := ';' ∉ text.toList ∧ trim text = text

theorem trim_of_isToken {text : String} (h : IsToken text) : trim text = text := by
  have hdrop : text.toList.dropWhile Text.isWhite = text.toList := by
    rw [List.dropWhile_eq_self_iff]
    intro hpos hwhite
    exact absurd (h _ (List.getElem_mem hpos)).2.2 (by rw [hwhite]; decide)
  have hrdrop : text.toList.rdropWhile Text.isWhite = text.toList := by
    rw [List.rdropWhile_eq_self_iff]
    intro hne hwhite
    exact absurd (h _ (List.getLast_mem hne)).2.2 (by rw [hwhite]; decide)
  rw [trim, Text.trim, hdrop, hrdrop, String.ofList_toList]

theorem IsToken.isValue {text : String} (h : IsToken text) : IsValue text :=
  ⟨fun hsemi => (h _ hsemi).1 rfl, trim_of_isToken h⟩

/-- **A browser keeps the pair** that a header begins with. -/
theorem cookiePair_eq {name value header : String} (hname : IsToken name) (hvalue : IsToken value)
    (rest : List Char)
    (hheader : header.toList = name.toList ++ '=' :: (value.toList ++ ';' :: rest)) :
    cookiePair header = (name, value) := by
  -- the pair ends at the first semicolon, which is the one behind the value
  have hpair : header.toList.takeWhile (· ≠ ';') = name.toList ++ '=' :: value.toList := by
    have hfront : ∀ c ∈ name.toList ++ '=' :: value.toList, decide (c ≠ ';') = true := by
      intro c hc
      refine decide_eq_true ?_
      rcases List.mem_append.mp hc with hc | hc
      · exact (hname c hc).1
      rcases List.mem_cons.mp hc with rfl | hc
      · decide
      · exact (hvalue c hc).1
    have hsplit : header.toList = (name.toList ++ '=' :: value.toList) ++ ';' :: rest := by
      rw [hheader, List.append_assoc]
      rfl
    rw [hsplit, List.takeWhile_append_of_pos hfront]
    simp
  have hcut : ∀ c ∈ name.toList, decide (c ≠ '=') = true :=
    fun c hc => decide_eq_true (hname c hc).2.1
  unfold cookiePair
  dsimp only
  rw [hpair, List.takeWhile_append_of_pos hcut, List.dropWhile_append_of_pos hcut]
  simp [trim_of_isToken hname, trim_of_isToken hvalue]

theorem cookiePair_cookie {name value : String} (hname : IsToken name) (hvalue : IsToken value)
    (maxAgeMs : ℤ) : cookiePair (cookie name value maxAgeMs) = (name, value) := by
  refine cookiePair_eq hname hvalue (" Path=/; Max-Age=" ++
    toString (max 0 (maxAgeMs / 1000)) ++ "; HttpOnly; Secure; SameSite=Lax").toList ?_
  unfold cookie
  simp only [String.toList_append, toString, List.append_assoc]
  rfl

theorem isToken_of_url {text : String}
    (h : ∀ c ∈ text.toList, (c.isAlphanum || c = '_' || c = '-') = true ∨ c = '.') :
    IsToken text := by
  intro c hc
  have hurl := h c hc
  rw [Bool.or_eq_true, Bool.or_eq_true, decide_eq_true_eq, decide_eq_true_eq] at hurl
  have hwhite : Text.isWhite c = false := by
    rw [← Bool.not_eq_true]
    intro hwhite
    have hbounds := Text.isWhite_bounds hwhite
    rcases hurl with ((halnum | rfl) | rfl) | rfl
    · have := Text.isAlphanum_bounds halnum
      omega
    all_goals exact absurd hwhite (by decide)
  refine ⟨?_, ?_, hwhite⟩
  · rintro rfl
    rcases hurl with ((h | h) | h) | h <;> cases h
  · rintro rfl
    rcases hurl with ((h | h) | h) | h <;> cases h

theorem isToken_empty : IsToken "" := fun c hc => by cases hc

theorem isToken_sessionCookie : IsToken sessionCookie :=
  List.all_iff_forall_prop.mp (by decide)

theorem isToken_oauthCookie : IsToken oauthCookie :=
  List.all_iff_forall_prop.mp (by decide)

theorem setCookies_redirect (location : String) (cookies : List String) :
    setCookies (redirect location cookies) = cookies.map cookiePair := by
  have hlocation : ("Location" : String) ≠ "Set-Cookie" := by decide
  have hcontrol : ("Cache-Control" : String) ≠ "Set-Cookie" := by decide
  simp [setCookies, redirect, noStoreHeader, hlocation, hcontrol, List.filter_map,
    Function.comp_def]

/-! ### Requests that show cookies -/

def cookieText (pair : String × String) : List Char := pair.1.toList ++ '=' :: pair.2.toList

/-- The `Cookie` header of a browser that keeps these. -/
def cookieHeader (cookies : List (String × String)) : String :=
  String.ofList ([';', ' '].intercalate (cookies.map cookieText))

/-- A request with the cookies that a browser keeps. -/
structure Carries (request : Request) (cookies : List (String × String)) : Prop where
  header : request.header "Cookie" = some (cookieHeader cookies)
  names : ∀ pair ∈ cookies, pair.1 ≠ "" ∧ IsToken pair.1
  values : ∀ pair ∈ cookies, IsValue pair.2

/-- A header splits into its pairs, with a blank before each but the first. -/
theorem splitOn_cookies {parts : List (List Char)} {first : List Char}
    (h : ∀ part ∈ first :: parts, ';' ∉ part) :
    ([';', ' '].intercalate (first :: parts)).splitOn ';' = first :: parts.map (' ' :: ·) := by
  induction parts generalizing first with
  | nil =>
    rw [List.intercalate_singleton, List.splitOn_eq_singleton (h first List.mem_cons_self)]
    rfl
  | cons next parts ih =>
    have hfirst := h first List.mem_cons_self
    have hblank : ∀ part ∈ (' ' :: next) :: parts, ';' ∉ part := by
      intro part hpart hmem
      rcases List.mem_cons.mp hpart with rfl | hpart
      · have hnext := (List.mem_cons.mp hmem).resolve_left (by decide)
        exact h next (List.mem_cons_of_mem _ List.mem_cons_self) hnext
      · exact h part (List.mem_cons_of_mem _ (List.mem_cons_of_mem _ hpart)) hmem
    -- the blank goes with the cookie behind it
    have hjoin : [';', ' '].intercalate (first :: next :: parts) =
        first ++ ';' :: [';', ' '].intercalate ((' ' :: next) :: parts) := by
      rw [List.intercalate_cons_cons]
      cases parts with
      | nil => simp [List.intercalate_singleton]
      | cons part parts => simp [List.intercalate_cons_cons]
    rw [hjoin, List.splitOn_append_cons_self_of_not_mem hfirst, ih hblank]
    rfl

section

variable {name value : String} {pad : List Char} (hname : name ≠ "" ∧ IsToken name)
  (hvalue : IsValue value) (hpad : ∀ c ∈ pad, c = ' ')

include hname hvalue hpad

/-- A pair of the header, as `readCookie` takes it apart. -/
theorem readCookie_part (wanted : String) :
    (let part := pad ++ cookieText (name, value)
     let key := part.takeWhile (· ≠ '=')
     if 0 < key.length ∧ key.length < part.length ∧ trim (String.ofList key) = wanted then
       some (trim (String.ofList (part.drop (key.length + 1))))
     else none) = if name = wanted then some value else none := by
  have hfront : ∀ c ∈ pad ++ name.toList, decide (c ≠ '=') = true := by
    intro c hc
    refine decide_eq_true ?_
    rcases List.mem_append.mp hc with hc | hc
    · rw [hpad c hc]
      decide
    · exact (hname.2 c hc).2.1
  have hpart : pad ++ cookieText (name, value) = (pad ++ name.toList) ++ '=' :: value.toList := by
    rw [cookieText, List.append_assoc]
  -- the key ends at the first equals sign, and no name holds one
  have hkey : (pad ++ cookieText (name, value)).takeWhile (· ≠ '=') = pad ++ name.toList := by
    rw [hpart, List.takeWhile_append_of_pos hfront]
    simp
  have htrim : trim (String.ofList (pad ++ name.toList)) = name := by
    have htext := @Text.trim_append pad name.toList []
      (fun c hc => by rw [hpad c hc]; decide) (fun c hc => (hname.2 c hc).2.2) (by simp)
    rw [List.append_nil] at htext
    rw [trim, String.toList_ofList, htext, String.ofList_toList]
  have hlength : 0 < (pad ++ name.toList).length := by
    rw [List.length_append]
    have := List.length_pos_iff.mpr (mt String.toList_eq_nil_iff.mp hname.1)
    omega
  have hrest : (pad ++ cookieText (name, value)).drop ((pad ++ name.toList).length + 1) =
      value.toList := by
    rw [hpart, List.drop_append]
    simp
  dsimp only
  rw [hkey, hrest, htrim, String.ofList_toList, hvalue.2]
  have hshort : (pad ++ name.toList).length < (pad ++ cookieText (name, value)).length := by
    rw [hpart]
    simp
  simp only [hlength, hshort, true_and]

end

/-- What is looked up among the parts of a header, part by part, is looked up among the cookies. -/
theorem findSome?_cookies {request : Request} {cookies : List (String × String)}
    (h : Carries request cookies) {f : List Char → Option String} {name : String}
    (hnil : f [] = none)
    (hpart : ∀ pad, (∀ c ∈ pad, c = ' ') → ∀ pair ∈ cookies,
      f (pad ++ cookieText pair) = if pair.1 = name then some pair.2 else none) :
    ((cookieHeader cookies).toList.splitOn ';').findSome? f = cookies.lookup name := by
  -- behind the first pair each begins with a blank
  have hrest : ∀ pairs ⊆ cookies,
      ((pairs.map cookieText).map (' ' :: ·)).findSome? f = pairs.lookup name := by
    intro pairs hsub
    induction pairs with
    | nil => rfl
    | cons pair pairs ih =>
      have hblank := hpart [' '] (fun c hc => List.mem_singleton.mp hc) pair
        (hsub List.mem_cons_self)
      rw [List.singleton_append] at hblank
      rw [List.map_cons, List.map_cons, List.findSome?_cons, hblank, List.lookup_cons,
        ih fun p hp => hsub (List.mem_cons_of_mem _ hp)]
      by_cases heq : pair.1 = name
      · rw [if_pos heq, heq, beq_self_eq_true]
      · rw [if_neg heq, beq_false_of_ne (Ne.symm heq)]
  rw [cookieHeader, String.toList_ofList]
  cases cookies with
  | nil =>
    show ([[]] : List (List Char)).findSome? f = none
    rw [List.findSome?_cons, hnil]
    rfl
  | cons first rest =>
    have hsemicolon : ∀ part ∈ cookieText first :: rest.map cookieText, ';' ∉ part := by
      intro part hmem hsemi
      obtain ⟨pair, hpair, rfl⟩ := List.mem_map.mp
        (show part ∈ (first :: rest).map cookieText from hmem)
      rcases List.mem_append.mp hsemi with hsemi | hsemi
      · exact ((h.names pair hpair).2 _ hsemi).1 rfl
      · exact (h.values pair hpair).1 ((List.mem_cons.mp hsemi).resolve_left (by decide))
    have hfirst := hpart [] (fun c hc => absurd hc List.not_mem_nil) first List.mem_cons_self
    rw [List.nil_append] at hfirst
    rw [List.map_cons, splitOn_cookies hsemicolon, List.findSome?_cons, hfirst, List.lookup_cons,
      hrest rest (List.subset_cons_self first rest)]
    by_cases heq : first.1 = name
    · rw [if_pos heq, heq, beq_self_eq_true]
    · rw [if_neg heq, beq_false_of_ne (Ne.symm heq)]

/-- **A request shows a cookie as the browser keeps it.** -/
theorem readCookie_of_carries {request : Request} {cookies : List (String × String)}
    (h : Carries request cookies) (name : String) :
    readCookie request name = cookies.lookup name := by
  rw [readCookie, h.header]
  exact findSome?_cookies h rfl fun pad hpad pair hpair =>
    readCookie_part (h.names pair hpair) (h.values pair hpair) hpad name

/-! ### Queries -/

/-- **What is written into a query is read from it.** -/
theorem searchParam_query (pairs : List (String × String)) (name : String) :
    searchParam ("?" ++ queryText pairs) name = pairs.lookup name := by
  have hget : Query.get (pairs.map fun p => (p.1.toList, p.2.toList)) name.toList =
      (pairs.lookup name).map String.toList := by
    unfold Query.get
    induction pairs with
    | nil => rfl
    | cons pair pairs ih =>
      rw [List.map_cons, List.find?_cons, List.lookup_cons]
      by_cases heq : pair.1 = name
      · simp [heq]
      · have hne : decide (pair.1.toList = name.toList) = false :=
          decide_eq_false (mt String.toList_inj.mp heq)
        rw [hne, beq_false_of_ne (Ne.symm heq)]
        exact ih
  -- the question mark goes, and the pairs are read back
  have hmark : ("?" ++ queryText pairs).toList =
      '?' :: Query.serialize (pairs.map fun p => (p.1.toList, p.2.toList)) := by
    have htext : (queryText pairs).toList =
      Query.serialize (pairs.map fun p => (p.1.toList, p.2.toList)) := String.toList_ofList
    rw [String.toList_append, htext]
    rfl
  unfold searchParam
  rw [hmark]
  have hquery : (if ('?' :: Query.serialize (pairs.map fun p => (p.1.toList, p.2.toList))).head? =
      some '?' then ('?' :: Query.serialize (pairs.map fun p => (p.1.toList, p.2.toList))).tail
      else '?' :: Query.serialize (pairs.map fun p => (p.1.toList, p.2.toList))) =
      Query.serialize (pairs.map fun p => (p.1.toList, p.2.toList)) := if_pos rfl
  dsimp only
  rw [hquery, Query.parse_serialize, hget]
  cases pairs.lookup name <;> simp

/-! ### Tokens -/

/-- JSON keeps what is sealed. -/
structure Faithful (lib : Libraries) : Prop where
  flows : ∀ flow time, Begun flow time → lib.flows.Keeps flow
  sessions : ∀ session time, session.exp = Number.ofInt time → lib.sessions.Keeps session

variable {lib : Libraries} {cfg : LoginConfig}

/-- A token: a payload and its MAC. -/
def token (lib : Libraries) (cfg : LoginConfig) (purpose payload : String) : String :=
  payload ++ "." ++ Auth.mac lib.hmac cfg.auth.sessionSecret purpose payload

theorem sealedAs {T : Type} {codec : JsonCodec T} {value : T} (hkeeps : codec.Keeps value)
    (secret purpose : String) :
    SealedAs lib.hmac secret purpose (b64url (encodeUtf8 (codec.stringify value)))
      («seal» lib.hmac codec secret purpose value) := by
  refine sealedAs_of_bytes (fun key message hempty => ?_)
    (fun key message _ => (lib.digest key message).2) hkeeps
  have hlength := (lib.digest key message).1
  rw [hempty] at hlength
  cases hlength

theorem isToken_seal (lib : Libraries) {T : Type} (codec : JsonCodec T) (secret purpose : String)
    (value : T) : IsToken («seal» lib.hmac codec secret purpose value) := by
  refine isToken_of_url fun c hc => ?_
  unfold «seal» at hc
  simp only [String.toList_append, List.mem_append] at hc
  rcases hc with (hc | hc) | hc
  · exact .inl (mem_b64url encodeUtf8_lt hc)
  · exact .inr (List.mem_singleton.mp hc)
  · exact .inl (mem_b64url (lib.digest _ _).2 hc)

theorem runtime_sessions (lib : Libraries) : lib.runtime.sessions = lib.sessions := by
  show (⟨lib.sessions.stringify, lib.sessions.parse, fun session => some session.exp⟩ :
    JsonCodec Session) = lib.sessions
  rw [← lib.sessions_exp]

theorem cookiePair_flow (flow : OAuthState) (maxAgeMs : ℤ) :
    cookiePair (Auth.cookie oauthCookie (flowCookie lib cfg flow) maxAgeMs) =
      (oauthCookie, flowCookie lib cfg flow) :=
  cookiePair_cookie isToken_oauthCookie (isToken_seal lib _ _ _ _) maxAgeMs

theorem cookiePair_session (session : Session) (maxAgeMs : ℤ) :
    cookiePair (Auth.cookie sessionCookie (sessionValue lib cfg session) maxAgeMs) =
      (sessionCookie, sessionValue lib cfg session) :=
  cookiePair_cookie isToken_sessionCookie (isToken_seal lib _ _ _ _) maxAgeMs

theorem cookiePair_clear : cookiePair (Auth.cookie oauthCookie "" 0) = (oauthCookie, "") :=
  cookiePair_cookie isToken_oauthCookie isToken_empty 0

theorem setCookies_consent (client : OAuthClient) (flow : OAuthState) :
    setCookies (consent lib client cfg.auth flow) = [(oauthCookie, flowCookie lib cfg flow)] := by
  rw [consent, setCookies_redirect, List.map_singleton]
  exact congrArg (· :: []) (cookiePair_flow flow _)

theorem setCookies_finish (returnTo : String) (session : Session) :
    setCookies (redirect returnTo [Auth.cookie oauthCookie "" 0,
        Auth.cookie sessionCookie (sessionValue lib cfg session) sessionTtlMs]) =
      [(oauthCookie, ""), (sessionCookie, sessionValue lib cfg session)] := by
  rw [setCookies_redirect, List.map_cons, List.map_singleton, cookiePair_clear, cookiePair_session]

end DashFaucet.Login

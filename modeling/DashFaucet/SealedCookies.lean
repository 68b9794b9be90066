import DashFaucet.Auth

/-!
# Sealed cookies are never confused

What `seal` writes and `unseal` reads, under a MAC that tells its messages apart.

* `fromB64url_b64url`: the encoding read back.
* `IdealMac`: a MAC that tells its messages apart. `mac_inj`: then it tells purposes and data apart.
* `unseal_iff`: what is unsealed, and from what.
* `sealed_cookies`: cookies of one purpose, and CSRF tokens, are never taken for another.
-/

namespace DashFaucet

/-- It is the comparison of the captcha's digests. -/
theorem digestEquals_iff {a b : String} : digestEquals a b = true ↔ a = b :=
  timingSafeEqualHex_iff

namespace Auth

/-! ### The encoding read back -/

theorem toUrl_alphabet : ∀ c ∈ Base64.alphabet, ofUrl (toUrl c) = c ∧
    ((toUrl c).isAlphanum || toUrl c = '_' || toUrl c = '-') = true :=
  List.all_iff_forall_prop.mp (by decide)

section Bytes

variable {bytes : List ℕ} (h : ∀ b ∈ bytes, b < 256)

include h

/-- The filling goes, and nothing else does. -/
theorem toList_b64url : (b64url bytes).toList = (Base64.digits bytes).map toUrl := by
  have hfill : (Base64.fill bytes).map toUrl = Base64.fill bytes := List.map_replicate ..
  have hdigits : ∀ c ∈ (Base64.digits bytes).map toUrl, c ≠ '=' := by
    rintro _ hc rfl
    obtain ⟨c, hc, heq⟩ := List.mem_map.mp hc
    have hurl := (toUrl_alphabet c (Base64.mem_digits h hc)).2
    rw [heq] at hurl
    cases hurl
  have hmap : (Base64.btoa bytes).map toUrl =
      (Base64.digits bytes).map toUrl ++ Base64.fill bytes := by
    rw [Base64.btoa_eq, List.map_append, hfill]
  rw [b64url, String.toList_ofList, hmap, Base64.fill]
  generalize (3 - bytes.length % 3) % 3 = k
  generalize (Base64.digits bytes).map toUrl = l at hdigits ⊢
  -- each fill character is dropped; the digits end in none
  induction k with
  | zero =>
    rw [List.replicate_zero, List.append_nil, List.rdropWhile_eq_self_iff]
    intro hne hlast
    exact hdigits _ (List.getLast_mem hne) (of_decide_eq_true hlast)
  | succ k ih =>
    rw [List.replicate_succ', ← List.append_assoc, List.rdropWhile_concat_pos _ _ _ (by rfl), ih]

/-- What stands in base64url. -/
theorem mem_b64url {c : Char} (hc : c ∈ (b64url bytes).toList) :
    (c.isAlphanum || c = '_' || c = '-') = true := by
  rw [toList_b64url h] at hc
  obtain ⟨d, hd, rfl⟩ := List.mem_map.mp hc
  exact (toUrl_alphabet d (Base64.mem_digits h hd)).2

theorem dot_notMem_b64url : '.' ∉ (b64url bytes).toList := fun hdot => by cases mem_b64url h hdot

/-- **Bytes read back from base64url.** -/
theorem fromB64url_b64url : fromB64url (b64url bytes) = .ok bytes := by
  have hurl : (b64url bytes).toList.all (fun c => c.isAlphanum || c = '_' || c = '-') = true :=
    List.all_eq_true.mpr fun c => mem_b64url h
  have hback : (b64url bytes).toList.map ofUrl = Base64.digits bytes := by
    rw [toList_b64url h, List.map_map]
    calc (Base64.digits bytes).map (ofUrl ∘ toUrl) = (Base64.digits bytes).map id :=
          List.map_congr_left fun c hc => (toUrl_alphabet c (Base64.mem_digits h hc)).1
      _ = Base64.digits bytes := List.map_id _
  have hlen : (b64url bytes).length = (Base64.digits bytes).length := by
    rw [← String.length_toList, toList_b64url h, List.length_map]
  have hfill : List.replicate ((4 - (b64url bytes).length % 4) % 4) '=' = Base64.fill bytes := by
    rw [hlen, Base64.fill_eq]
  unfold fromB64url
  rw [if_neg fun heq => by rw [hurl] at heq; cases heq]
  dsimp only
  rw [hback, hfill, ← Base64.btoa_eq, Base64.atob_btoa h]

theorem b64url_ne_empty (hne : bytes ≠ []) : b64url bytes ≠ "" := by
  intro hempty
  have hread := fromB64url_b64url h
  rw [hempty] at hread
  cases hread
  exact hne rfl

end Bytes

theorem b64url_inj {bytes bytes' : List ℕ} (h : ∀ b ∈ bytes, b < 256) (h' : ∀ b ∈ bytes', b < 256)
    (heq : b64url bytes = b64url bytes') : bytes = bytes' := by
  have hread := fromB64url_b64url h
  rw [heq, fromB64url_b64url h'] at hread
  exact (Except.ok.inj hread).symm

/-! ### An ideal MAC -/

theorem encodeUtf8_lt {s : String} : ∀ b ∈ encodeUtf8 s, b < 256 :=
  fun _ hb => Utf8.lt_of_mem_encode hb

theorem encodeUtf8_inj {s s' : String} (h : encodeUtf8 s = encodeUtf8 s') : s = s' :=
  String.toList_inj.mp (Utf8.encode_injective h)

/-- HMAC as an ideal: on bytes it returns bytes, at least one, and under one key it tells its
messages apart. -/
structure IdealMac (hmac : List ℕ → List ℕ → List ℕ) : Prop where
  nonempty : ∀ key message, hmac key message ≠ []
  byte_lt : ∀ key message, (∀ b ∈ message, b < 256) → ∀ b ∈ hmac key message, b < 256
  injective : ∀ key message message', (∀ b ∈ message, b < 256) → (∀ b ∈ message', b < 256) →
    hmac key message = hmac key message' → message = message'

section Mac

variable {hmac : List ℕ → List ℕ → List ℕ} (hideal : IdealMac hmac)
  {secret purpose purpose' data data' : String}

include hideal

theorem dot_notMem_mac : '.' ∉ (mac hmac secret purpose data).toList :=
  dot_notMem_b64url (hideal.byte_lt _ _ encodeUtf8_lt)

/-- **A MAC tells purposes and data apart**: no dot in a purpose moves the boundary. -/
theorem mac_inj (hdot : '.' ∉ purpose.toList) (hdot' : '.' ∉ purpose'.toList)
    (h : mac hmac secret purpose data = mac hmac secret purpose' data') :
    purpose = purpose' ∧ data = data' := by
  have hbytes := b64url_inj (hideal.byte_lt _ _ encodeUtf8_lt) (hideal.byte_lt _ _ encodeUtf8_lt) h
  have htext := encodeUtf8_inj (hideal.injective _ _ _ encodeUtf8_lt encodeUtf8_lt hbytes)
  have hlist : purpose.toList ++ '.' :: data.toList = purpose'.toList ++ '.' :: data'.toList := by
    have hlist := congrArg String.toList htext
    simp only [String.toList_append, List.append_assoc] at hlist
    exact hlist
  -- the first dot is where the purpose ends
  have hsplit := congrArg (List.splitOn '.') hlist
  rw [List.splitOn_append_cons_self_of_not_mem hdot,
    List.splitOn_append_cons_self_of_not_mem hdot'] at hsplit
  have hpurpose := (List.cons.inj hsplit).1
  rw [hpurpose] at hlist
  have hdata := (List.cons.inj (List.append_cancel_left hlist)).2
  exact ⟨String.toList_inj.mp hpurpose, String.toList_inj.mp hdata⟩

end Mac

/-! ### What is unsealed -/

section Seal

variable {hmac : List ℕ → List ℕ → List ℕ} {T : Type} {codec : JsonCodec T}
  {secret purpose purpose' : String} {value value' : T} {token : String} {now now' : Number}

/-- `token` is a payload, a dot and the MAC of the payload for `purpose`, and neither is empty. -/
structure SealedAs (hmac : List ℕ → List ℕ → List ℕ) (secret purpose payload token : String) :
    Prop where
  split : token.toList.splitOn '.' = [payload.toList, (mac hmac secret purpose payload).toList]
  payload_ne : payload ≠ ""
  mac_ne : mac hmac secret purpose payload ≠ ""

/-- What a payload in base64url stands for. -/
def Reads (codec : JsonCodec T) (payload : String) (value : T) : Prop :=
  ∃ bytes, fromB64url payload = .ok bytes ∧
    codec.parse (String.ofList (Utf8.decode bytes)) = .ok value

/-- A value is unexpired. -/
def Unexpired (codec : JsonCodec T) (value : T) (now : Number) : Prop :=
  ∃ exp, codec.exp value = some exp ∧ now < exp

theorem Reads.unique {payload : String} (h : Reads codec payload value)
    (h' : Reads codec payload value') : value = value' := by
  obtain ⟨bytes, hbytes, hparse⟩ := h
  obtain ⟨bytes', hbytes', hparse'⟩ := h'
  rw [hbytes] at hbytes'
  cases hbytes'
  rw [hparse] at hparse'
  cases hparse'
  rfl

/-- What is kept reads back. -/
theorem reads_b64url (hkeeps : codec.Keeps value) :
    Reads codec (b64url (encodeUtf8 (codec.stringify value))) value := by
  refine ⟨_, fromB64url_b64url encodeUtf8_lt, ?_⟩
  have htext : Utf8.decode (encodeUtf8 (codec.stringify value)) =
      (codec.stringify value).toList := by
    refine Utf8.decode_encode ?_
    -- an object starts with a brace, not with a byte order mark
    rw [hkeeps.brace]
    decide
  rw [htext, String.ofList_toList, hkeeps.parse_stringify]

theorem SealedAs.eq {payload : String} (h : SealedAs hmac secret purpose payload token) :
    token = payload ++ "." ++ mac hmac secret purpose payload := by
  rw [← String.toList_inj, String.toList_append, String.toList_append, List.append_assoc]
  calc token.toList = ['.'].intercalate (token.toList.splitOn '.') :=
        (List.intercalate_splitOn '.').symm
    _ = payload.toList ++ (".".toList ++ (mac hmac secret purpose payload).toList) := by
        rw [h.split, List.intercalate_cons_cons, List.intercalate_singleton]
        exact List.append_assoc ..

/-- What follows once the signature is checked. -/
theorem open_iff {payload : String} :
    (match fromB64url payload with
      | .error _ => none
      | .ok bytes =>
        match codec.parse (String.ofList (Utf8.decode bytes)) with
        | .error _ => none
        | .ok value =>
          match codec.exp value with
          | some exp => if exp > now then some value else none
          | none => none) = some value ↔
      Reads codec payload value ∧ Unexpired codec value now := by
  constructor
  · intro h
    -- what is no base64url, no JSON or expired returns nothing
    split at h
    · cases h
    next bytes hbytes =>
      split at h
      · cases h
      next read hread =>
        split at h
        · next exp hexp =>
          split at h
          · next hlive =>
            cases h
            exact ⟨⟨bytes, hbytes, hread⟩, exp, hexp, hlive⟩
          · cases h
        · cases h
  · rintro ⟨⟨bytes, hbytes, hread⟩, exp, hexp, hlive⟩
    rw [hbytes]
    dsimp only
    rw [hread]
    dsimp only
    rw [hexp]
    exact if_pos hlive

/-- **What is unsealed is the payload of its own token**, unexpired, and every such payload is. -/
theorem unseal_iff : «unseal» hmac codec secret purpose (some token) now = some value ↔
    ∃ payload, SealedAs hmac secret purpose payload token ∧ Reads codec payload value ∧
      Unexpired codec value now := by
  constructor
  · intro h
    unfold «unseal» at h
    -- check by check, in the order of the source
    split at h
    · cases h
    next text htext =>
      cases (Option.filter_eq_some_iff.mp htext).1
      split at h
      · next payload signature hsplit =>
        dsimp only at h
        split at h
        · cases h
        next hne =>
          obtain ⟨hpayload, hsignature⟩ := not_or.mp hne
          split at h
          · cases h
          next hsigned =>
            rw [Bool.not_eq_false, digestEquals_iff] at hsigned
            refine ⟨String.ofList payload, ⟨?_, hpayload, hsigned ▸ hsignature⟩, open_iff.mp h⟩
            rw [hsplit, ← hsigned, String.toList_ofList, String.toList_ofList]
      · cases h
  · rintro ⟨payload, hsealed, hopen⟩
    -- the empty cookie has no dot, so it is not sealed
    have hne : token ≠ "" := by
      rintro rfl
      exact absurd (congrArg List.length hsealed.split) (by decide : (1 : ℕ) ≠ 2)
    have hfilter : (some token).filter (· ≠ "") = some token :=
      Option.filter_eq_some_iff.mpr ⟨rfl, decide_eq_true hne⟩
    unfold «unseal»
    rw [hfilter]
    dsimp only
    rw [hsealed.split]
    dsimp only
    rw [String.ofList_toList, String.ofList_toList,
      if_neg (not_or.mpr ⟨hsealed.payload_ne, hsealed.mac_ne⟩), if_neg]
    · exact open_iff.mpr hopen
    · rw [Bool.not_eq_false, digestEquals_iff]

/-- What is not split by a dot is not unsealed. -/
theorem unseal_none (h : '.' ∉ token.toList) :
    «unseal» hmac codec secret purpose (some token) now = none := by
  rw [Option.eq_none_iff_forall_ne_some]
  intro value hvalue
  obtain ⟨payload, hsealed, -⟩ := unseal_iff.mp hvalue
  have hsplit := hsealed.split
  rw [List.splitOn_eq_singleton h] at hsplit
  exact absurd (congrArg List.length hsplit) (by decide : (1 : ℕ) ≠ 2)

/-- A sealed value is sealed as its payload, when a MAC is some bytes. -/
theorem sealedAs_of_bytes (hnonempty : ∀ key message, hmac key message ≠ [])
    (hbytes : ∀ key message, (∀ b ∈ message, b < 256) → ∀ b ∈ hmac key message, b < 256)
    (hkeeps : codec.Keeps value) :
    SealedAs hmac secret purpose (b64url (encodeUtf8 (codec.stringify value)))
      («seal» hmac codec secret purpose value) := by
  refine ⟨?_, ?_, b64url_ne_empty (hbytes _ _ encodeUtf8_lt) (hnonempty _ _)⟩
  · have hlist : («seal» hmac codec secret purpose value).toList =
        (b64url (encodeUtf8 (codec.stringify value))).toList ++
          '.' ::
            (mac hmac secret purpose (b64url (encodeUtf8 (codec.stringify value)))).toList := by
      simp only [«seal», String.toList_append, List.append_assoc]
      rfl
    have hmac : '.' ∉
        (mac hmac secret purpose (b64url (encodeUtf8 (codec.stringify value)))).toList :=
      dot_notMem_b64url (hbytes _ _ encodeUtf8_lt)
    rw [hlist, List.splitOn_append_cons_self_of_not_mem (dot_notMem_b64url encodeUtf8_lt),
      List.splitOn_eq_singleton hmac]
  · refine b64url_ne_empty encodeUtf8_lt fun hempty => ?_
    -- the text of an object is not empty
    have htext : codec.stringify value = "" := encodeUtf8_inj hempty
    have hbrace := hkeeps.brace
    rw [htext] at hbrace
    cases hbrace

variable (hideal : IdealMac hmac)

include hideal

/-- A sealed value is sealed as its payload. -/
theorem sealedAs_seal (hkeeps : codec.Keeps value) :
    SealedAs hmac secret purpose (b64url (encodeUtf8 (codec.stringify value)))
      («seal» hmac codec secret purpose value) :=
  sealedAs_of_bytes hideal.nonempty hideal.byte_lt hkeeps

/-- One token is sealed for one purpose. -/
theorem SealedAs.purpose_unique {payload payload' : String} (hdot : '.' ∉ purpose.toList)
    (hdot' : '.' ∉ purpose'.toList) (h : SealedAs hmac secret purpose payload token)
    (h' : SealedAs hmac secret purpose' payload' token) : purpose = purpose' := by
  have hsplit := h.split
  rw [h'.split] at hsplit
  have hmac := (List.cons.inj (List.cons.inj hsplit).2).1
  exact (mac_inj hideal hdot hdot' (String.toList_inj.mp hmac.symm)).1

/-- **Sealed cookies round-trip and are never confused.** A sealed value is unsealed until it
expires. What is unsealed for a purpose is `payload.mac` with the MAC of that payload for that
purpose, unexpired, so no token is unsealed for two purposes. A CSRF token is unsealed for none,
and nothing sealed for another purpose is one, nor is its MAC. -/
theorem sealed_cookies :
    (∀ secret purpose value now exp, codec.Keeps value → codec.exp value = some exp → now < exp →
      «unseal» hmac codec secret purpose (some («seal» hmac codec secret purpose value)) now =
        some value) ∧
    (∀ secret purpose token now value,
      «unseal» hmac codec secret purpose (some token) now = some value →
        ∃ payload exp, token = payload ++ "." ++ mac hmac secret purpose payload ∧
          Reads codec payload value ∧ codec.exp value = some exp ∧ now < exp) ∧
    (∀ secret purpose purpose' token now now' value, '.' ∉ purpose.toList → '.' ∉ purpose'.toList →
      purpose ≠ purpose' → «unseal» hmac codec secret purpose (some token) now = some value →
        «unseal» hmac codec secret purpose' (some token) now' = none) ∧
    ∀ (session : Session) (cfg : AuthConfig),
      (∀ purpose now, «unseal» hmac codec cfg.sessionSecret purpose
        (some (csrfToken hmac session cfg)) now = none) ∧
      ∀ purpose payload, '.' ∉ purpose.toList → purpose ≠ "csrf" →
        digestEquals (mac hmac cfg.sessionSecret purpose payload) (csrfToken hmac session cfg) =
            false ∧
          digestEquals (payload ++ "." ++ mac hmac cfg.sessionSecret purpose payload)
            (csrfToken hmac session cfg) = false := by
  refine ⟨?_, ?_, ?_, fun session cfg => ⟨?_, ?_⟩⟩
  · intro secret purpose value now exp hkeeps hexp hlive
    exact unseal_iff.mpr ⟨_, sealedAs_seal hideal hkeeps, reads_b64url hkeeps, exp, hexp, hlive⟩
  · intro secret purpose token now value h
    obtain ⟨payload, hsealed, hreads, exp, hexp, hlive⟩ := unseal_iff.mp h
    exact ⟨payload, exp, hsealed.eq, hreads, hexp, hlive⟩
  · intro secret purpose purpose' token now now' value hdot hdot' hne h
    rw [Option.eq_none_iff_forall_ne_some]
    intro value' h'
    obtain ⟨payload, hsealed, -⟩ := unseal_iff.mp h
    obtain ⟨payload', hsealed', -⟩ := unseal_iff.mp h'
    -- the token is both payloads with their MACs, so the purposes are one
    exact hne (hsealed.purpose_unique hideal hdot hdot' hsealed')
  · -- a CSRF token is a MAC, and that has no dot
    intro purpose now
    exact unseal_none (dot_notMem_mac hideal)
  · intro purpose payload hdot hne
    constructor
    · rw [← Bool.not_eq_true, digestEquals_iff]
      intro heq
      exact hne (mac_inj hideal hdot (by decide) heq).1
    · rw [← Bool.not_eq_true, digestEquals_iff]
      intro heq
      -- the token has a dot, a MAC has none
      have hmem : '.' ∈ (payload ++ "." ++ mac hmac cfg.sessionSecret purpose payload).toList := by
        simp [String.toList_append]
      rw [heq] at hmem
      exact dot_notMem_mac hideal hmem

end Seal

/-- A session cookie that holds only its expiry, under a MAC that is the message itself: it is read
back as a session, and not as a state cookie. -/
theorem sealed_cookies_expiry :
    let hmac : List ℕ → List ℕ → List ℕ := fun _ message => 0 :: message
    let text := "\x7b\"exp\":601000\x7d"
    let codec : JsonCodec ℤ :=
      { stringify := fun _ => text
        parse := fun s => if s = text then .ok 601000 else .error "SyntaxError"
        exp := fun n => some (Number.ofInt n) }
    let cookie := «seal» hmac codec "secret" "session" 601000
    «unseal» hmac codec "secret" "session" (some cookie) (Number.ofInt 1000) = some 601000 ∧
      «unseal» hmac codec "secret" "oauth" (some cookie) (Number.ofInt 1000) = none := by
  intro hmac text codec cookie
  -- a MAC that shows the message
  have hideal : IdealMac hmac :=
    { nonempty := fun _ _ => List.cons_ne_nil _ _
      byte_lt := fun _ message hmessage b hb => by
        rcases List.mem_cons.mp hb with rfl | hb
        · decide
        · exact hmessage b hb
      injective := fun _ message message' _ _ h => (List.cons.inj h).2 }
  have hparse : (if text = text then .ok 601000 else .error "SyntaxError" : Except String ℤ) =
      .ok 601000 := if_pos rfl
  have hkeeps : codec.Keeps 601000 := ⟨hparse, by decide⟩
  obtain ⟨hround, -, hpurpose, -⟩ := @sealed_cookies hmac ℤ codec hideal
  have hread := hround "secret" "session" 601000 (Number.ofInt 1000) (Number.ofInt 601000) hkeeps
    rfl (Number.ofInt_lt_ofInt.mpr (by decide))
  exact ⟨hread, hpurpose "secret" "session" "oauth" cookie _ _ _ (by decide) (by decide)
    (by decide) hread⟩

end Auth

end DashFaucet

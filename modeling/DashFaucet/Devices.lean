import DashFaucet.CapTokens
import DashFaucet.Data.Query
import DashFaucet.LoginTrip

/-!
# Devices and vouchers at rest

The rest of `invitation.ts`: the cookie that names a device, the hashes that the window of
invitations is kept by, and the encryption of a voucher's key. HMAC-SHA-256, SHA-256 and AES-GCM
stay parameters.

* `invitationDevice`: the device of a request. `suppliedDevice_iff`, `suppliedDevice_of_carries`:
  whom a cookie names, and that a browser that keeps it stays one device.
* `signals_apart`: signals that hash alike are one signal, or a collision; so are keys.
* `decryptWif_encryptWif`, `parse_invitationUri`: a voucher's key survives its storage and its link.
-/

namespace DashFaucet.Devices

open Login (IsToken IsValue Carries cookiePair)

def deviceCookie : String := "dash_invite_device"

def deviceMaxAgeSecs : ℕ := 30 * 24 * 60 * 60

section

variable (hmac : List ℕ → List ℕ → List ℕ) (sha256 : List ℕ → List ℕ)

/-- A key of its own for each purpose. -/
def secretBytes (secret purpose : String) : List ℕ :=
  sha256 (encodeUtf8 (purpose ++ "\x00" ++ secret))

def constantTimeEqual (a b : String) : Bool := digestEquals a b

def signature (secret deviceId : String) : String :=
  toHex (hmac (secretBytes sha256 secret "device-cookie") (encodeUtf8 deviceId))

/-- What the cookie holds. -/
def deviceValue (secret id : String) : String := id ++ "." ++ signature hmac sha256 secret id

def cookieValue (request : Request) : Option String :=
  (((request.header "Cookie").getD "").toList.splitOn ';').findSome? fun part =>
    let part := Text.trim part
    let name := part.takeWhile (· ≠ '=')
    if String.ofList name = deviceCookie then some (String.ofList (part.drop (name.length + 1)))
    else none

/-- `/^[0-9a-f-]{36}$/i` -/
def isDeviceId (id : List Char) : Bool :=
  decide (id.length = 36) && id.all fun c => oneOf "0123456789abcdef-" c.toLower

/-- `/^[0-9a-f]{64}$/i` -/
def isDeviceMac (mac : List Char) : Bool :=
  decide (mac.length = 64) && mac.all fun c => oneOf "0123456789abcdef" c.toLower

/-- The device that the request's cookie names, if it is signed. -/
def suppliedDevice (secret : String) (request : Request) : Option String :=
  match (cookieValue request).filter (· ≠ "") with
  | none => none
  | some supplied =>
    -- the last dot divides the id from its signature
    let id := (supplied.toList.rdropWhile (· ≠ '.')).dropLast
    let mac := supplied.toList.rtakeWhile (· ≠ '.')
    if id ≠ [] ∧ isDeviceId id = true ∧ isDeviceMac mac = true ∧
        constantTimeEqual (String.ofList (mac.map Char.toLower))
          (signature hmac sha256 secret (String.ofList id)) = true then
      some (String.ofList id)
    else none

structure Device where
  id : String
  setCookie : Option String := none
deriving DecidableEq

/-- The `Set-Cookie` header of a device. -/
def deviceHeader (secret id : String) : String :=
  deviceCookie ++ "=" ++ deviceValue hmac sha256 secret id ++
    s!"; Max-Age={deviceMaxAgeSecs}; Path=/; Secure; HttpOnly; SameSite=Strict"

/-- A stable signed device ID. A device that the request does not name is new: its id is drawn. -/
def invitationDevice (secret : String) (request : Request) (randomUUID : String) : Device :=
  match suppliedDevice hmac sha256 secret request with
  | some id => { id }
  | none => { id := randomUUID, setCookie := some (deviceHeader hmac sha256 secret randomUUID) }

/-- A signal as it is named. -/
def kindName : SignalKind → String
  | .ip => "ip"
  | .device => "device"

/-- Pseudonymous durable key for an IP or device identifier. -/
def hashInvitationSignal (secret : String) (kind : SignalKind) (value : String) : String :=
  toHex (hmac (secretBytes sha256 secret "rate-limit") (encodeUtf8 (kindName kind ++ ":" ++ value)))

/-- AES-GCM with a key, an iv and a text; decryption fails where the tag does not match. -/
structure AesGcm where
  encrypt : List ℕ → List ℕ → List ℕ → List ℕ
  decrypt : List ℕ → List ℕ → List ℕ → Option (List ℕ)

variable (aes : AesGcm)

/-- The iv is 12 random bytes. -/
def encryptWif (wif secret : String) (iv : List ℕ) : EncryptedSecret where
  cipherHex := toHex (aes.encrypt (secretBytes sha256 secret "voucher-encryption") iv
    (encodeUtf8 wif))
  ivHex := toHex iv

def decryptWif (encrypted : EncryptedSecret) (secret : String) : Except String String :=
  match hexToBytes encrypted.ivHex.toList, hexToBytes encrypted.cipherHex.toList with
  | some iv, some cipher =>
    match aes.decrypt (secretBytes sha256 secret "voucher-encryption") iv cipher with
    | some plain => .ok (String.ofList (Utf8.decode plain))
    | none => .error "The operation failed for an operation-specific reason"
  | _, _ => .error "invalid hex"

end

/-! ### Cookies -/

section Cookies

variable {hmac : List ℕ → List ℕ → List ℕ} {sha256 : List ℕ → List ℕ} {secret id : String}
  {request : Request}
  (hdigest : ∀ key message, (hmac key message).length = 32)

theorem dot_notMem_of_isDeviceMac {mac : List Char} (h : isDeviceMac mac = true) : '.' ∉ mac := by
  intro hmem
  rw [isDeviceMac, Bool.and_eq_true, List.all_eq_true] at h
  exact absurd (h.2 '.' hmem) (by decide)

/-- A text is cut at its last dot. -/
theorem cut_last (front : List Char) {back : List Char} (h : '.' ∉ back) :
    (front ++ '.' :: back).rdropWhile (· ≠ '.') = front ++ ['.'] ∧
      (front ++ '.' :: back).rtakeWhile (· ≠ '.') = back := by
  have hback : ∀ c ∈ back.reverse, decide (c ≠ '.') = true := fun c hc =>
    decide_eq_true fun heq => h (heq ▸ List.mem_reverse.mp hc)
  have hreverse : (front ++ '.' :: back).reverse = back.reverse ++ '.' :: front.reverse := by simp
  constructor
  · rw [List.rdropWhile, hreverse, List.dropWhile_append_of_pos hback]
    simp
  · rw [List.rtakeWhile, hreverse, List.takeWhile_append_of_pos hback]
    simp

include hdigest

theorem isDeviceMac_of_eq {mac : List Char}
    (h : String.ofList (mac.map Char.toLower) = signature hmac sha256 secret id) :
    isDeviceMac mac = true := by
  have hchars : mac.map Char.toLower =
      (hmac (secretBytes sha256 secret "device-cookie") (encodeUtf8 id)).flatMap
        DashTx.byteHex := by
    rw [← String.toList_ofList (l := mac.map Char.toLower), h, signature, toHex,
      String.toList_ofList]
  have hlength : mac.length = 64 := by
    have hlen := congrArg List.length hchars
    rw [List.length_map, length_bytes, hdigest] at hlen
    exact hlen
  rw [isDeviceMac, Bool.and_eq_true, List.all_eq_true]
  refine ⟨decide_eq_true hlength, fun c hc => ?_⟩
  have hmem : c.toLower ∈ mac.map Char.toLower := List.mem_map_of_mem hc
  rw [hchars] at hmem
  exact List.contains_iff_mem.mpr (mem_bytes hmem)

/-- **Whom a cookie names**: the device whose signature it shows, and nobody else. -/
theorem suppliedDevice_iff : suppliedDevice hmac sha256 secret request = some id ↔
    isDeviceId id.toList = true ∧ ∃ mac, cookieValue request = some (id ++ "." ++ mac) ∧
      String.ofList (mac.toList.map Char.toLower) = signature hmac sha256 secret id := by
  unfold suppliedDevice
  constructor
  · intro h
    split at h
    · cases h
    next supplied hsupplied =>
      dsimp only at h
      split at h
      next hchecks =>
        obtain ⟨hne, hid, -, hmac⟩ := hchecks
        cases h
        have hcookie := (Option.filter_eq_some_iff.mp hsupplied).1
        -- the id ends before the last dot
        obtain ⟨front, hfront⟩ :
            ∃ front, supplied.toList.rdropWhile (· ≠ '.') = front ++ ['.'] := by
          have hnonempty : supplied.toList.rdropWhile (· ≠ '.') ≠ [] := fun hnil =>
            hne (by rw [hnil]; rfl)
          refine ⟨(supplied.toList.rdropWhile (· ≠ '.')).dropLast, ?_⟩
          have hlast := List.rdropWhile_last_not (· ≠ '.') supplied.toList hnonempty
          rw [decide_eq_true_eq, not_not] at hlast
          have hsplit := (List.dropLast_append_getLast hnonempty).symm
          rwa [hlast] at hsplit
        rw [hfront, List.dropLast_concat] at hid hmac ⊢
        refine ⟨by rwa [String.toList_ofList],
          String.ofList (supplied.toList.rtakeWhile (· ≠ '.')), ?_, ?_⟩
        · rw [hcookie]
          have hsplit := List.rdropWhile_append_rtakeWhile (p := (· ≠ '.')) (l := supplied.toList)
          rw [hfront] at hsplit
          refine congrArg some (String.toList_inj.mp ?_)
          simp only [String.toList_append, String.toList_ofList]
          exact hsplit.symm
        · rw [String.toList_ofList]
          exact digestEquals_iff.mp hmac
      · cases h
  · rintro ⟨hid, mac, hcookie, hmac⟩
    have hform := isDeviceMac_of_eq hdigest hmac
    -- a signature holds no dot, so the last one is the one before it
    have hcut := cut_last id.toList (dot_notMem_of_isDeviceMac hform)
    have htext : (id ++ "." ++ mac).toList = id.toList ++ '.' :: mac.toList := by
      rw [String.toList_append, String.toList_append, List.append_assoc]
      rfl
    have hne : id.toList ≠ [] := by
      rintro hnil
      rw [hnil] at hid
      exact absurd hid (by decide)
    have hsupplied : (cookieValue request).filter (· ≠ "") = some (id ++ "." ++ mac) := by
      rw [hcookie, Option.filter_some, if_pos]
      refine decide_eq_true fun hempty => ?_
      have hnil := congrArg String.toList hempty
      rw [htext] at hnil
      exact absurd hnil (by simp)
    rw [hsupplied]
    dsimp only
    rw [htext, hcut.1, hcut.2, List.dropLast_concat, String.ofList_toList]
    rw [if_pos ⟨hne, hid, hform, digestEquals_iff.mpr hmac⟩]

end Cookies

/-! ### A cookie that is kept -/

section Kept

variable {hmac : List ℕ → List ℕ → List ℕ} {sha256 : List ℕ → List ℕ} {secret id : String}
  {request : Request}

theorem toLower_hex : ∀ c ∈ "0123456789abcdef".toList, c.toLower = c :=
  List.all_iff_forall_prop.mp (by decide)

theorem isToken_deviceCookie : IsToken deviceCookie := List.all_iff_forall_prop.mp (by decide)

theorem isAlphanum_of_toLower {c : Char} {text : String} (h : c.toLower ∈ text.toList)
    (htext : text.toList.all fun d => d.isAlphanum || decide (d = '-')) :
    c.isAlphanum = true ∨ c = '-' := by
  by_cases hupper : c.isUpper = true
  · left
    show ((c.isUpper || c.isLower) || c.isDigit) = true
    rw [hupper]
    rfl
  · have hsame : c.toLower = c := by
      unfold Char.toLower
      unfold Char.isUpper at hupper
      simp only [decide_eq_true_eq] at hupper
      exact dif_neg hupper
    rw [hsame] at h
    have hall := List.all_eq_true.mp htext c h
    rwa [Bool.or_eq_true, decide_eq_true_eq] at hall

theorem isToken_deviceValue (hid : isDeviceId id.toList = true) :
    IsToken (deviceValue hmac sha256 secret id) := by
  refine Login.isToken_of_url fun c hc => ?_
  rw [deviceValue, String.toList_append, String.toList_append] at hc
  rcases List.mem_append.mp hc with hc | hc
  · rcases List.mem_append.mp hc with hc | hc
    · rw [isDeviceId, Bool.and_eq_true, List.all_eq_true] at hid
      have hmem := List.contains_iff_mem.mp (hid.2 c hc)
      left
      rcases isAlphanum_of_toLower hmem (by decide) with h | rfl
      · rw [h]; rfl
      · rfl
    · exact .inr (List.mem_singleton.mp hc)
  · left
    rw [signature, toHex, String.toList_ofList] at hc
    have hall : "0123456789abcdef".toList.all (fun d => d.isAlphanum) = true := by decide
    rw [List.all_eq_true.mp hall c (mem_bytes hc)]
    rfl

/-- A part of the header, as `cookieValue` takes it apart. -/
theorem cookieValue_part {name value : String} {pad : List Char} (hname : IsToken name)
    (hvalue : IsValue value) (hpad : ∀ c ∈ pad, c = ' ') :
    (let part := Text.trim (pad ++ Login.cookieText (name, value))
     let key := part.takeWhile (· ≠ '=')
     if String.ofList key = deviceCookie then some (String.ofList (part.drop (key.length + 1)))
     else none) = if name = deviceCookie then some value else none := by
  have hwhite : ∀ c ∈ name.toList ++ ['='], Text.isWhite c = false := by
    intro c hc
    rcases List.mem_append.mp hc with hc | hc
    · exact (hname c hc).2.2
    · rw [List.mem_singleton.mp hc]
      decide
  -- a blank stands before the pair at most, and neither name nor value ends in one
  have hvalue : Text.trim value.toList = value.toList := by
    have htrim := congrArg String.toList hvalue.2
    rwa [trim, String.toList_ofList] at htrim
  have htrim : Text.trim (pad ++ Login.cookieText (name, value)) =
      Login.cookieText (name, value) := by
    have htext : Login.cookieText (name, value) = (name.toList ++ ['=']) ++ value.toList := by
      rw [List.append_assoc]
      rfl
    rw [Text.trim_append_left fun c hc => by rw [hpad c hc]; decide, htext]
    exact Text.trim_append_of_trim (by simp) hwhite hvalue
  have hkey : (Login.cookieText (name, value)).takeWhile (· ≠ '=') = name.toList := by
    rw [Login.cookieText, List.takeWhile_append_of_pos fun c hc =>
      decide_eq_true (hname c hc).2.1]
    simp
  have hrest : (Login.cookieText (name, value)).drop (name.toList.length + 1) = value.toList := by
    rw [Login.cookieText, List.drop_append]
    simp
  dsimp only
  rw [htrim, hkey, hrest, String.ofList_toList, String.ofList_toList]

/-- A browser keeps what a reply sets. -/
theorem cookiePair_device (hid : isDeviceId id.toList = true) :
    cookiePair (deviceHeader hmac sha256 secret id) =
      (deviceCookie, deviceValue hmac sha256 secret id) := by
  refine Login.cookiePair_eq isToken_deviceCookie (isToken_deviceValue hid)
    (s!" Max-Age={deviceMaxAgeSecs}; Path=/; Secure; HttpOnly; SameSite=Strict").toList ?_
  simp only [deviceHeader, String.toList_append, toString, List.append_assoc]
  rfl

/-- **A browser stays one device** as long as it keeps the cookie it was given. -/
theorem suppliedDevice_of_carries (hdigest : ∀ key message, (hmac key message).length = 32)
    {cookies : List (String × String)} (h : Carries request cookies)
    (hid : isDeviceId id.toList = true)
    (hcookie : cookies.lookup deviceCookie = some (deviceValue hmac sha256 secret id)) :
    suppliedDevice hmac sha256 secret request = some id := by
  refine (suppliedDevice_iff hdigest).mpr ⟨hid, signature hmac sha256 secret id, ?_, ?_⟩
  · rw [cookieValue, h.header]
    refine (Login.findSome?_cookies h (by rfl) fun pad hpad pair hpair => ?_).trans hcookie
    exact cookieValue_part (h.names pair hpair).2 (h.values pair hpair) hpad
  · rw [signature, toHex, String.toList_ofList]
    refine congrArg String.ofList ((List.map_congr_left fun c hc => ?_).trans (List.map_id _))
    exact toLower_hex c (mem_bytes hc)

/-- **A device is kept, and cannot be made up.** A browser whose device is new and that keeps the
cookie of the reply is that device in every later request, whatever id would be drawn for it; and
a request names a device only with the signature of its id. -/
theorem device_kept (hdigest : ∀ key message, (hmac key message).length = 32) (secret : String) :
    (∀ (request next : Request) (uuid uuid' : String) (cookies : List (String × String)),
      isDeviceId uuid.toList = true →
      suppliedDevice hmac sha256 secret request = none →
      Carries next cookies →
      (∀ header ∈ (invitationDevice hmac sha256 secret request uuid).setCookie,
        cookies.lookup (cookiePair header).1 = some (cookiePair header).2) →
      invitationDevice hmac sha256 secret next uuid' = { id := uuid }) ∧
    ∀ (request : Request) (uuid : String),
      (invitationDevice hmac sha256 secret request uuid).setCookie = none →
      ∃ mac, cookieValue request =
          some ((invitationDevice hmac sha256 secret request uuid).id ++ "." ++ mac) ∧
        String.ofList (mac.toList.map Char.toLower) =
          signature hmac sha256 secret (invitationDevice hmac sha256 secret request uuid).id := by
  constructor
  · intro request next uuid uuid' cookies huuid hnew hcarries hkept
    have hset : (invitationDevice hmac sha256 secret request uuid).setCookie =
        some (deviceHeader hmac sha256 secret uuid) := by
      rw [invitationDevice, hnew]
    have hlookup := hkept _ hset
    rw [cookiePair_device huuid] at hlookup
    rw [invitationDevice, suppliedDevice_of_carries hdigest hcarries huuid hlookup]
  · -- no new cookie means that the old one named a device
    intro request uuid hnone
    cases hsupplied : suppliedDevice hmac sha256 secret request with
    | none =>
      rw [invitationDevice, hsupplied] at hnone
      cases hnone
    | some id =>
      rw [invitationDevice, hsupplied]
      exact ((suppliedDevice_iff hdigest).mp hsupplied).2

end Kept

section Sample

/-- A digest of 32 bytes. -/
def sampleHmac (key message : List ℕ) : List ℕ :=
  List.replicate 32 ((key.sum + message.sum) % 256)

def sampleUuid : String := "6f1e0c8a-3b7d-4e21-9c55-0d2a7b91e4f3"

/-- The first visit of a browser, and the next one. -/
theorem device_kept_sample :
    let value := deviceValue sampleHmac id "secret" sampleUuid
    invitationDevice sampleHmac id "secret" (Login.visit "/api/invitation" "" []) sampleUuid =
      { id := sampleUuid, setCookie := some (deviceHeader sampleHmac id "secret" sampleUuid) } ∧
    invitationDevice sampleHmac id "secret"
        (Login.visit "/api/invitation" "" [(deviceCookie, value)]) "" = { id := sampleUuid } := by
  have huuid : isDeviceId sampleUuid.toList = true := by decide +kernel
  have hdigest : ∀ key message, (sampleHmac key message).length = 32 :=
    fun _ _ => List.length_replicate ..
  refine ⟨by decide +kernel, ?_⟩
  refine (device_kept hdigest "secret").1
    (Login.visit "/api/invitation" "" []) _ sampleUuid "" _ huuid (by decide +kernel)
    (Login.carries_visit _ _ (by decide) isToken_deviceCookie (isToken_deviceValue huuid)) ?_
  -- the first request carries no cookie, so it gets one
  intro header hheader
  have hset : header = deviceHeader sampleHmac id "secret" sampleUuid := by
    have hnew : suppliedDevice sampleHmac id "secret"
        (Login.visit "/api/invitation" "" []) = none := by decide +kernel
    rw [invitationDevice, hnew] at hheader
    exact (Option.mem_some.mp hheader).symm
  rw [hset, cookiePair_device huuid]
  rfl

end Sample

/-! ### Signals and vouchers -/

section Vouchers

variable {hmac : List ℕ → List ℕ → List ℕ} {sha256 : List ℕ → List ℕ} {secret : String}

/-- What is hashed for a signal. -/
def signalText (kind : SignalKind) (value : String) : List ℕ :=
  encodeUtf8 (kindName kind ++ ":" ++ value)

/-- What the key of a purpose is made of. -/
def keyText (secret purpose : String) : List ℕ := encodeUtf8 (purpose ++ "\x00" ++ secret)

theorem bytes_injective {bytes bytes' : List ℕ} (h : ∀ b ∈ bytes, b < 256)
    (h' : ∀ b ∈ bytes', b < 256) (heq : toHex bytes = toHex bytes') : bytes = bytes' := by
  have hchars := congrArg String.toList heq
  rw [toHex, toHex, String.toList_ofList, String.toList_ofList] at hchars
  rw [← fromHex_bytes h, hchars, fromHex_bytes h']

/-- The texts that are hashed for signals keep the kinds apart. -/
theorem signalText_injective {kind kind' : SignalKind} {value value' : String}
    (h : signalText kind value = signalText kind' value') : kind = kind' ∧ value = value' := by
  have hchars := Utf8.encode_injective h
  simp only [String.toList_append] at hchars
  cases kind <;> cases kind' <;> simp [kindName, String.toList_inj] at hchars ⊢
  exacts [hchars, hchars]

/-- The texts that keys are made of keep the purposes apart. -/
theorem keyText_injective {purpose purpose' secret secret' : String}
    (hpurpose : '\x00' ∉ purpose.toList) (hpurpose' : '\x00' ∉ purpose'.toList)
    (h : keyText secret purpose = keyText secret' purpose') :
    secret = secret' ∧ purpose = purpose' := by
  have hchars := Utf8.encode_injective h
  simp only [String.toList_append, List.append_assoc] at hchars
  -- both are cut at the first NUL, which no purpose holds
  have hcut := congrArg (Text.cut '\x00') hchars
  rw [show "\x00".toList = ['\x00'] from rfl, List.singleton_append, List.singleton_append,
    Text.cut_append hpurpose, Text.cut_append hpurpose'] at hcut
  obtain ⟨hfront, hback⟩ := Prod.mk.inj (Option.some.inj hcut)
  exact ⟨String.toList_inj.mp hback, String.toList_inj.mp hfront⟩

/-- **Signals and purposes are kept apart.** Two signals count as one in the window of invitations
just if they are one IP or one device, or their texts collide under HMAC; and two uses of a secret
share a key just if they are one use of one secret, or their texts collide under SHA-256. -/
theorem signals_apart (hbytes : ∀ key message, ∀ b ∈ hmac key message, b < 256) (secret : String) :
    (∀ kind kind' value value',
      hashInvitationSignal hmac sha256 secret kind value =
          hashInvitationSignal hmac sha256 secret kind' value' ↔
        (kind = kind' ∧ value = value') ∨
          signalText kind value ≠ signalText kind' value' ∧
            hmac (secretBytes sha256 secret "rate-limit") (signalText kind value) =
              hmac (secretBytes sha256 secret "rate-limit") (signalText kind' value')) ∧
    ∀ (secret' purpose purpose' : String), '\x00' ∉ purpose.toList → '\x00' ∉ purpose'.toList →
      (secretBytes sha256 secret purpose = secretBytes sha256 secret' purpose' ↔
        (secret = secret' ∧ purpose = purpose') ∨
          keyText secret purpose ≠ keyText secret' purpose' ∧
            sha256 (keyText secret purpose) = sha256 (keyText secret' purpose')) := by
  refine ⟨fun kind kind' value value' => ⟨fun h => ?_, ?_⟩,
    fun secret' purpose purpose' hpurpose hpurpose' => ⟨fun h => ?_, ?_⟩⟩
  · -- hex digits can be read back, so the bytes are the same
    have hmacs := bytes_injective (hbytes _ _) (hbytes _ _) h
    by_cases htext : signalText kind value = signalText kind' value'
    · exact .inl (signalText_injective htext)
    · exact .inr ⟨htext, hmacs⟩
  · rintro (⟨rfl, rfl⟩ | ⟨-, hmacs⟩)
    · rfl
    · exact congrArg toHex hmacs
  · by_cases htext : keyText secret purpose = keyText secret' purpose'
    · exact .inl (keyText_injective hpurpose hpurpose' htext)
    · exact .inr ⟨htext, h⟩
  · rintro (⟨rfl, rfl⟩ | ⟨-, hdigests⟩)
    · rfl
    · exact hdigests

/-- An IP and a device of one name. -/
theorem signals_apart_sample : hashInvitationSignal sampleHmac id "secret" .ip "a" ≠
    hashInvitationSignal sampleHmac id "secret" .device "a" := by
  have hbytes : ∀ key message, ∀ b ∈ sampleHmac key message, b < 256 := by
    intro key message b hb
    rw [List.eq_of_mem_replicate hb]
    exact Nat.mod_lt _ (by decide)
  intro h
  rcases ((signals_apart hbytes "secret").1 .ip .device "a" "a").mp h with ⟨hkind, -⟩ | ⟨-, hmacs⟩
  · cases hkind
  · exact absurd hmacs (by decide +kernel)

theorem hexToBytes_bytes {bytes : List ℕ} (h : ∀ b ∈ bytes, b < 256) :
    hexToBytes (bytes.flatMap DashTx.byteHex) = some bytes := by
  induction bytes with
  | nil => rfl
  | cons b bytes ih =>
    have hb := h b List.mem_cons_self
    have hhigh := hexValue_hexDigit (b / 16 % 16) (Nat.mod_lt _ (by decide))
    have hlow := hexValue_hexDigit (b % 16) (Nat.mod_lt _ (by decide))
    have hsum : 16 * (b / 16 % 16) + b % 16 = b := by omega
    rw [List.flatMap_cons]
    show hexToBytes (DashTx.hexDigit (b / 16 % 16) :: DashTx.hexDigit (b % 16) ::
      bytes.flatMap DashTx.byteHex) = _
    rw [hexToBytes, hhigh, hlow, ih fun b' hb' => h b' (List.mem_cons_of_mem _ hb')]
    show some ((16 * (b / 16 % 16) + b % 16) :: bytes) = _
    rw [hsum]

/-- Decryption opens what encryption closes, and both are about bytes. -/
structure AesGcm.Opens (aes : AesGcm) : Prop where
  decrypt_encrypt {text : List ℕ} (key iv : List ℕ) : (∀ b ∈ text, b < 256) →
    aes.decrypt key iv (aes.encrypt key iv text) = some text
  byte_lt {text : List ℕ} (key iv : List ℕ) : (∀ b ∈ text, b < 256) →
    ∀ b ∈ aes.encrypt key iv text, b < 256

theorem decryptWif_encryptWif {aes : AesGcm} (haes : aes.Opens) {wif : String}
    (hwif : wif.toList.head? ≠ some '\uFEFF') {iv : List ℕ} (hiv : ∀ b ∈ iv, b < 256) :
    decryptWif sha256 aes (encryptWif sha256 aes wif secret iv) secret = .ok wif := by
  have hbytes : ∀ b ∈ encodeUtf8 wif, b < 256 := fun b hb => Utf8.lt_of_mem_encode hb
  have hivHex : hexToBytes (toHex iv).toList = some iv := by
    rw [toHex, String.toList_ofList, hexToBytes_bytes hiv]
  have hcipher : hexToBytes (toHex (aes.encrypt (secretBytes sha256 secret "voucher-encryption") iv
      (encodeUtf8 wif))).toList = some (aes.encrypt (secretBytes sha256 secret "voucher-encryption")
        iv (encodeUtf8 wif)) := by
    rw [toHex, String.toList_ofList, hexToBytes_bytes (haes.byte_lt _ _ hbytes)]
  rw [decryptWif, encryptWif, hivHex, hcipher]
  dsimp only
  rw [haes.decrypt_encrypt _ _ hbytes]
  dsimp only
  exact congrArg Except.ok
    ((congrArg String.ofList (Utf8.decode_encode hwif)).trans String.ofList_toList)

theorem plus_percentByte : ∀ b < 256, (Query.percentByte b).map Query.plus =
    ['%', upperHexDigit (b / 16), upperHexDigit (b % 16)] := by
  decide +kernel

/-- How a form writes a character: kept, a plus, or its bytes behind percent signs. -/
theorem percentEncode_char (c : Char) :
    (Query.percentEncode Query.formUnreserved (Utf8.encode [c])).map Query.plus =
      if c.isAlphanum || oneOf "*-._" c then [c]
      else if c = ' ' then ['+']
      else (String.utf8EncodeChar c).flatMap fun b =>
        ['%', upperHexDigit (b.toNat / 16), upperHexDigit (b.toNat % 16)] := by
  by_cases hascii : c.toNat < 0x80
  · have hall : ∀ n < 0x80,
        (Query.percentEncode Query.formUnreserved (Utf8.encode [Char.ofNat n])).map Query.plus =
          if (Char.ofNat n).isAlphanum || oneOf "*-._" (Char.ofNat n) then [Char.ofNat n]
          else if Char.ofNat n = ' ' then ['+']
          else (String.utf8EncodeChar (Char.ofNat n)).flatMap fun b =>
            ['%', upperHexDigit (b.toNat / 16), upperHexDigit (b.toNat % 16)] := by
      decide +kernel
    have h := hall c.toNat hascii
    rwa [Char.ofNat_toNat] at h
  -- no byte of another character is ASCII, so none is kept
  have hbytes : Query.percentEncode Query.formUnreserved (Utf8.encode [c]) =
      (Utf8.encode [c]).flatMap Query.percentByte := by
    refine List.flatMap_congr fun b hb => if_neg fun hkeep => hascii ?_
    have hmem := Utf8.mem_of_mem_encode hb hkeep.1
    rw [← List.mem_singleton.mp hmem, Query.toNat_ofNat_ascii hkeep.1]
    exact hkeep.1
  have halnum : (c.isAlphanum || oneOf "*-._" c) = false := by
    refine Bool.eq_false_iff.mpr fun hkeep => hascii ?_
    rcases Bool.or_eq_true_iff.mp hkeep with halnum | hmark
    · exact Nat.lt_of_le_of_lt (Text.isAlphanum_bounds halnum).2 (by decide)
    · exact List.all_iff_forall_prop.mp (by decide : "*-._".toList.all fun d => d.toNat < 0x80) c
        (List.contains_iff_mem.mp hmark)
  have hspace : c ≠ ' ' := by
    rintro rfl
    exact hascii (by decide)
  rw [hbytes, halnum, if_neg Bool.false_ne_true, if_neg hspace, Utf8.encode, List.flatMap_singleton,
    List.flatMap_map, List.map_flatMap]
  refine List.flatMap_congr fun b _ => ?_
  exact plus_percentByte b.toNat b.toNat_lt

theorem formEncode_eq (s : String) : (formEncode s).toList = Query.encodeText s.toList := by
  rw [formEncode, String.toList_ofList, Query.encodeText]
  induction s.toList with
  | nil => rfl
  | cons c text ih =>
    rw [List.flatMap_cons, ih, ← percentEncode_char, ← List.map_append, Query.percentEncode,
      Query.percentEncode, Query.percentEncode, ← List.flatMap_append, ← Utf8.encode_append]
    rfl

/-- The names and values of a link's query. -/
def linkPairs (txid wif : String) : List (List Char × List Char) :=
  [("assetlocktx".toList, txid.toList), ("pk".toList, wif.toList),
    ("islock".toList, "null".toList)]

def linkPrefix : List Char := "dashpay://invite?".toList

theorem serialize_three (name₁ value₁ name₂ value₂ name₃ value₃ : List Char) :
    Query.serialize [(name₁, value₁), (name₂, value₂), (name₃, value₃)] =
      (Query.encodeText name₁ ++ '=' :: Query.encodeText value₁) ++ '&' ::
        ((Query.encodeText name₂ ++ '=' :: Query.encodeText value₂) ++ '&' ::
          (Query.encodeText name₃ ++ '=' :: Query.encodeText value₃)) := by
  simp [Query.serialize, List.intercalate_cons_cons]

theorem encodeText_names : Query.encodeText "assetlocktx".toList = "assetlocktx".toList ∧
    Query.encodeText "pk".toList = "pk".toList ∧
    Query.encodeText "islock".toList = "islock".toList ∧
    Query.encodeText "null".toList = "null".toList := by
  decide +kernel

theorem link_texts :
    "dashpay://invite?assetlocktx=".toList = linkPrefix ++ ("assetlocktx".toList ++ ['=']) ∧
      "&pk=".toList = '&' :: ("pk".toList ++ ['=']) ∧
      "&islock=null".toList = '&' :: ("islock".toList ++ '=' :: "null".toList) := by
  decide +kernel

/-- A link is its query behind its scheme. -/
theorem invitationUri_eq (txid wif : String) :
    (invitationUri txid wif).toList = linkPrefix ++ Query.serialize (linkPairs txid wif) := by
  obtain ⟨hlock, hpk, hislock, hnull⟩ := encodeText_names
  rw [linkPairs, serialize_three, hlock, hpk, hislock, hnull]
  rw [← formEncode_eq txid, ← formEncode_eq wif]
  unfold invitationUri
  simp only [String.toList_append]
  have htexts := link_texts
  rw [htexts.1, htexts.2.1, htexts.2.2]
  simp only [List.append_assoc, List.cons_append, List.nil_append]

/-- **A voucher survives its storage and its link.** The key that is read back from what is stored
is the key that was stored, and a wallet that takes the link apart finds that key, the
transaction that funded it and the mark it expects. -/
theorem voucher_survives {aes : AesGcm} (haes : aes.Opens) {wif : String}
    (hwif : wif.toList.head? ≠ some '\uFEFF') {iv : List ℕ} (hiv : ∀ b ∈ iv, b < 256)
    (txid : String) : ∃ key,
      decryptWif sha256 aes (encryptWif sha256 aes wif secret iv) secret = .ok key ∧
      key = wif ∧ linkPrefix <+: (invitationUri txid key).toList ∧
      Query.parse ((invitationUri txid key).toList.drop linkPrefix.length) =
        linkPairs txid wif := by
  refine ⟨wif, decryptWif_encryptWif haes hwif hiv, rfl, ?_, ?_⟩
  · rw [invitationUri_eq]
    exact List.prefix_append ..
  · rw [invitationUri_eq, List.drop_left, Query.parse_serialize]

/-- A cipher that only adds a tag. -/
def sampleAes : AesGcm where
  encrypt _ _ text := text ++ List.replicate 16 0
  decrypt _ _ cipher :=
    if cipher.drop (cipher.length - 16) = List.replicate 16 0 then
      some (cipher.take (cipher.length - 16))
    else none

theorem sampleAes_opens : sampleAes.Opens where
  decrypt_encrypt {text} _ _ _ := by simp [sampleAes]
  byte_lt {text} _ _ htext b hb := by
    rcases List.mem_append.mp hb with hb | hb
    · exact htext b hb
    · rw [List.eq_of_mem_replicate hb]
      decide

theorem voucher_survives_sample : ∃ key,
    decryptWif id sampleAes (encryptWif id sampleAes "cW1f" "secret" (List.replicate 12 7))
      "secret" = .ok key ∧
    key = "cW1f" ∧ linkPrefix <+: (invitationUri "ab12" key).toList ∧
    Query.parse ((invitationUri "ab12" key).toList.drop linkPrefix.length) =
      linkPairs "ab12" "cW1f" :=
  voucher_survives sampleAes_opens (by decide) (by decide) "ab12"

end Vouchers

end DashFaucet.Devices

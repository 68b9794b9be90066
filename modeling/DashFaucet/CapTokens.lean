import Mathlib.Data.Bool.AllAny
import Mathlib.Algebra.Order.Group.Nat
import DashFaucet.Config

/-!
# What a captcha token says

A challenge token is the hexadecimal of a payload and of its MAC, a capToken that and a second MAC.
Both read back as they were written, and nothing else reads at all: what is accepted is the token of
the one payload it carries.

* `fromHex_toHex`, `toHex_fromHex`: the codec.
* `Payload`: the sixteen bytes of a challenge; `Payload.token` and `Payload.capToken` are its
  tokens.
* `parseToken_iff`, `verifyCapToken_iff`: what is read, and from what.
* `minted_payload`: what a minted challenge carries.
* `capToken_canonical`: challenges, capTokens and tiers.
-/

namespace DashFaucet

/-! ### Hexadecimal -/

theorem hexValue_hexDigit : ∀ n < 16, hexValue (DashTx.hexDigit n) = some n := by decide

theorem hexDigit_hexValue : ∀ c ∈ "0123456789abcdef".toList,
    ∃ n < 16, hexValue c = some n ∧ DashTx.hexDigit n = c :=
  List.all_iff_forall_prop.mp (by decide)

theorem fromHex_byteHex {b : ℕ} (hb : b < 256) (cs : List Char) :
    fromHex (DashTx.byteHex b ++ cs) = b :: fromHex cs := by
  have hhigh := hexValue_hexDigit (b / 16 % 16) (Nat.mod_lt _ (by decide))
  have hlow := hexValue_hexDigit (b % 16) (Nat.mod_lt _ (by decide))
  show (16 * (hexValue _).getD 0 + (hexValue _).getD 0) :: fromHex cs = b :: fromHex cs
  rw [hhigh, hlow, Option.getD_some, Option.getD_some]
  have hsum : 16 * (b / 16 % 16) + b % 16 = b := by omega
  rw [hsum]

/-- Bytes read back from their digits. -/
theorem fromHex_bytes {bytes : List ℕ} (hbytes : ∀ b ∈ bytes, b < 256) :
    fromHex (bytes.flatMap DashTx.byteHex) = bytes := by
  induction bytes with
  | nil => rfl
  | cons b bytes ih =>
    rw [List.flatMap_cons, fromHex_byteHex (hbytes b List.mem_cons_self)]
    rw [ih fun b' hb' => hbytes b' (List.mem_cons_of_mem _ hb')]

/-- Pairs of lower-case digits are those of the bytes they are read as. -/
theorem bytes_fromHex : ∀ {cs : List Char}, (∀ c ∈ cs, c ∈ "0123456789abcdef".toList) →
    cs.length % 2 = 0 →
      (fromHex cs).flatMap DashTx.byteHex = cs ∧ ∀ b ∈ fromHex cs, b < 256
  | [], _, _ => ⟨rfl, fun _ h => absurd h List.not_mem_nil⟩
  | [_], _, hlen => by cases hlen
  | h :: l :: rest, hhex, hlen => by
    have hrest : (fromHex rest).flatMap DashTx.byteHex = rest ∧ ∀ b ∈ fromHex rest, b < 256 := by
      rw [List.length_cons, List.length_cons] at hlen
      exact bytes_fromHex
        (fun c hc => hhex c (List.mem_cons_of_mem _ (List.mem_cons_of_mem _ hc))) (by omega)
    -- two digits make a byte, and the byte gives them back
    obtain ⟨n, hn, hvn, hdn⟩ := hexDigit_hexValue h (hhex h List.mem_cons_self)
    obtain ⟨m, hm, hvm, hdm⟩ :=
      hexDigit_hexValue l (hhex l (List.mem_cons_of_mem _ List.mem_cons_self))
    have hbyte : fromHex (h :: l :: rest) = (16 * n + m) :: fromHex rest := by
      rw [fromHex, hvn, hvm, Option.getD_some, Option.getD_some]
    rw [hbyte]
    refine ⟨?_, fun b hb => ?_⟩
    · have hhigh : (16 * n + m) / 16 % 16 = n := by omega
      have hlow : (16 * n + m) % 16 = m := by omega
      rw [List.flatMap_cons, hrest.1, DashTx.byteHex, hhigh, hlow, hdn, hdm]
      rfl
    · rcases List.mem_cons.mp hb with rfl | hb
      · omega
      · exact hrest.2 b hb

theorem length_bytes (bytes : List ℕ) :
    (bytes.flatMap DashTx.byteHex).length = 2 * bytes.length := by
  induction bytes with
  | nil => rfl
  | cons b bytes ih =>
    rw [List.flatMap_cons, List.length_append, ih, List.length_cons]
    show 2 + 2 * bytes.length = 2 * (bytes.length + 1)
    omega

theorem hexDigit_mem : ∀ n < 16, DashTx.hexDigit n ∈ "0123456789abcdef".toList := by decide

theorem mem_bytes {bytes : List ℕ} {c : Char} (h : c ∈ bytes.flatMap DashTx.byteHex) :
    c ∈ "0123456789abcdef".toList := by
  obtain ⟨b, -, hc⟩ := List.mem_flatMap.mp h
  rcases List.mem_cons.mp hc with rfl | hc
  · exact hexDigit_mem _ (Nat.mod_lt _ (by decide))
  · rw [List.mem_singleton.mp hc]
    exact hexDigit_mem _ (Nat.mod_lt _ (by decide))

theorem hexOnly_iff {s : String} :
    hexOnly s = true ↔ s.length ≠ 0 ∧ ∀ c ∈ s.toList, c ∈ "0123456789abcdef".toList := by
  rw [hexOnly, Bool.and_eq_true, decide_eq_true_eq, List.all_eq_true]
  simp only [oneOf, List.contains_iff_mem]

/-! ### Payloads and their tokens -/

/-- What a challenge token carries: six bytes of expiry, three of shape, seven of noise. -/
structure Payload where
  bytes : List ℕ
  length_eq : bytes.length = payloadBytes
  byte_lt : ∀ b ∈ bytes, b < 256

theorem Payload.ext {payload payload' : Payload} (h : payload.bytes = payload'.bytes) :
    payload = payload' := by
  cases payload
  cases payload'
  cases h
  rfl

namespace Payload

/-- What a payload commits to. -/
def parse (payload : Payload) : TokenParse :=
  { expires := (payload.bytes.take 6).foldl (fun expires byte => expires * 256 + byte) 0
    params := ⟨payload.bytes.getD 6 0 + 1, payload.bytes.getD 7 0 + 1, payload.bytes.getD 8 0⟩ }

/-- What its capToken proves. -/
def check (payload : Payload) : CapTokenCheck :=
  ⟨payload.parse.expires + capTokenGraceMs, payload.parse.params⟩

variable (hmac : List ℕ → List ℕ → List ℕ) (secret : String)

/-- The first digits of its MAC. -/
def tag (payload : Payload) : List ℕ :=
  (mac hmac secret "cap-challenge:" payload.bytes).take tokenMacBytes

/-- The challenge token of a payload. -/
def token (payload : Payload) : String := toHex payload.bytes ++ toHex (payload.tag hmac secret)

/-- The capToken of a payload. -/
def capToken (payload : Payload) : String := deriveCapToken hmac secret (payload.token hmac secret)

variable {hmac secret}

theorem toList_token (payload : Payload) : (payload.token hmac secret).toList =
    payload.bytes.flatMap DashTx.byteHex ++
      (payload.tag hmac secret).flatMap DashTx.byteHex := by
  rw [token, String.toList_append, toHex, toHex, String.toList_ofList, String.toList_ofList]

theorem length_digits (payload : Payload) :
    (payload.bytes.flatMap DashTx.byteHex).length = payloadBytes * 2 := by
  rw [length_bytes, payload.length_eq, Nat.mul_comm]

theorem take_token (payload : Payload) :
    (payload.token hmac secret).toList.take (payloadBytes * 2) =
      payload.bytes.flatMap DashTx.byteHex := by
  rw [toList_token, ← payload.length_digits, List.take_left]

theorem drop_token (payload : Payload) :
    (payload.token hmac secret).toList.drop (payloadBytes * 2) =
      (payload.tag hmac secret).flatMap DashTx.byteHex := by
  rw [toList_token, ← payload.length_digits, List.drop_left]

/-- A token carries one payload. -/
theorem token_injective {payload payload' : Payload}
    (h : payload.token hmac secret = payload'.token hmac secret) : payload = payload' := by
  apply Payload.ext
  calc payload.bytes = fromHex (payload.bytes.flatMap DashTx.byteHex) :=
        (fromHex_bytes payload.byte_lt).symm
    _ = fromHex (payload'.bytes.flatMap DashTx.byteHex) := by rw [← take_token, h, take_token]
    _ = payload'.bytes := fromHex_bytes payload'.byte_lt

/-- A hexadecimal string of the right length starts with the digits of a payload. -/
theorem exists_of_hex {cs : List Char} (hlen : cs.length = payloadBytes * 2)
    (hhex : ∀ c ∈ cs, c ∈ "0123456789abcdef".toList) :
    ∃ payload : Payload, payload.bytes = fromHex cs ∧
      payload.bytes.flatMap DashTx.byteHex = cs := by
  obtain ⟨hbytes, hlt⟩ := bytes_fromHex hhex (by rw [hlen]; rfl)
  have hcount := length_bytes (fromHex cs)
  rw [hbytes, hlen] at hcount
  exact ⟨⟨fromHex cs, by omega, hlt⟩, rfl, hbytes⟩

section Digest

variable (hdigest : ∀ key message, (hmac key message).length = 32)

include hdigest

theorem length_token (payload : Payload) : (payload.token hmac secret).length = tokenHexLen := by
  rw [← String.length_toList, toList_token, List.length_append, length_digits, length_bytes, tag,
    List.length_take, mac, hdigest]
  rfl

theorem length_capToken (payload : Payload) :
    (payload.capToken hmac secret).length = tokenHexLen + redeemMacHexLen := by
  rw [capToken, deriveCapToken, String.length_append, length_token hdigest, toHex,
    String.length_ofList, length_bytes, mac, hdigest]
  rfl

theorem hexOnly_token (payload : Payload) : hexOnly (payload.token hmac secret) = true := by
  rw [hexOnly_iff, length_token hdigest, toList_token]
  refine ⟨by decide, fun c hc => ?_⟩
  rcases List.mem_append.mp hc with hc | hc <;> exact mem_bytes hc

theorem hexOnly_capToken (payload : Payload) : hexOnly (payload.capToken hmac secret) = true := by
  have htoken : ∀ c ∈ (payload.token hmac secret).toList, c ∈ "0123456789abcdef".toList :=
    (hexOnly_iff.mp (hexOnly_token hdigest payload)).2
  rw [hexOnly_iff, length_capToken hdigest, capToken, deriveCapToken, String.toList_append, toHex,
    String.toList_ofList]
  refine ⟨by decide, fun c hc => ?_⟩
  rcases List.mem_append.mp hc with hc | hc
  · exact htoken c hc
  · exact mem_bytes hc

theorem take_capToken (payload : Payload) :
    String.ofList ((payload.capToken hmac secret).toList.take tokenHexLen) =
      payload.token hmac secret := by
  rw [capToken, deriveCapToken, String.toList_append, ← length_token hdigest payload,
    ← String.length_toList, List.take_left, String.ofList_toList]

end Digest

end Payload

/-! ### What is read -/

section

variable {hmac : List ℕ → List ℕ → List ℕ} {secret : String}
  (hdigest : ∀ key message, (hmac key message).length = 32)

include hdigest

/-- **A challenge token reads as the payload it carries**, and no other string reads. -/
theorem parseToken_iff {token : String} {parsed : TokenParse} :
    parseToken hmac secret token = .ok parsed ↔
      ∃ payload : Payload, token = payload.token hmac secret ∧ parsed = payload.parse := by
  constructor
  · intro h
    unfold parseToken at h
    dsimp only at h
    split at h
    · cases h
    next hshape =>
      simp only [not_or, not_not, Bool.not_eq_false] at hshape
      obtain ⟨hlen, hhex⟩ := hshape
      have hall := (hexOnly_iff.mp hhex).2
      have hlen : token.toList.length = tokenHexLen := hlen
      -- digits enough for a payload spell one
      obtain ⟨payload, hbytes, hdigits⟩ := Payload.exists_of_hex
        (by rw [List.length_take, hlen]; rfl)
        fun c hc => hall c (List.mem_of_mem_take (i := payloadBytes * 2) hc)
      split at h
      · cases h
      next htag =>
        rw [Bool.not_eq_false, timingSafeEqualHex_iff] at htag
        cases h
        refine ⟨payload, ?_, by rw [Payload.parse, hbytes]⟩
        -- what is left of the token is the tag of the payload
        rw [← String.toList_inj, Payload.toList_token, hdigits, Payload.tag, hbytes]
        have htail := congrArg String.toList htag
        rw [String.toList_ofList, toHex, String.toList_ofList] at htail
        rw [← htail, List.take_append_drop]
  · rintro ⟨payload, rfl, rfl⟩
    have hbytes : fromHex ((payload.token hmac secret).toList.take (payloadBytes * 2)) =
        payload.bytes := by
      rw [payload.take_token, fromHex_bytes payload.byte_lt]
    have htag : String.ofList ((payload.token hmac secret).toList.drop (payloadBytes * 2)) =
        toHex (payload.tag hmac secret) := by
      rw [payload.drop_token]
      rfl
    unfold parseToken
    rw [if_neg (by simp [payload.length_token hdigest, payload.hexOnly_token hdigest])]
    dsimp only
    rw [hbytes, htag, if_neg]
    · rfl
    · rw [Bool.not_eq_false, timingSafeEqualHex_iff]
      rfl

/-- **A capToken is accepted for the payload it carries**, until that expires, and no other string
is. -/
theorem verifyCapToken_iff {capToken : String} {now : ℤ} {check : CapTokenCheck} :
    verifyCapToken hmac secret capToken now = .ok check ↔
      ∃ payload : Payload, capToken = payload.capToken hmac secret ∧
        now ≤ payload.check.expiresAt ∧ check = payload.check := by
  constructor
  · -- every check that was passed says something of the token
    intro h
    have hlive := le_expiresAt h
    unfold verifyCapToken at h
    dsimp only at h
    split at h
    · cases h
    split at h
    · cases h
    next parsed hparsed =>
      obtain ⟨payload, htoken, rfl⟩ := (parseToken_iff hdigest).mp hparsed
      split at h
      · cases h
      next hsigned =>
        rw [Bool.not_eq_false, timingSafeEqualHex_iff, htoken] at hsigned
        split at h
        · cases h
        · cases h
          exact ⟨payload, hsigned, hlive, rfl⟩
  · rintro ⟨payload, rfl, hlive, rfl⟩
    -- a token of this form passes them one after the other
    have hparsed : parseToken hmac secret (payload.token hmac secret) = .ok payload.parse :=
      (parseToken_iff hdigest).mpr ⟨payload, rfl, rfl⟩
    have hlive : ¬now > payload.parse.expires + capTokenGraceMs := not_lt.mpr hlive
    unfold verifyCapToken
    rw [if_neg (by simp [payload.length_capToken hdigest, payload.hexOnly_capToken hdigest])]
    dsimp only
    rw [payload.take_capToken hdigest, hparsed]
    dsimp only
    rw [if_neg, if_neg hlive]
    · rfl
    · rw [Bool.not_eq_false, timingSafeEqualHex_iff]
      rfl

/-- The capToken of a payload is accepted until it expires, for what the payload says. -/
theorem verifyCapToken_payload (payload : Payload) {t : ℤ} {check : CapTokenCheck} :
    verifyCapToken hmac secret (deriveCapToken hmac secret (payload.token hmac secret)) t =
        .ok check ↔
      t ≤ payload.check.expiresAt ∧ check = payload.check := by
  rw [verifyCapToken_iff hdigest]
  constructor
  · rintro ⟨payload', hcap, hlive, rfl⟩
    -- the token in front of a capToken says which payload it is of
    have htoken : payload.token hmac secret = payload'.token hmac secret := by
      rw [← Payload.take_capToken hdigest payload', ← hcap, ← Payload.capToken,
        Payload.take_capToken hdigest]
    rw [Payload.token_injective htoken]
    exact ⟨hlive, rfl⟩
  · rintro ⟨hlive, rfl⟩
    exact ⟨payload, rfl, hlive, rfl⟩

end

/-! ### What is minted -/

/-- The payload of a minted challenge. -/
def mintedPayload (params : CapParams) (expires : ℤ) (random : Fin 7 → Fin 256) : Payload where
  bytes := challengePayload params expires random
  length_eq := by
    rw [challengePayload, List.length_append, List.length_ofFn]
    rfl
  byte_lt := by
    have hbyte : ∀ n, toByte n < 256 := fun n => by
      rw [toByte]
      omega
    intro b hb
    rcases List.mem_append.mp hb with hb | hb
    · simp only [List.mem_cons, List.not_mem_nil, or_false] at hb
      rcases hb with rfl | rfl | rfl | rfl | rfl | rfl | rfl | rfl | rfl <;> exact hbyte _
    · obtain ⟨i, rfl⟩ := List.mem_ofFn.mp hb
      exact (random i).isLt

/-- **A minted challenge carries its expiry and its shape.** -/
theorem minted_payload {params : CapParams} (hparams : params.InBounds) {expires : ℤ}
    (hpast : 0 ≤ expires) (hfuture : expires < 2 ^ 48) (random : Fin 7 → Fin 256) :
    (mintedPayload params expires random).parse = ⟨expires.toNat, params⟩ := by
  obtain ⟨hc, hs, hd⟩ := hparams
  have hshape : ∀ {n : ℕ}, 1 ≤ n ∧ n ≤ 256 → toByte (n - 1) + 1 = n := fun {n} hn => by
    rw [toByte]
    omega
  have hdepth : toByte params.d = params.d := by
    rw [toByte]
    omega
  obtain ⟨e, rfl⟩ := Int.eq_ofNat_of_zero_le hpast
  have hbyte : ∀ k, toByte ((e : ℤ) / 2 ^ k) = e / 2 ^ k % 256 := by
    intro k
    have hcast : (e : ℤ) / 2 ^ k % 256 = ((e / 2 ^ k % 256 : ℕ) : ℤ) := by
      rw [Int.natCast_mod, Int.natCast_div, Int.natCast_pow]
      rfl
    rw [toByte, hcast, Int.toNat_natCast]
  have hlow : toByte e = e % 256 := by
    rw [toByte]
    omega
  have htop : e / 2 ^ 40 % 256 = e / 2 ^ 40 := by omega
  -- one byte more at a time
  have hjoin : ∀ k, e / 2 ^ (k + 8) * 256 + e / 2 ^ k % 256 = e / 2 ^ k := by
    intro k
    rw [pow_add, ← Nat.div_div_eq_div_mul]
    exact Nat.div_add_mod' _ _
  have htime : ((((toByte ((e : ℤ) / 2 ^ 40) * 256 + toByte ((e : ℤ) / 2 ^ 32)) * 256 +
      toByte ((e : ℤ) / 2 ^ 24)) * 256 + toByte ((e : ℤ) / 2 ^ 16)) * 256 +
      toByte ((e : ℤ) / 2 ^ 8)) * 256 + toByte e = e := by
    rw [hbyte, hbyte, hbyte, hbyte, hbyte, hlow, htop, hjoin 32, hjoin 24, hjoin 16, hjoin 8]
    exact Nat.div_add_mod' _ _
  simp only [Payload.parse, mintedPayload, challengePayload, List.cons_append, List.nil_append,
    List.take_succ_cons, List.take_zero, List.foldl_cons, List.foldl_nil, List.getD_cons_succ,
    List.getD_cons_zero]
  rw [Nat.zero_mul, Nat.zero_add, htime, hshape hc, hshape hs, hdepth, Int.toNat_natCast]

section

variable {hmac : List ℕ → List ℕ → List ℕ} {secret : String} {params : CapParams} {now : ℤ}
  {random : Fin 7 → Fin 256}
  (hdigest : ∀ key message, (hmac key message).length = 32)

theorem token_minted : (mintChallenge hmac secret params now random).token =
    (mintedPayload params (now + challengeTtlMs) random).token hmac secret := rfl

include hdigest

/-- The capToken of a minted challenge is accepted until the grace is over, with its shape. -/
theorem verify_minted (hparams : params.InBounds) (hpast : 0 ≤ now + challengeTtlMs)
    (hfuture : now + challengeTtlMs < 2 ^ 48) (t : ℤ) (check : CapTokenCheck) :
    verifyCapToken hmac secret
        (deriveCapToken hmac secret (mintChallenge hmac secret params now random).token) t =
          .ok check ↔
      t ≤ now + challengeTtlMs + capTokenGraceMs ∧
        check = ⟨now + challengeTtlMs + capTokenGraceMs, params⟩ := by
  have hparse := minted_payload hparams hpast hfuture random
  have hcheck : (mintedPayload params (now + challengeTtlMs) random).check =
      ⟨now + challengeTtlMs + capTokenGraceMs, params⟩ := by
    rw [Payload.check, hparse, Int.toNat_of_nonneg hpast]
  rw [token_minted, verifyCapToken_payload hdigest, hcheck]

/-- **Captcha tokens carry their shape faithfully and canonically.** A minted challenge reads back
with its expiry and shape, and its capToken verifies with these until the grace is over and never
after. What verifies is the capToken of exactly one payload, the one it reports, and for a challenge
token only one capToken does. A configuration grades its soft challenges soft and its hard ones
hard, and those of another by their work. -/
theorem capToken_canonical (secret : String) :
    (∀ params : CapParams, params.InBounds → ∀ now : ℤ, 0 ≤ now + challengeTtlMs →
      now + challengeTtlMs < 2 ^ 48 → ∀ random : Fin 7 → Fin 256,
        parseToken hmac secret (mintChallenge hmac secret params now random).token =
          .ok ⟨(now + challengeTtlMs).toNat, params⟩ ∧
        ∀ t check, verifyCapToken hmac secret
            (deriveCapToken hmac secret (mintChallenge hmac secret params now random).token) t =
              .ok check ↔
          t ≤ now + challengeTtlMs + capTokenGraceMs ∧
            check = ⟨now + challengeTtlMs + capTokenGraceMs, params⟩) ∧
    (∀ capToken t check, verifyCapToken hmac secret capToken t = .ok check →
      ∃! payload : Payload, capToken = deriveCapToken hmac secret (payload.token hmac secret) ∧
        check = payload.check) ∧
    (∀ token capToken t check, verifyCapToken hmac secret capToken t = .ok check →
      String.ofList (capToken.toList.take tokenHexLen) = token →
        capToken = deriveCapToken hmac secret token) ∧
    ∀ (number : String → Option ℕ) (env : CapEnv) (cfg : CapConfig),
      resolveCapConfig number env = .ok cfg →
      ∀ now : ℤ, 0 ≤ now + challengeTtlMs → now + challengeTtlMs < 2 ^ 48 →
      ∀ (random : Fin 7 → Fin 256) (params : CapParams) (t : ℤ) (check : CapTokenCheck),
        params.InBounds → verifyCapToken hmac secret
          (deriveCapToken hmac secret (mintChallenge hmac secret params now random).token) t =
            .ok check →
        (params = cfg.capParams → capTier cfg check.params = .soft) ∧
        (params = cfg.hardCapParams → capTier cfg check.params = .hard) ∧
        (capTier cfg check.params = .hard ↔ capWork cfg.hardCapParams ≤ capWork params) := by
  refine ⟨fun params hparams now hpast hfuture random => ⟨?_, ?_⟩, ?_, ?_, ?_⟩
  · rw [parseToken_iff hdigest, token_minted]
    exact ⟨_, rfl, (minted_payload hparams hpast hfuture random).symm⟩
  · exact verify_minted hdigest hparams hpast hfuture
  · intro capToken t check h
    obtain ⟨payload, rfl, -, rfl⟩ := (verifyCapToken_iff hdigest).mp h
    -- the first digits of a capToken are its token, which spells its payload
    refine ⟨payload, ⟨rfl, rfl⟩, fun payload' ⟨hcap, _⟩ => ?_⟩
    have htoken : payload'.token hmac secret = payload.token hmac secret := by
      rw [← Payload.take_capToken hdigest payload', Payload.capToken, ← hcap,
        Payload.take_capToken hdigest]
    exact Payload.token_injective htoken
  · rintro token capToken t check h rfl
    obtain ⟨payload, rfl, -, rfl⟩ := (verifyCapToken_iff hdigest).mp h
    rw [Payload.take_capToken hdigest]
    rfl
  · intro number env cfg hcfg now hpast hfuture random params t check hparams h
    obtain ⟨-, rfl⟩ := (verify_minted hdigest hparams hpast hfuture t check).mp h
    -- the configuration was refused unless hard challenges take more work
    obtain ⟨-, -, hwork⟩ := resolveCapConfig_ok hcfg
    refine ⟨?_, ?_, ?_⟩
    · rintro rfl
      exact if_neg (not_le.mpr hwork)
    · rintro rfl
      exact if_pos (le_refl _)
    · show (if capWork params ≥ capWork cfg.hardCapParams then ProofTier.hard else .soft) =
        .hard ↔ _
      split
      · next hge => exact iff_of_true rfl hge
      · next hlt => exact iff_of_false (fun h => by cases h) hlt

end

/-- A challenge of the default soft shape, under a constant MAC, and its capToken. -/
theorem capToken_canonical_zero :
    let hmac : List ℕ → List ℕ → List ℕ := fun _ _ => List.replicate 32 0
    let minted := mintChallenge hmac "secret" ⟨100, 32, 4⟩ 1000 fun _ => 0
    parseToken hmac "secret" minted.token = .ok ⟨601000, ⟨100, 32, 4⟩⟩ ∧
      verifyCapToken hmac "secret" (deriveCapToken hmac "secret" minted.token) 1201000 =
        .ok ⟨1201000, ⟨100, 32, 4⟩⟩ := by
  obtain ⟨hminted, -⟩ := capToken_canonical (fun _ _ => rfl : ∀ key message : List ℕ,
    ((fun _ _ => List.replicate 32 0 : List ℕ → List ℕ → List ℕ) key message).length = 32) "secret"
  obtain ⟨hparsed, hverified⟩ := hminted ⟨100, 32, 4⟩ ⟨by decide, by decide, by decide⟩ 1000
    (by decide) (by decide) fun _ => 0
  exact ⟨hparsed, (hverified 1201000 _).mpr ⟨by decide, rfl⟩⟩

end DashFaucet

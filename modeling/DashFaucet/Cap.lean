import Mathlib.Data.Nat.Bitwise
import DashFaucet.Invitation
import DashFaucet.Tx

/-!
# Proof-of-work tokens

The stateless half of the captcha (`cap.ts`): a challenge token commits to its expiry and its shape
under a MAC, and the capToken handed back for it carries a second MAC. Bytes are naturals below 256.
HMAC-SHA-256 is a third-party function and stays a parameter, from a key and a message to a tag.
-/

namespace DashFaucet

/-- Challenge shape as the client sees it: sub-challenges, salt length, target length. -/
structure CapParams where
  c : ℕ
  s : ℕ
  d : ℕ
  deriving DecidableEq, Repr

/-- Expected hashes to solve a challenge of this shape. The source computes it in doubles, where it
is exact unless it overflows to infinity, which compares with the bounds below as the number
does. -/
def capWork (params : CapParams) : ℕ := params.c * 16 ^ params.d

structure CapChallenge where
  challenge : CapParams
  token : String
  expires : ℤ
  deriving DecidableEq, Repr

/-- How long a challenge stays solvable. -/
def challengeTtlMs : ℤ := 10 * 60000

/-- Extra life a redeemed capToken gets beyond its challenge's expiry. -/
def capTokenGraceMs : ℤ := 10 * 60000

/-- 6 bytes of expiry, 3 bytes of challenge shape, 7 random bytes. -/
def payloadBytes : ℕ := 16

def tokenMacBytes : ℕ := 9

def tokenHexLen : ℕ := (payloadBytes + tokenMacBytes) * 2

def redeemMacHexLen : ℕ := 64

/-- `HEX_ONLY.test(s)`. -/
def hexOnly (s : String) : Bool := s.length ≠ 0 && s.toList.all (oneOf "0123456789abcdef")

def toHex (bytes : List ℕ) : String := String.ofList (bytes.flatMap DashTx.byteHex)

/-- The bytes of a string of hex digits, which its callers have checked. A last odd digit is not
read. -/
def fromHex : List Char → List ℕ
  | h :: l :: rest => (16 * (hexValue h).getD 0 + (hexValue l).getD 0) :: fromHex rest
  | _ => []

/-- Compare two hex strings without a branch on what they hold. -/
def timingSafeEqualHex (a b : String) : Bool :=
  if a.length ≠ b.length then false
  else
    (a.toList.zip b.toList).foldl (fun diff p => diff ||| (p.1.toNat ^^^ p.2.toNat)) 0 = 0

theorem foldl_or_eq_zero {α : Type} (f : α → ℕ) (l : List α) (acc : ℕ) :
    l.foldl (fun diff a => diff ||| f a) acc = 0 ↔ acc = 0 ∧ ∀ a ∈ l, f a = 0 := by
  induction l generalizing acc with
  | nil => simp
  | cons a l ih =>
    rw [List.foldl_cons, ih, Nat.or_eq_zero_iff, List.forall_mem_cons, and_assoc]

theorem timingSafeEqualHex_iff {a b : String} : timingSafeEqualHex a b = true ↔ a = b := by
  unfold timingSafeEqualHex
  split
  · next hlen =>
    refine iff_of_false Bool.false_ne_true ?_
    rintro rfl
    exact hlen rfl
  · next hlen =>
    rw [decide_eq_true_eq, foldl_or_eq_zero, and_iff_right rfl, ← String.toList_inj]
    have hlen : a.toList.length = b.toList.length := not_not.mp hlen
    generalize a.toList = l at hlen ⊢
    generalize b.toList = l' at hlen ⊢
    -- character by character
    induction l generalizing l' with
    | nil =>
      cases l' with
      | nil => simp
      | cons d ds => cases hlen
    | cons c cs ih =>
      cases l' with
      | nil => cases hlen
      | cons d ds =>
        rw [List.zip_cons_cons, List.forall_mem_cons, List.cons_eq_cons, Nat.xor_eq_zero_iff,
          Char.toNat_inj]
        exact and_congr_right fun _ => ih ds (Nat.succ.inj hlen)

/-- `TextEncoder.encode`. -/
def encodeUtf8 (s : String) : List ℕ :=
  s.toList.flatMap fun c => (String.utf8EncodeChar c).map UInt8.toNat

/-- What a challenge token commits to. -/
structure TokenParse where
  expires : ℕ
  params : CapParams
  deriving DecidableEq, Repr

/-- What a capToken proves: until when it is good, and the shape of the challenge it cost. -/
structure CapTokenCheck where
  expiresAt : ℤ
  params : CapParams
  deriving DecidableEq, Repr

section

variable (hmac : List ℕ → List ℕ → List ℕ)

def mac (secret domain : String) (data : List ℕ) : List ℕ :=
  hmac (encodeUtf8 secret) (encodeUtf8 domain ++ data)

/-- What a byte array keeps of an integer stored into it, and `& 0xff` of one. -/
def toByte (n : ℤ) : ℕ := (n % 256).toNat

/-- The bytes a challenge commits to: its expiry, its shape and noise. -/
def challengePayload (params : CapParams) (expires : ℤ) (random : Fin 7 → Fin 256) : List ℕ :=
  [toByte (expires / 2 ^ 40), toByte (expires / 2 ^ 32), toByte (expires / 2 ^ 24),
    toByte (expires / 2 ^ 16), toByte (expires / 2 ^ 8), toByte expires, toByte (params.c - 1),
    toByte (params.s - 1), toByte params.d] ++ List.ofFn fun i => (random i : ℕ)

/-- Mint a challenge without storing anything. -/
def mintChallenge (secret : String) (params : CapParams) (now : ℤ) (random : Fin 7 → Fin 256) :
    CapChallenge :=
  let expires := now + challengeTtlMs
  let payload := challengePayload params expires random
  let tag := (mac hmac secret "cap-challenge:" payload).take tokenMacBytes
  { challenge := params, token := toHex payload ++ toHex tag, expires }

/-- Re-derive a challenge token's MAC and read back what it commits to. No deadline is applied. -/
def parseToken (secret token : String) : Except String TokenParse :=
  if token.length ≠ tokenHexLen ∨ hexOnly token = false then .error "Invalid captcha token"
  else
    let payload := fromHex (token.toList.take (payloadBytes * 2))
    let tagHex := String.ofList (token.toList.drop (payloadBytes * 2))
    let expected := toHex ((mac hmac secret "cap-challenge:" payload).take tokenMacBytes)
    if timingSafeEqualHex tagHex expected = false then .error "Invalid captcha token"
    else
      .ok
        -- six bytes of expiry, big-endian; `c` and `s` are kept less one
        { expires := (payload.take 6).foldl (fun expires byte => expires * 256 + byte) 0
          params := ⟨payload.getD 6 0 + 1, payload.getD 7 0 + 1, payload.getD 8 0⟩ }

/-- The capToken handed back on a successful redeem. -/
def deriveCapToken (secret token : String) : String :=
  token ++ toHex (mac hmac secret "cap-redeem:" (encodeUtf8 token))

/-- Verify a capToken. Proves authenticity only: single use is the caller's job. -/
def verifyCapToken (secret capToken : String) (now : ℤ) : Except String CapTokenCheck :=
  if capToken.length ≠ tokenHexLen + redeemMacHexLen ∨ hexOnly capToken = false then
    .error "Invalid captcha token"
  else
    let token := String.ofList (capToken.toList.take tokenHexLen)
    match parseToken hmac secret token with
    | .error reason => .error reason
    | .ok parsed =>
      if timingSafeEqualHex capToken (deriveCapToken hmac secret token) = false then
        .error "Invalid captcha token"
      else
        -- a solved challenge may be spent for a while after it has expired
        let expiresAt := parsed.expires + capTokenGraceMs
        if now > expiresAt then .error "Captcha token expired"
        else .ok ⟨expiresAt, parsed.params⟩

variable {hmac} {secret capToken : String} {now now' : ℤ} {check check' : CapTokenCheck}

/-- A capToken is accepted until it expires. -/
theorem le_expiresAt (h : verifyCapToken hmac secret capToken now = .ok check) :
    now ≤ check.expiresAt := by
  unfold verifyCapToken at h
  dsimp only at h
  split at h
  · cases h
  · split at h
    · cases h
    · split at h
      · cases h
      · split at h
        · cases h
        · next hlive =>
          cases h
          exact not_lt.mp hlive

/-- **The clock only rejects**: whenever a capToken is accepted, it proves the same. -/
theorem verifyCapToken_unique (h : verifyCapToken hmac secret capToken now = .ok check)
    (h' : verifyCapToken hmac secret capToken now' = .ok check') : check = check' := by
  unfold verifyCapToken at h h'
  dsimp only at h h'
  -- the time decides only whether there is a verdict, so both runs take the same branches
  split at h
  · cases h
  · next hshape =>
    rw [if_neg hshape] at h'
    split at h
    · cases h
    · next parsed hparsed =>
      rw [hparsed] at h'
      dsimp only at h'
      split at h
      · cases h
      · next hsigned =>
        rw [if_neg hsigned] at h'
        split at h
        · cases h
        · split at h'
          · cases h'
          · cases h
            cases h'
            rfl

end

end DashFaucet

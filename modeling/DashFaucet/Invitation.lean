import Mathlib.Algebra.GroupWithZero.Nat
import Mathlib.Data.Nat.Notation
import DashFaucet.Chain.Types

/-!
# Invitation links

What `invitation.ts` computes for the Treasury: the identity a voucher can claim, and its link.
Bytes are naturals below 256. SHA-256 is a third-party function and stays a parameter.
-/

namespace DashFaucet

/-- The value of a hex digit. -/
def hexValue (c : Char) : Option ℕ :=
  let c := c.toLower
  if c.isDigit then some (c.toNat - '0'.toNat)
  else if 'a' ≤ c ∧ c ≤ 'f' then some (c.toNat - 'a'.toNat + 10)
  else none

/-- Pairs of hex digits as bytes; `none` where the source throws `invalid hex`. -/
def hexToBytes : List Char → Option (List ℕ)
  | [] => some []
  | [_] => none
  | h :: l :: rest => do
    let high ← hexValue h
    let low ← hexValue l
    let bytes ← hexToBytes rest
    pure ((16 * high + low) :: bytes)

def uint32Le (value : ℕ) : List ℕ := (List.range 4).map fun i => value / 256 ^ i % 256

def base58Alphabet : List Char :=
  "123456789ABCDEFGHJKLMNPQRSTUVWXYZabcdefghijkmnopqrstuvwxyz".toList

/-- The base-58 digits of a number, most significant first, in front of `encoded`. `fuel` bounds
the number of digits. -/
def base58Digits : ℕ → ℕ → List Char → List Char
  | 0, _, encoded => encoded
  | _ + 1, 0, encoded => encoded
  | fuel + 1, value, encoded =>
    base58Digits fuel (value / 58) (base58Alphabet.getD (value % 58) '1' :: encoded)

/-- `base58Encode`. A byte string has fewer base-58 digits than its number has units. -/
def base58Encode (bytes : List ℕ) : String :=
  let value := bytes.foldl (fun value byte => value * 256 + byte) 0
  let encoded := base58Digits (2 * bytes.length) value []
  let zeros := (bytes.takeWhile (· = 0)).map fun _ => '1'
  let encoded := zeros ++ encoded
  String.ofList (if encoded.isEmpty then ['1'] else encoded)

/-- Identity ID deterministically derived from the asset-lock credit outpoint. -/
def prospectiveIdentityId (sha256 : List ℕ → List ℕ) (txid : String) (outputIndex : ℕ := 0) :
    Except Thrown String :=
  match hexToBytes txid.toList with
  | none => .error (.error "invalid hex")
  | some displayBytes =>
    -- a 36-byte array: setting more bytes than fit throws
    if displayBytes.length > 36 then .error (.error "offset is out of bounds")
    else
      let head := (displayBytes.reverse ++ List.replicate 32 0).take 32
      .ok (base58Encode (sha256 (sha256 (head ++ uint32Le outputIndex))))

def upperHexDigit (n : ℕ) : Char := "0123456789ABCDEF".toList.getD n '0'

/-- One value of `URLSearchParams.toString`. -/
def formEncode (s : String) : String :=
  String.ofList <| s.toList.flatMap fun c =>
    if c.isAlphanum || oneOf "*-._" c then [c]
    else if c = ' ' then ['+']
    else (String.utf8EncodeChar c).flatMap fun b =>
      ['%', upperHexDigit (b.toNat / 16), upperHexDigit (b.toNat % 16)]

def invitationUri (txid wif : String) : String :=
  "dashpay://invite?assetlocktx=" ++ formEncode txid ++ "&pk=" ++ formEncode wif ++ "&islock=null"

end DashFaucet

import Mathlib.Data.List.TakeWhile
import DashFaucet.Data.Positional
import DashFaucet.Invitation

/-!
# Identity ids are digests

`prospectiveIdentityId` writes a digest in base 58, and a reader gets the digest back.

* `base58Decode`: how base 58 is read.
* `base58Encode_toList`: what `base58Encode` writes: a `1` for each leading zero byte, and a number.
* `base58Decode_base58Encode`: bytes are read back.
* `identity_ids_injective`: so no two digests share an id.
-/

namespace DashFaucet

/-- The usual reading of base 58: each leading `1` is a zero byte, and the rest is a number, whose
bytes follow. -/
def base58Decode (text : List Char) : Option (List ℕ) := do
  let digits ← (text.dropWhile (· = '1')).mapM fun c => base58Alphabet.idxOf? c
  some ((text.takeWhile (· = '1')).map (fun _ => 0) ++
    Positional.digits 256 (Positional.value 58 digits))

/-- The character of a digit. -/
def base58Digit (d : ℕ) : Char := base58Alphabet.getD d '1'

/-- The alphabet has 58 different characters, and begins with `1`. -/
theorem idxOf_base58Digit : ∀ d < 58, base58Alphabet.idxOf? (base58Digit d) = some d ∧
    (d ≠ 0 → base58Digit d ≠ '1') := by
  decide

theorem mapM_base58Digit {digits : List ℕ} (h : ∀ d ∈ digits, d < 58) :
    (digits.map base58Digit).mapM (fun c => base58Alphabet.idxOf? c) = some digits :=
  Positional.mapM_map_digit fun d hd => (idxOf_base58Digit d (h d hd)).1

/-- **The loop writes the digits of its number** in front of what there is. -/
theorem base58Digits_eq {fuel value : ℕ} (h : value < 58 ^ fuel) (encoded : List Char) :
    base58Digits fuel value encoded =
      (Positional.digits 58 value).map base58Digit ++ encoded := by
  induction fuel generalizing value encoded with
  | zero =>
    have hzero : value = 0 := by simpa using h
    rw [hzero, Positional.digits_zero]
    rfl
  | succ fuel ih =>
    cases value with
    | zero =>
      rw [Positional.digits_zero]
      rfl
    | succ value =>
      -- the last digit goes in front of the text, and the others in front of it
      have hrest : (value + 1) / 58 < 58 ^ fuel := by
        rw [Nat.div_lt_iff_lt_mul (by decide)]
        exact h
      rw [base58Digits, ih hrest, Positional.digits_eq_append (by decide) (Nat.succ_pos value),
        List.map_append, List.append_assoc]
      · rfl
      · exact Nat.succ_ne_zero value

variable {bytes : List ℕ}

/-- The number of a byte string has fewer base-58 digits than twice its bytes. -/
theorem value_lt_fuel (h : ∀ b ∈ bytes, b < 256) :
    Positional.value 256 bytes < 58 ^ (2 * bytes.length) := by
  have hlt := Positional.value_lt (by decide) h
  have hle : 256 ^ bytes.length ≤ (58 ^ 2) ^ bytes.length := Nat.pow_le_pow_left (by decide) _
  rw [Nat.pow_mul]
  exact lt_of_lt_of_le hlt hle

/-- **What `base58Encode` writes**: a `1` for each leading zero byte, and the number's digits. -/
theorem base58Encode_toList (hne : bytes ≠ []) (h : ∀ b ∈ bytes, b < 256) :
    (base58Encode bytes).toList = (bytes.takeWhile (· = 0)).map (fun _ => '1') ++
      (Positional.digits 58 (Positional.value 256 bytes)).map base58Digit := by
  have hdigits := base58Digits_eq (value_lt_fuel h) []
  rw [List.append_nil] at hdigits
  have hsome : (bytes.takeWhile (· = 0)).map (fun _ => '1') ++
      (Positional.digits 58 (Positional.value 256 bytes)).map base58Digit ≠ [] := by
    intro hnil
    obtain ⟨hzeros, hnumber⟩ := List.append_eq_nil_iff.mp hnil
    -- no zero byte in front and no number: there is no byte at all
    have hvalue : Positional.value 256 bytes = 0 := by
      have hread := Positional.value_digits 58 (Positional.value 256 bytes)
      rw [List.map_eq_nil_iff.mp hnumber] at hread
      exact hread.symm
    have hread := Positional.digits_value (by decide) h
    rw [hvalue, Positional.digits_zero] at hread
    have hsplit := List.takeWhile_append_dropWhile (p := fun b => decide (b = 0)) (l := bytes)
    rw [List.map_eq_nil_iff.mp hzeros, ← hread] at hsplit
    exact hne hsplit.symm
  have hvalue : bytes.foldl (fun value byte => value * 256 + byte) 0 = Positional.value 256 bytes :=
    rfl
  rw [base58Encode, String.toList_ofList]
  rw [hvalue, hdigits, if_neg fun hempty => hsome (List.isEmpty_iff.mp hempty)]

/-- **Bytes are read back** from what `base58Encode` writes. -/
theorem base58Decode_base58Encode (hne : bytes ≠ []) (h : ∀ b ∈ bytes, b < 256) :
    base58Decode (base58Encode bytes).toList = some bytes := by
  have hlt : ∀ d ∈ Positional.digits 58 (Positional.value 256 bytes), d < 58 :=
    Positional.digits_lt (by decide)
  have hones : ∀ c ∈ (bytes.takeWhile (· = 0)).map (fun _ => '1'), decide (c = '1') = true := by
    intro c hc
    obtain ⟨b, -, rfl⟩ := List.mem_map.mp hc
    rfl
  -- the number begins with no zero, so its text begins with no `1`
  have hhead : ∀ c, ((Positional.digits 58 (Positional.value 256 bytes)).map base58Digit).head? =
      some c → decide (c = '1') ≠ true := by
    intro c hc
    rw [List.head?_map] at hc
    obtain ⟨d, hd, rfl⟩ := Option.map_eq_some_iff.mp hc
    have hne := Positional.head_digits_ne_zero hd
    have hone := (idxOf_base58Digit d (hlt d (List.mem_of_head? hd))).2 hne
    exact fun heq => hone (of_decide_eq_true heq)
  have htake : ((Positional.digits 58 (Positional.value 256 bytes)).map base58Digit).takeWhile
      (· = '1') = [] := by
    cases htext : (Positional.digits 58 (Positional.value 256 bytes)).map base58Digit with
    | nil => rfl
    | cons c text =>
      rw [htext] at hhead
      exact List.takeWhile_cons_of_neg (hhead c rfl)
  have hdrop : ((Positional.digits 58 (Positional.value 256 bytes)).map base58Digit).dropWhile
      (· = '1') = (Positional.digits 58 (Positional.value 256 bytes)).map base58Digit := by
    have hsplit := List.takeWhile_append_dropWhile (p := fun c => decide (c = '1'))
      (l := (Positional.digits 58 (Positional.value 256 bytes)).map base58Digit)
    rw [htake] at hsplit
    exact hsplit
  rw [base58Encode_toList hne h, base58Decode, List.dropWhile_append_of_pos hones,
    List.takeWhile_append_of_pos hones, htake, hdrop, mapM_base58Digit hlt, List.append_nil,
    List.map_map]
  show some (_ ++ Positional.digits 256 (Positional.value 58 (Positional.digits 58 _))) = _
  rw [Positional.value_digits, Positional.digits_value (by decide) h]
  have hzeros : (bytes.takeWhile (· = 0)).map ((fun _ => 0) ∘ fun _ => '1') =
      bytes.takeWhile (· = 0) := by
    refine (List.map_congr_left fun b hb => ?_).trans (List.map_id _)
    have hzero : decide (b = 0) = true := List.mem_takeWhile_imp (p := fun b => decide (b = 0)) hb
    exact (of_decide_eq_true hzero).symm
  rw [hzeros, List.takeWhile_append_dropWhile]

/-- The bytes that `prospectiveIdentityId` hashes twice, or `none` where it throws. -/
def creditOutpoint (txid : String) (outputIndex : ℕ) : Option (List ℕ) := do
  let displayBytes ← hexToBytes txid.toList
  if displayBytes.length > 36 then none
  else some ((displayBytes.reverse ++ List.replicate 32 0).take 32 ++ uint32Le outputIndex)

/-- An id is the digest of a credit outpoint in base 58. -/
theorem prospectiveIdentityId_eq_ok_iff {sha256 : List ℕ → List ℕ} {txid id : String} {i : ℕ} :
    prospectiveIdentityId sha256 txid i = .ok id ↔ ∃ outpoint,
      creditOutpoint txid i = some outpoint ∧ id = base58Encode (sha256 (sha256 outpoint)) := by
  rw [prospectiveIdentityId, creditOutpoint]
  cases hexToBytes txid.toList with
  | none =>
    constructor
    · intro h
      cases h
    · rintro ⟨outpoint, h, -⟩
      cases h
  | some displayBytes =>
    -- bytes that are too many leave nothing to fill up
    by_cases hlen : displayBytes.length > 36
    · constructor
      · intro h
        dsimp only at h
        rw [if_pos hlen] at h
        cases h
      · rintro ⟨outpoint, h, -⟩
        rw [Option.bind_eq_bind, Option.bind_some, if_pos hlen] at h
        cases h
    · rw [Option.bind_eq_bind, Option.bind_some, if_neg hlen]
      dsimp only
      rw [if_neg hlen]
      constructor
      · intro h
        exact ⟨_, rfl, (Except.ok.inj h).symm⟩
      · rintro ⟨outpoint, h, rfl⟩
        rw [Option.some.inj h]

/-- **Identity ids are digests.** Whatever bytes `base58Encode` is given, the usual reading of base
58 gives them back. So two asset locks with the same prospective identity id have the same
digest. -/
theorem identity_ids_injective {sha256 : List ℕ → List ℕ}
    (hsha256 : ∀ message, (sha256 message).length = 32 ∧ ∀ b ∈ sha256 message, b < 256) :
    (∀ bytes : List ℕ, bytes ≠ [] → (∀ b ∈ bytes, b < 256) →
      base58Decode (base58Encode bytes).toList = some bytes) ∧
    ∀ txid i txid' i' id, prospectiveIdentityId sha256 txid i = .ok id →
      prospectiveIdentityId sha256 txid' i' = .ok id →
      ∃ outpoint outpoint', creditOutpoint txid i = some outpoint ∧
        creditOutpoint txid' i' = some outpoint' ∧
        sha256 (sha256 outpoint) = sha256 (sha256 outpoint') := by
  refine ⟨fun bytes => base58Decode_base58Encode, fun txid i txid' i' id h h' => ?_⟩
  obtain ⟨outpoint, hout, rfl⟩ := prospectiveIdentityId_eq_ok_iff.mp h
  obtain ⟨outpoint', hout', hid⟩ := prospectiveIdentityId_eq_ok_iff.mp h'
  -- a digest is not empty, so it can be read back from its id
  have hread : ∀ message, base58Decode (base58Encode (sha256 message)).toList =
      some (sha256 message) := by
    intro message
    obtain ⟨hlen, hbytes⟩ := hsha256 message
    refine base58Decode_base58Encode (fun hnil => ?_) hbytes
    rw [hnil] at hlen
    cases hlen
  refine ⟨outpoint, outpoint', hout, hout', Option.some.inj ?_⟩
  rw [← hread, hid, hread]

namespace Outpoints

/-- The transaction of an asset lock. -/
def txid : String := "e8b43025641eea4fd21190f01bd870ef90f1a8b199d8fc3376c5b62c0b1a179d"

/-- The digest of its second output. -/
def digest : List ℕ :=
  [153, 62, 106, 194, 65, 57, 228, 30, 169, 164, 84, 27, 202, 78, 22, 66, 189, 8, 50, 50, 23, 84,
   194, 180, 255, 96, 220, 78, 139, 52, 6, 51]

/-- SHA-256 on its first two outputs, and on their digests. -/
def table : List (List ℕ × List ℕ) :=
  [([157, 23, 26, 11, 44, 182, 197, 118, 51, 252, 216, 153, 177, 168, 241, 144, 239, 112, 216, 27,
     240, 144, 17, 210, 79, 234, 30, 100, 37, 48, 180, 232, 0, 0, 0, 0],
      [228, 19, 180, 120, 6, 118, 175, 85, 27, 137, 228, 152, 42, 247, 219, 50, 113, 196, 101, 194,
       246, 179, 84, 123, 255, 137, 234, 216, 139, 161, 197, 114]),
    ([228, 19, 180, 120, 6, 118, 175, 85, 27, 137, 228, 152, 42, 247, 219, 50, 113, 196, 101, 194,
     246, 179, 84, 123, 255, 137, 234, 216, 139, 161, 197, 114],
      [169, 93, 243, 141, 39, 44, 12, 208, 129, 123, 39, 78, 140, 60, 29, 161, 172, 13, 204, 169,
       152, 98, 69, 198, 187, 175, 97, 230, 113, 78, 119, 145]),
    ([157, 23, 26, 11, 44, 182, 197, 118, 51, 252, 216, 153, 177, 168, 241, 144, 239, 112, 216, 27,
     240, 144, 17, 210, 79, 234, 30, 100, 37, 48, 180, 232, 1, 0, 0, 0],
      [113, 239, 107, 49, 119, 76, 199, 138, 69, 140, 69, 77, 244, 158, 133, 88, 100, 1, 14, 225,
       249, 63, 90, 138, 209, 144, 243, 195, 190, 245, 227, 149]),
    ([113, 239, 107, 49, 119, 76, 199, 138, 69, 140, 69, 77, 244, 158, 133, 88, 100, 1, 14, 225,
     249, 63, 90, 138, 209, 144, 243, 195, 190, 245, 227, 149], digest)]

def sha256 (message : List ℕ) : List ℕ := (table.lookup message).getD (List.replicate 32 0)

theorem sha256_digests (message : List ℕ) :
    (sha256 message).length = 32 ∧ ∀ b ∈ sha256 message, b < 256 := by
  rw [sha256]
  cases hfound : table.lookup message with
  | none => exact ⟨List.length_replicate, fun b hb => (List.mem_replicate.mp hb).2 ▸ by decide⟩
  | some result =>
    obtain ⟨before, after, htable, -⟩ := List.lookup_eq_some_iff.mp hfound
    have hall : ∀ entry ∈ table, entry.2.length = 32 ∧ ∀ b ∈ entry.2, b < 256 := by decide
    exact hall (message, result) (htable ▸ List.mem_append_right _ List.mem_cons_self)

end Outpoints

/-- The second output has the id that it should have, and the first one another. -/
theorem identity_ids_injective_test :
    prospectiveIdentityId Outpoints.sha256 Outpoints.txid 1 =
      .ok "BKCad5uXKagQLvFJqVZ9tWqkNjKK2Wq3nndcdJtmSvXk" ∧
    base58Decode "BKCad5uXKagQLvFJqVZ9tWqkNjKK2Wq3nndcdJtmSvXk".toList = some Outpoints.digest ∧
    prospectiveIdentityId Outpoints.sha256 Outpoints.txid 0 ≠
      .ok "BKCad5uXKagQLvFJqVZ9tWqkNjKK2Wq3nndcdJtmSvXk" := by
  obtain ⟨hread, hids⟩ := identity_ids_injective Outpoints.sha256_digests
  have hsecond : prospectiveIdentityId Outpoints.sha256 Outpoints.txid 1 =
      .ok "BKCad5uXKagQLvFJqVZ9tWqkNjKK2Wq3nndcdJtmSvXk" := by decide +kernel
  have hwritten : base58Encode Outpoints.digest =
      "BKCad5uXKagQLvFJqVZ9tWqkNjKK2Wq3nndcdJtmSvXk" := by decide +kernel
  refine ⟨hsecond, ?_, fun hfirst => ?_⟩
  · rw [← hwritten]
    exact hread _ (by decide) (by decide)
  · obtain ⟨outpoint, outpoint', hout, hout', hsame⟩ := hids _ _ _ _ _ hfirst hsecond
    -- the two outputs have different outpoints, and the hash tells them apart
    have hdiffer : (creditOutpoint Outpoints.txid 0).map
        (fun outpoint => Outpoints.sha256 (Outpoints.sha256 outpoint)) ≠
          (creditOutpoint Outpoints.txid 1).map
            fun outpoint => Outpoints.sha256 (Outpoints.sha256 outpoint) := by decide +kernel
    rw [hout, hout', Option.map_some, Option.map_some, hsame] at hdiffer
    exact hdiffer rfl

end DashFaucet

import DashFaucet.Chain.Replies

/-!
# The decoder on hostile bytes

What `decode` makes of any bytes at all. A varint is added up in doubles and without an end, and
what is skipped may not be there.

* `reading`: the double that the bytes of a varint are read as.
* `Digits.reading_eq_finite_iff`: when that is their number.
* `Digits.two_pow_dvd_reading`: and what is true of it where it is not.
-/

namespace DashFaucet.Dapi

variable {n m k : ℕ} {bytes input rest : List ℕ} {result scale d : Double}

/-! ### What a varint is read as -/

/-- The double that the bytes of a varint are read as. -/
def reading (bytes : List ℕ) : Double :=
  match readVarint bytes with
  | .ok (d, _) => d
  | .error _ => .nan

theorem exists_readVarintFrom (h : Digits n bytes) (result scale : Double) :
    ∃ d, ∀ rest, readVarintFrom result scale (bytes ++ rest) = .ok (d, rest) := by
  induction h generalizing result scale with
  | @last b hb => exact ⟨_, readVarintFrom_last hb result scale⟩
  | @more b n bytes hb hmore ih =>
    obtain ⟨d, hd⟩ := ih (result + .finite b * scale) (scale * .finite 128)
    refine ⟨d, fun rest => ?_⟩
    rw [List.cons_append, readVarintFrom_more hb, hd]

/-- **Digits are read as one double**, whatever follows. -/
theorem Digits.readVarint_append (h : Digits n bytes) (rest : List ℕ) :
    readVarint (bytes ++ rest) = .ok (reading bytes, rest) := by
  obtain ⟨d, hd⟩ := exists_readVarintFrom h (.finite 0) (.finite 1)
  have halone : readVarint bytes = .ok (d, []) := by
    have hnil := hd []
    rwa [List.append_nil] at hnil
  rw [readVarint, hd, reading, halone]

theorem exists_digits (hbytes : ∀ b ∈ input, b < 256)
    (h : readVarintFrom result scale input = .ok (d, rest)) :
    ∃ n bytes, Digits n bytes ∧ input = bytes ++ rest := by
  induction input generalizing result scale with
  | nil => cases h
  | cons byte input ih =>
    obtain ⟨hbyte, hinput⟩ := List.forall_mem_cons.mp hbytes
    rcases Nat.lt_or_ge byte 128 with hlast | hmore
    · rw [readVarintFrom_last hlast] at h
      cases h
      exact ⟨byte, [byte], .last hlast, rfl⟩
    · obtain ⟨b, rfl⟩ := Nat.exists_eq_add_of_le hmore
      have hb : b < 128 := by omega
      rw [readVarintFrom_more hb] at h
      obtain ⟨n, bytes, hdigits, rfl⟩ := ih hinput h
      exact ⟨_, _, .more hb hdigits, rfl⟩

/-- **What is read is digits.** -/
theorem readVarint_eq_ok (hbytes : ∀ b ∈ input, b < 256)
    (h : readVarint input = .ok (d, rest)) :
    ∃ n bytes, Digits n bytes ∧ input = bytes ++ rest ∧ d = reading bytes := by
  obtain ⟨n, bytes, hdigits, rfl⟩ := exists_digits hbytes h
  rw [hdigits.readVarint_append] at h
  cases h
  exact ⟨n, bytes, hdigits, rfl, rfl⟩

/-- The number and the bytes of a varint are told by the bytes, whatever follows. -/
theorem Digits.unique {n' : ℕ} {bytes' rest' : List ℕ} (h : Digits n bytes)
    (h' : Digits n' bytes') (heq : bytes ++ rest = bytes' ++ rest') :
    n = n' ∧ bytes = bytes' ∧ rest = rest' := by
  -- digit by digit; only the last is below 128
  induction h generalizing n' bytes' with
  | @last b hb =>
    cases h' with
    | last hb' =>
      obtain ⟨rfl, hrest⟩ := List.cons.inj heq
      exact ⟨rfl, rfl, hrest⟩
    | more hb' hmore' =>
      have hbyte := (List.cons.inj heq).1
      omega
  | @more b n bytes hb hmore ih =>
    cases h' with
    | last hb' =>
      have hbyte := (List.cons.inj heq).1
      omega
    | more hb' hmore' =>
      obtain ⟨hbyte, htail⟩ := List.cons.inj heq
      obtain ⟨rfl, rfl, hrest⟩ := ih hmore' htail
      obtain rfl := Nat.add_left_cancel hbyte
      exact ⟨rfl, rfl, hrest⟩

/-- What is not finite on the way is not finite at the end. -/
theorem finite_of_readVarintFrom (h : readVarintFrom result scale input = .ok (.finite m, rest)) :
    (∃ a, result = .finite a) ∧ (∃ weight, scale = .finite weight) ∧ Double.IsDouble m := by
  induction input generalizing result scale with
  | nil => cases h
  | cons byte input ih =>
    rw [readVarintFrom] at h
    split at h
    · obtain ⟨⟨sum, hsum⟩, ⟨weight, hweight⟩, hm⟩ := ih h
      obtain ⟨a, b, rfl, -, -⟩ := Double.add_eq_finite hsum
      obtain ⟨weight', -, rfl, -, -⟩ := Double.mul_eq_finite hweight
      exact ⟨⟨a, rfl⟩, ⟨weight', rfl⟩, hm⟩
    · obtain ⟨hsum, -⟩ := Prod.mk.inj (Except.ok.inj h)
      obtain ⟨a, b, rfl, hproduct, hround⟩ := Double.add_eq_finite hsum
      obtain ⟨-, weight, -, rfl, -⟩ := Double.mul_eq_finite hproduct
      exact ⟨⟨a, rfl⟩, ⟨weight, rfl⟩, Double.isDouble_of_round hround⟩

/-- **One more digit** of what comes out finite: the sum and the next weight are finite. -/
theorem readVarintFrom_more_finite {b j : ℕ} (hb : b < 128)
    (h : readVarintFrom (.finite n) (.finite (2 ^ (7 * j))) ((128 + b) :: input) =
      .ok (.finite m, rest)) :
    7 * (j + 1) < 1024 ∧ ∃ product sum, Double.round (b * 2 ^ (7 * j)) = .finite product ∧
      Double.round (n + product) = .finite sum ∧
      readVarintFrom (.finite sum) (.finite (2 ^ (7 * (j + 1)))) input = .ok (.finite m, rest) := by
  rw [readVarintFrom_more hb] at h
  obtain ⟨⟨sum, hsum⟩, ⟨weight, hweight⟩, -⟩ := finite_of_readVarintFrom h
  have hpow : Double.finite (2 ^ (7 * j)) * .finite 128 = Double.round (2 ^ (7 * (j + 1))) := by
    rw [Nat.mul_add, Nat.pow_add]
    rfl
  obtain ⟨_, product, hn, hproduct, hround⟩ := Double.add_eq_finite hsum
  cases hn
  rw [hpow] at hweight h
  have hlt := Double.lt_of_round_two_pow hweight
  rw [hsum, Double.round_two_pow hlt] at h
  exact ⟨hlt, product, sum, hproduct, hround, h⟩

/-- 147 digits can be added up, and no more: the next weight is infinite. -/
theorem Digits.length_le {j : ℕ} (h : Digits n bytes) (hj : j < 147)
    (hread : readVarintFrom (.finite k) (.finite (2 ^ (7 * j))) (bytes ++ rest) =
      .ok (.finite m, rest)) : j + bytes.length ≤ 147 := by
  induction h generalizing k j with
  | last hb => exact hj
  | @more b n bytes hb hmore ih =>
    obtain ⟨hlt, product, sum, -, -, hnext⟩ := readVarintFrom_more_finite hb hread
    have hle := ih (by omega) hnext
    rw [List.length_cons]
    omega

theorem Digits.finite_reading (h : Digits n bytes) (hread : reading bytes = .finite m) :
    Double.IsDouble m ∧ bytes.length ≤ 147 := by
  have hbytes := h.readVarint_append []
  rw [hread] at hbytes
  have hlen := h.length_le (j := 0) (by decide) hbytes
  rw [Nat.zero_add] at hlen
  exact ⟨(finite_of_readVarintFrom hbytes).2.2, hlen⟩

/-- **When a varint is read as its number**: it is a double, and there are 147 digits at most. -/
theorem Digits.reading_eq_finite_iff (h : Digits n bytes) :
    reading bytes = .finite n ↔ Double.IsDouble n ∧ bytes.length ≤ 147 := by
  constructor
  · exact h.finite_reading
  · rintro ⟨hdouble, hlen⟩
    have hone : 0 + n * 2 ^ (7 * 0) = n := by
      rw [Nat.zero_add, Nat.mul_zero, Nat.pow_zero, Nat.mul_one]
    have hexact := h.read 0 0 [] (by decide) (by rwa [hone]) (by omega)
    rw [hone] at hexact
    exact (Prod.mk.inj (Except.ok.inj ((h.readVarint_append []).symm.trans hexact))).1

/-- A number that is great to a digit, or to the others. -/
theorem two_pow_le_or {b j : ℕ} (hb : b < 128) (h : 2 ^ k ≤ (b + 128 * n) * 2 ^ j) :
    2 ^ k ≤ b * 2 ^ j ∨ 2 ^ k ≤ n * 2 ^ (j + 7) := by
  rcases Nat.eq_zero_or_pos n with rfl | hn
  · exact .inl h
  refine .inr ?_
  rcases Nat.le_total k (j + 7) with hk | hk
  · calc 2 ^ k ≤ 2 ^ (j + 7) := Nat.pow_le_pow_right Nat.two_pos hk
      _ ≤ n * 2 ^ (j + 7) := Nat.le_mul_of_pos_left _ hn
  · obtain ⟨e, rfl⟩ := Nat.exists_eq_add_of_le hk
    -- a multiple of 128 that is no more than the number is no more than the other digits
    have hpow : 2 ^ (j + 7 + e) = 128 * 2 ^ e * 2 ^ j := by
      rw [Nat.pow_add, Nat.pow_add]
      ring
    rw [hpow] at h ⊢
    have hle : 128 * 2 ^ e ≤ b + 128 * n := Nat.le_of_mul_le_mul_right h (Nat.two_pow_pos j)
    calc 128 * 2 ^ e * 2 ^ j ≤ 128 * n * 2 ^ j := Nat.mul_le_mul_right _ (by omega)
      _ = n * 2 ^ (j + 7) := by
        rw [Nat.pow_add]
        ring

/-- What is great stays great when it is added up. -/
theorem Digits.two_pow_le {j sum : ℕ} (h : Digits n bytes)
    (hread : readVarintFrom (.finite sum) (.finite (2 ^ (7 * j))) (bytes ++ rest) =
      .ok (.finite m, rest))
    (hle : 2 ^ k ≤ sum ∨ 2 ^ k ≤ n * 2 ^ (7 * j)) : 2 ^ k ≤ m := by
  -- rounding does not lead across a power of two, at any digit
  have hstep : ∀ {b j sum product next : ℕ}, 2 ^ k ≤ sum ∨ 2 ^ k ≤ b * 2 ^ (7 * j) →
      Double.round (b * 2 ^ (7 * j)) = .finite product →
      Double.round (sum + product) = .finite next → 2 ^ k ≤ next := by
    intro b j sum product next hle hproduct hnext
    refine Double.two_pow_le_of_round hnext ?_
    rcases hle with hsum | hb
    · exact hsum.trans (Nat.le_add_right _ _)
    · exact (Double.two_pow_le_of_round hproduct hb).trans (Nat.le_add_left _ _)
  induction h generalizing sum j with
  | @last b hb =>
    rw [List.cons_append, readVarintFrom_last hb] at hread
    obtain ⟨_, product, hsum, hproduct, hround⟩ :=
      Double.add_eq_finite (Prod.mk.inj (Except.ok.inj hread)).1
    cases hsum
    exact hstep hle hproduct hround
  | @more b n bytes hb hmore ih =>
    obtain ⟨-, product, next, hproduct, hround, hnext⟩ := readVarintFrom_more_finite hb hread
    refine ih hnext ?_
    have hsplit : 2 ^ k ≤ (b + 128 * n) * 2 ^ (7 * j) →
        2 ^ k ≤ b * 2 ^ (7 * j) ∨ 2 ^ k ≤ n * 2 ^ (7 * (j + 1)) := two_pow_le_or hb
    rcases hle with hsum | hrest
    · exact .inl (hstep (.inl hsum) hproduct hround)
    · rcases hsplit hrest with hdigit | hrest
      · exact .inl (hstep (.inr hdigit) hproduct hround)
      · exact .inr hrest

/-- **A great number is read as a multiple of a power of two.** -/
theorem Digits.two_pow_dvd_reading (h : Digits n bytes) (hread : reading bytes = .finite m)
    (hle : 2 ^ k ≤ n) : 2 ^ (k - 52) ∣ m := by
  have hbytes : readVarintFrom (.finite 0) (.finite (2 ^ (7 * 0))) (bytes ++ []) =
      .ok (.finite m, []) := by
    rw [← hread]
    exact h.readVarint_append []
  refine (h.finite_reading hread).1.two_pow_dvd (h.two_pow_le hbytes (.inr ?_))
  rwa [Nat.mul_zero, Nat.pow_zero, Nat.mul_one]

/-- What is not too great is read as it is. -/
theorem Digits.reading_of_dvd (h : Digits n bytes) (hread : reading bytes = .finite m)
    (hlt : n < 2 ^ (53 + k)) (hdvd : 2 ^ k ∣ n) (hk : 53 + k ≤ 1024) : m = n := by
  have hn := h.reading_eq_finite_iff.mpr
    ⟨Double.isDouble_of_dvd hlt hdvd hk, (h.finite_reading hread).2⟩
  exact Double.finite.inj (hread.symm.trans hn)

/-! ### Keys -/

/-- The wire types whose keys are read as of that type, which goes by the lowest bits. -/
def KeyRead (key : ℕ) : Prop :=
  key % 8 = 0 ∨ (key % 8 = 2 ∧ key < 2 ^ 54) ∨ ((key % 8 = 1 ∨ key % 8 = 5) ∧ key < 2 ^ 53)

instance (key : ℕ) : Decidable (KeyRead key) := instDecidableOr

/-- **The wire type of a key** is read exactly if `KeyRead` holds of it. -/
theorem Digits.keyRead_iff (h : Digits n bytes) (hread : reading bytes = .finite m)
    (htype : m % 8 = 0 ∨ m % 8 = 1 ∨ m % 8 = 2 ∨ m % 8 = 5) : KeyRead n ↔ m % 8 = n % 8 := by
  have hlow : n < 2 ^ (53 + 0) → m = n := fun hlt =>
    h.reading_of_dvd hread hlt (Nat.one_dvd n) (by decide)
  have htwo : 2 ^ 53 ≤ n → 2 ∣ m := h.two_pow_dvd_reading hread
  have hfour : 2 ^ 54 ≤ n → 4 ∣ m := h.two_pow_dvd_reading hread
  have height : 2 ^ 55 ≤ n → 8 ∣ m := h.two_pow_dvd_reading hread
  rw [KeyRead]
  constructor
  · rintro (h0 | ⟨h2, hlt⟩ | ⟨h15, hlt⟩)
    · rcases Nat.lt_or_ge n (2 ^ 55) with hlt | hge
      · rw [h.reading_of_dvd (k := 2) hread hlt (by omega) (by decide)]
      · have hdvd := height hge
        omega
    · rw [h.reading_of_dvd (k := 1) hread hlt (by omega) (by decide)]
    · rw [hlow hlt]
  · intro heq
    omega

/-- The number that a field has, as its key is read. -/
def keyNumber (key : List ℕ) : ℕ :=
  match reading key with
  | .finite k => k / 8
  | _ => 0

/-! ### Fields in full -/

namespace WireField

def number : WireField → ℕ
  | .varint number _ => number
  | .fixed64 number _ => number
  | .bytes number _ => number
  | .fixed32 number _ => number

def wireType : WireField → ℕ
  | .varint _ _ => 0
  | .fixed64 _ _ => 1
  | .bytes _ _ => 2
  | .fixed32 _ _ => 5

/-- What belongs to a field behind its key, in full. -/
inductive Payload : WireField → List ℕ → Prop
  | varint {number value : ℕ} {bytes : List ℕ} (hvalue : Digits value bytes) :
      Payload (.varint number value) bytes
  | fixed64 {number : ℕ} {data : List ℕ} (hdata : data.length = 8) :
      Payload (.fixed64 number data) data
  | bytes {number : ℕ} {length data : List ℕ} (hlength : Digits data.length length) :
      Payload (.bytes number data) (length ++ data)
  | fixed32 {number : ℕ} {data : List ℕ} (hdata : data.length = 4) :
      Payload (.fixed32 number data) data

/-- A field in full: its key, and all that belongs to it. -/
structure Complete (f : WireField) (key payload : List ℕ) : Prop where
  key : Digits (f.number * 8 + f.wireType) key
  payload : f.Payload payload

/-- The field is read as what it is, under this number; its value, if it is a varint, where it is
the first of the number. -/
def ReadAs (number : ℕ) (first : Prop) : WireField → Option (ℕ × Value) → Prop
  | .varint _ value, item => ∃ d, item = some (number, .number d) ∧
      (first → d = .finite value ∧ value < 2 ^ 64)
  | .bytes _ data, item => item = some (number, .bytes data)
  | .fixed64 _ _, item => item = none
  | .fixed32 _ _, item => item = none

/-- The numbers that have a value once the field is read. -/
def noted (key : List ℕ) (seen : List ℕ) : WireField → List ℕ
  | .varint _ _ => keyNumber key :: seen
  | .bytes _ _ => keyNumber key :: seen
  | .fixed64 _ _ => seen
  | .fixed32 _ _ => seen

variable {f f' : WireField} {key key' payload payload' rest' : List ℕ}

theorem wireType_lt (f : WireField) : f.wireType < 8 := by
  cases f with
  | varint _ _ => exact show 0 < 8 by decide
  | fixed64 _ _ => exact show 1 < 8 by decide
  | bytes _ _ => exact show 2 < 8 by decide
  | fixed32 _ _ => exact show 5 < 8 by decide

/-- Wire types 1 and 5 have a length of their own. -/
theorem Payload.length_eq (h : f.Payload payload) :
    (f.wireType = 1 → payload.length = 8) ∧ (f.wireType = 5 → payload.length = 4) := by
  cases h with
  | varint _ => exact ⟨nofun, nofun⟩
  | fixed64 hdata => exact ⟨fun _ => hdata, nofun⟩
  | bytes _ => exact ⟨nofun, nofun⟩
  | fixed32 hdata => exact ⟨nofun, fun _ => hdata⟩

/-- **A field is told by its bytes**, whatever follows. -/
theorem Complete.unique (h : f.Complete key payload) (h' : f'.Complete key' payload')
    (heq : key ++ (payload ++ rest) = key' ++ (payload' ++ rest')) :
    f = f' ∧ key = key' ∧ payload = payload' ∧ rest = rest' := by
  obtain ⟨hkeys, rfl, htail⟩ := h.key.unique h'.key heq
  have hlt := f.wireType_lt
  have hlt' := f'.wireType_lt
  -- the keys are one, so number and wire type are
  have htype : f.wireType = f'.wireType := by omega
  have hnumber : f.number = f'.number := by omega
  obtain ⟨-, hpayload⟩ := h
  obtain ⟨-, hpayload'⟩ := h'
  cases hpayload with
  | varint hvalue =>
    cases hpayload' with
    | varint hvalue' =>
      cases hnumber
      obtain ⟨rfl, rfl, hrest⟩ := hvalue.unique hvalue' htail
      exact ⟨rfl, rfl, rfl, hrest⟩
    | fixed64 _ => cases htype
    | bytes _ => cases htype
    | fixed32 _ => cases htype
  | fixed64 hdata =>
    cases hpayload' with
    | varint _ => cases htype
    | fixed64 hdata' =>
      cases hnumber
      obtain ⟨rfl, hrest⟩ := List.append_inj htail (hdata.trans hdata'.symm)
      exact ⟨rfl, rfl, rfl, hrest⟩
    | bytes _ => cases htype
    | fixed32 _ => cases htype
  | bytes hlength =>
    cases hpayload' with
    | varint _ => cases htype
    | fixed64 _ => cases htype
    | bytes hlength' =>
      cases hnumber
      -- the length says where the data end
      rw [List.append_assoc, List.append_assoc] at htail
      obtain ⟨hlen, rfl, hdata⟩ := hlength.unique hlength' htail
      obtain ⟨rfl, hrest⟩ := List.append_inj hdata hlen
      exact ⟨rfl, rfl, rfl, hrest⟩
    | fixed32 _ => cases htype
  | fixed32 hdata =>
    cases hpayload' with
    | varint _ => cases htype
    | fixed64 _ => cases htype
    | bytes _ => cases htype
    | fixed32 hdata' =>
      cases hnumber
      obtain ⟨rfl, hrest⟩ := List.append_inj htail (hdata.trans hdata'.symm)
      exact ⟨rfl, rfl, rfl, hrest⟩

end WireField

/-! ### One field -/

/-- What a round of the loop takes behind a key that is read as `k`, and what it leaves. -/
inductive Behind (k : ℕ) : List ℕ → Option (ℕ × Value) → List ℕ → Prop
  | varint {n : ℕ} {bytes rest : List ℕ} (htype : k % 8 = 0) (h : Digits n bytes) :
      Behind k (bytes ++ rest) (some (k / 8, .number (reading bytes))) rest
  | bytes {n m : ℕ} {bytes data : List ℕ} (htype : k % 8 = 2) (h : Digits n bytes)
      (hread : reading bytes = .finite m) (hle : m ≤ data.length) :
      Behind k (bytes ++ data) (some (k / 8, .bytes (data.take m))) (data.drop m)
  | nan {n : ℕ} {bytes data : List ℕ} (htype : k % 8 = 2) (h : Digits n bytes)
      (hread : reading bytes = .nan) :
      Behind k (bytes ++ data) (some (k / 8, .bytes [])) []
  | fixed64 {after : List ℕ} (htype : k % 8 = 1) : Behind k after none (after.drop 8)
  | fixed32 {after : List ℕ} (htype : k % 8 = 5) : Behind k after none (after.drop 4)

/-- **One round of the loop**, key by key. -/
theorem readField_behind {key after : List ℕ} {item : Option (ℕ × Value)} (hkey : Digits n key)
    (hbytes : ∀ b ∈ after, b < 256) (h : readField (key ++ after) = .ok (item, rest)) :
    ∃ k, reading key = .finite k ∧ Behind k after item rest := by
  rw [readField, hkey.readVarint_append] at h
  replace h : (match reading key with
    | .finite k => _
    | _ => _ : Except String (Option (ℕ × Value) × List ℕ)) = _ := h
  split at h
  -- a key that is read as NaN or infinite is of no wire type
  next k hk =>
    refine ⟨k, hk, ?_⟩
    dsimp only at h
    split at h
    next htype =>
      obtain ⟨⟨d, rest'⟩, hvalue, h⟩ := Except.of_bind_ok h
      obtain ⟨n, bytes, hdigits, rfl, rfl⟩ := readVarint_eq_ok hbytes hvalue
      cases h
      exact .varint htype hdigits
    next htype =>
      obtain ⟨⟨d, rest'⟩, hlength, h⟩ := Except.of_bind_ok h
      obtain ⟨n, bytes, hdigits, rfl, rfl⟩ := readVarint_eq_ok hbytes hlength
      dsimp only at h
      split at h
      next m hm =>
        split at h
        · cases h
        next hle =>
          cases h
          exact .bytes htype hdigits hm (Nat.le_of_not_lt hle)
      · cases h
      -- a length of NaN takes nothing
      next hnan =>
        cases h
        exact .nan htype hdigits hnan
    next htype =>
      cases h
      exact .fixed64 htype
    next htype =>
      cases h
      exact .fixed32 htype
    · cases h
  · cases h

theorem Behind.wireType {k : ℕ} {after : List ℕ} {item : Option (ℕ × Value)}
    (h : Behind k after item rest) : k % 8 = 0 ∨ k % 8 = 1 ∨ k % 8 = 2 ∨ k % 8 = 5 := by
  cases h with
  | varint htype _ => exact .inl htype
  | bytes htype _ _ _ => exact .inr (.inr (.inl htype))
  | nan htype _ _ => exact .inr (.inr (.inl htype))
  | fixed64 htype => exact .inr (.inl htype)
  | fixed32 htype => exact .inr (.inr (.inr htype))

/-! ### Messages -/

/-- The decoder takes field after field in full, and as what they are. -/
inductive Sound : List ℕ → List ℕ → Prop
  | nil {seen : List ℕ} : Sound seen []
  | cons {seen key payload rest : List ℕ} {f : WireField} {item : Option (ℕ × Value)}
      (complete : f.Complete key payload)
      (read : readField (key ++ (payload ++ rest)) = .ok (item, rest))
      (readAs : f.ReadAs (keyNumber key) (keyNumber key ∉ seen) item)
      (more : Sound (f.noted key seen) rest) : Sound seen (key ++ (payload ++ rest))

/-- Behind some fields in full there is a key whose wire type is not read as it is, a value or a
length that doubles do not have, or a field of fixed width that is cut short. -/
inductive Hostile : List ℕ → List ℕ → Prop
  | key {n : ℕ} {seen key rest : List ℕ} (hkey : Digits n key) (hread : ¬KeyRead n) :
      Hostile seen (key ++ rest)
  | value {number n : ℕ} {seen key bytes rest : List ℕ} (hkey : Digits (number * 8 + 0) key)
      (hvalue : Digits n bytes) (first : keyNumber key ∉ seen)
      (hbad : ¬(Double.IsDouble n ∧ bytes.length ≤ 147 ∧ n < 2 ^ 64)) :
      Hostile seen (key ++ (bytes ++ rest))
  | length {number n : ℕ} {seen key bytes rest : List ℕ} (hkey : Digits (number * 8 + 2) key)
      (hlength : Digits n bytes) (hbad : ¬(Double.IsDouble n ∧ bytes.length ≤ 147))
      (hsome : ¬(n = 0 ∧ rest = [])) : Hostile seen (key ++ (bytes ++ rest))
  | fixed64 {number : ℕ} {seen key rest : List ℕ} (hkey : Digits (number * 8 + 1) key)
      (hcut : rest.length < 8) : Hostile seen (key ++ rest)
  | fixed32 {number : ℕ} {seen key rest : List ℕ} (hkey : Digits (number * 8 + 5) key)
      (hcut : rest.length < 4) : Hostile seen (key ++ rest)
  | later {seen key payload rest : List ℕ} {f : WireField} (complete : f.Complete key payload)
      (more : Hostile (f.noted key seen) rest) : Hostile seen (key ++ (payload ++ rest))

variable {seen : List ℕ} {item : Option (ℕ × Value)} {items : List (Option (ℕ × Value))}

theorem keyNumber_eq {key : List ℕ} (h : reading key = .finite k) : keyNumber key = k / 8 := by
  rw [keyNumber, h]

/-- **What is read of input that is not hostile** is a field in full, as what it is. -/
theorem exists_complete (hbytes : ∀ b ∈ input, b < 256) (hbenign : ¬Hostile seen input)
    (hread : readField input = .ok (item, rest)) :
    ∃ (f : WireField) (key payload : List ℕ), input = key ++ (payload ++ rest) ∧
      f.Complete key payload ∧ f.ReadAs (keyNumber key) (keyNumber key ∉ seen) item := by
  obtain ⟨⟨d, after⟩, hkeyRead, -⟩ := Except.of_bind_ok hread
  obtain ⟨n, key, hkey, rfl, -⟩ := readVarint_eq_ok hbytes hkeyRead
  obtain ⟨k, hk, hbehind⟩ := readField_behind hkey
    (fun b hb => hbytes b (List.mem_append_right _ hb)) hread
  -- what is not hostile has a key whose wire type is read
  have htype : KeyRead n := by
    by_contra hnot
    exact hbenign (.key hkey hnot)
  rw [hkey.keyRead_iff hk hbehind.wireType] at htype
  have hnumber : ∀ t, k % 8 = t → n = n / 8 * 8 + t := fun t ht => by omega
  cases hbehind with
  -- each kind of field: were it read as something else, the message would be hostile
  | @varint value bytes rest h0 hvalue =>
    rw [hnumber 0 h0] at hkey
    refine ⟨.varint (n / 8) value, key, bytes, rfl, ⟨hkey, .varint hvalue⟩, reading bytes, ?_,
      fun first => ?_⟩
    · rw [keyNumber_eq hk]
    · by_contra hnot
      refine hbenign (.value hkey hvalue first fun ⟨hdouble, hlen, hlt⟩ => hnot ?_)
      exact ⟨hvalue.reading_eq_finite_iff.mpr ⟨hdouble, hlen⟩, hlt⟩
  | @bytes len m bytes data h2 hlength hm hle =>
    rw [hnumber 2 h2] at hkey
    have hexact : Double.IsDouble len ∧ bytes.length ≤ 147 := by
      by_contra hnot
      refine hbenign (.length hkey hlength hnot fun ⟨hzero, _⟩ => hnot ?_)
      rw [hzero]
      exact ⟨Double.isDouble_of_lt (by decide), (hlength.finite_reading hm).2⟩
    obtain rfl : len = m :=
      Double.finite.inj ((hlength.reading_eq_finite_iff.mpr hexact).symm.trans hm)
    refine ⟨.bytes (n / 8) (data.take len), key, bytes ++ data.take len, ?_,
      ⟨hkey, .bytes ?_⟩, ?_⟩
    · rw [List.append_assoc, List.take_append_drop]
    · rwa [List.length_take, Nat.min_eq_left hle]
    · rw [WireField.ReadAs, keyNumber_eq hk]
  | @nan len bytes data h2 hlength hnan =>
    rw [hnumber 2 h2] at hkey
    -- the length has no double, which is harmless at the end of the message only
    have hempty : len = 0 ∧ data = [] := by
      by_contra hsome
      refine hbenign (.length hkey hlength (fun hexact => ?_) hsome)
      have hfinite := hlength.reading_eq_finite_iff.mpr hexact
      rw [hnan] at hfinite
      cases hfinite
    obtain ⟨rfl, rfl⟩ := hempty
    refine ⟨.bytes (n / 8) [], key, bytes ++ [], ?_, ⟨hkey, .bytes hlength⟩, ?_⟩
    · rw [List.append_nil, List.append_nil]
    · rw [WireField.ReadAs, keyNumber_eq hk]
  | fixed64 h1 =>
    rw [hnumber 1 h1] at hkey
    -- the decoder skips eight bytes without looking, so they have to be there
    have hlen : 8 ≤ after.length := by
      by_contra hcut
      exact hbenign (.fixed64 hkey (Nat.lt_of_not_le hcut))
    refine ⟨.fixed64 (n / 8) (after.take 8), key, after.take 8, ?_, ⟨hkey, .fixed64 ?_⟩, rfl⟩
    · rw [List.take_append_drop]
    · rw [List.length_take, Nat.min_eq_left hlen]
  | fixed32 h5 =>
    rw [hnumber 5 h5] at hkey
    have hlen : 4 ≤ after.length := by
      by_contra hcut
      exact hbenign (.fixed32 hkey (Nat.lt_of_not_le hcut))
    refine ⟨.fixed32 (n / 8) (after.take 4), key, after.take 4, ?_, ⟨hkey, .fixed32 ?_⟩, rfl⟩
    · rw [List.take_append_drop]
    · rw [List.length_take, Nat.min_eq_left hlen]

/-- **Input that is not hostile is read soundly.** -/
theorem sound_of_not_hostile (hruns : fieldReader.Runs input items)
    (hbytes : ∀ b ∈ input, b < 256) (hbenign : ¬Hostile seen input) : Sound seen input := by
  induction hruns generalizing seen with
  | nil => exact .nil
  | cons head tail ih =>
    obtain ⟨f, key, payload, rfl, hcomplete, hreadAs⟩ := exists_complete hbytes hbenign head
    refine .cons hcomplete head hreadAs (ih (fun b hb => hbytes b ?_) fun hlater => ?_)
    · exact List.mem_append_right _ (List.mem_append_right _ hb)
    · exact hbenign (.later hcomplete hlater)

/-- A field that is read as what it is has a key whose wire type is read. -/
theorem keyRead_of_readAs {f : WireField} {key payload : List ℕ} {number : ℕ} {first : Prop}
    (hcomplete : f.Complete key payload) (hk : reading key = .finite k)
    (hbehind : Behind k (payload ++ rest) item rest) (hreadAs : f.ReadAs number first item) :
    KeyRead (f.number * 8 + f.wireType) := by
  have hiff := hcomplete.key.keyRead_iff hk hbehind.wireType
  -- what is read as odd is below the numbers that are rounded
  have hodd : k % 2 = 1 → k = f.number * 8 + f.wireType := fun hodd => by
    refine hcomplete.key.reading_of_dvd (k := 0) hk ?_ (Nat.one_dvd _) (by decide)
    by_contra hge
    have hdvd : 2 ^ (53 - 52) ∣ k := hcomplete.key.two_pow_dvd_reading hk (Nat.le_of_not_lt hge)
    omega
  refine hiff.mpr ?_
  generalize payload ++ rest = after at hbehind
  cases f with
  | varint number value =>
    obtain ⟨d, rfl, -⟩ := hreadAs
    show k % 8 = (number * 8 + 0) % 8
    cases hbehind with
    | varint h0 _ => omega
  | bytes number data =>
    obtain rfl : item = _ := hreadAs
    show k % 8 = (number * 8 + 2) % 8
    have h2 : k % 8 = 2 := by
      generalize hitem : some (_, Value.bytes data) = item at hbehind
      cases hbehind with
      | bytes h2 _ _ _ => exact h2
      | nan h2 _ _ => exact h2
      | varint _ _ => cases hitem
      | fixed64 _ => cases hitem
      | fixed32 _ => cases hitem
    omega
  | fixed64 number data =>
    obtain rfl : item = none := hreadAs
    cases hbehind with
    | fixed64 h1 => rw [hodd (by omega)]
    | fixed32 h5 => rw [hodd (by omega)]
  | fixed32 number data =>
    obtain rfl : item = none := hreadAs
    cases hbehind with
    | fixed64 h1 => rw [hodd (by omega)]
    | fixed32 h5 => rw [hodd (by omega)]

theorem Hostile.ne_nil (h : Hostile seen input) : input ≠ [] := by
  have hne : ∀ {n : ℕ} {key : List ℕ}, Digits n key → ∀ rest, key ++ rest ≠ [] := fun hkey rest =>
    List.append_ne_nil_of_left_ne_nil (List.ne_nil_of_length_pos hkey.length_pos) rest
  cases h with
  | key hkey _ => exact hne hkey _
  | value hkey _ _ _ => exact hne hkey _
  | length hkey _ _ _ => exact hne hkey _
  | fixed64 hkey _ => exact hne hkey _
  | fixed32 hkey _ => exact hne hkey _
  | later complete _ => exact hne complete.key _

/-- What is returned of a varint is its number. -/
theorem Behind.reading_eq {number n : ℕ} {bytes : List ℕ} {d : Double} (hvalue : Digits n bytes)
    (h : Behind k (bytes ++ rest) (some (number, .number d)) rest) : reading bytes = d := by
  generalize hafter : bytes ++ rest = after at h
  generalize hitem : some (number, Value.number d) = item at h
  cases h with
  | varint _ hdigits =>
    obtain ⟨-, rfl, -⟩ := hvalue.unique hdigits hafter
    cases hitem
    rfl
  | bytes _ _ _ _ => cases hitem
  | nan _ _ _ => cases hitem
  | fixed64 _ => cases hitem
  | fixed32 _ => cases hitem

/-- What is returned of a field of bytes is read as long as it is, unless there is nothing. -/
theorem Behind.length_eq {number n : ℕ} {bytes data : List ℕ} (hlength : Digits n bytes)
    (h : Behind k (bytes ++ (data ++ rest)) (some (number, .bytes data)) rest) :
    reading bytes = .finite data.length ∨ (data = [] ∧ rest = []) := by
  generalize hafter : bytes ++ (data ++ rest) = after at h
  generalize hitem : some (number, Value.bytes data) = item at h
  generalize hend : rest = tail at h
  cases h with
  | varint _ _ => cases hitem
  | @bytes n' m bytes' whole _ hdigits hread hle =>
    obtain ⟨-, rfl, rfl⟩ := hlength.unique hdigits hafter
    have hdata : data = (data ++ rest).take m :=
      Value.bytes.inj (Prod.mk.inj (Option.some.inj hitem)).2
    have hlen := congrArg List.length hdata
    rw [List.length_take, Nat.min_eq_left hle] at hlen
    exact .inl (hread.trans (congrArg Double.finite hlen.symm))
  | nan _ _ _ =>
    cases hitem
    exact .inr ⟨rfl, rfl⟩
  | fixed64 _ => cases hitem
  | fixed32 _ => cases hitem

/-- **What is read soundly is not hostile.** -/
theorem not_hostile_of_sound (hsound : Sound seen input) (hbytes : ∀ b ∈ input, b < 256) :
    ¬Hostile seen input := by
  induction hsound with
  | nil => exact fun hhostile => hhostile.ne_nil rfl
  | @cons seen key payload rest f item complete hread hreadAs more ih =>
    intro hhostile
    obtain ⟨k, hk, hbehind⟩ := readField_behind complete.key
      (fun b hb => hbytes b (List.mem_append_right _ hb)) hread
    have hlater : ¬Hostile (f.noted key seen) rest := ih fun b hb =>
      hbytes b (List.mem_append_right _ (List.mem_append_right _ hb))
    have htype := f.wireType_lt
    generalize hbuf : key ++ (payload ++ rest) = buf at hhostile
    -- the fault is in the first field, which is read as it is, or further on
    cases hhostile with
    | key hkey hnot =>
      obtain ⟨rfl, rfl, -⟩ := complete.key.unique hkey hbuf
      exact hnot (keyRead_of_readAs complete hk hbehind hreadAs)
    | @value number n seen key' bytes rest' hkey hvalue first hbad =>
      have hfield : (WireField.varint number n).Complete key' bytes := ⟨hkey, .varint hvalue⟩
      obtain ⟨rfl, rfl, rfl, rfl⟩ := complete.unique hfield hbuf
      obtain ⟨d, rfl, hexact⟩ := hreadAs
      obtain ⟨rfl, hlt⟩ := hexact first
      obtain ⟨hdouble, hlen⟩ := hvalue.reading_eq_finite_iff.mp (hbehind.reading_eq hvalue)
      exact hbad ⟨hdouble, hlen, hlt⟩
    | @length number n seen key' bytes rest' hkey hlength hbad hsome =>
      obtain ⟨hkeys, rfl, htail⟩ := complete.key.unique hkey hbuf
      have htwo : f.wireType = 2 := by omega
      obtain ⟨-, hpayload⟩ := complete
      cases hpayload with
      | varint _ => cases htwo
      | @bytes number length data hlength' =>
        rw [List.append_assoc] at htail hbehind
        obtain ⟨rfl, rfl, rfl⟩ := hlength'.unique hlength htail
        obtain rfl : item = _ := hreadAs
        -- the length was read as it is, or both are empty
        rcases hbehind.length_eq hlength with hexact | ⟨rfl, rfl⟩
        · exact hbad (hlength.reading_eq_finite_iff.mp hexact)
        · exact hsome ⟨rfl, rfl⟩
      | fixed64 _ => cases htwo
      | fixed32 _ => cases htwo
    | fixed64 hkey hcut =>
      obtain ⟨hkeys, rfl, rfl⟩ := complete.key.unique hkey hbuf
      have hlen := complete.payload.length_eq.1 (by omega)
      rw [List.length_append] at hcut
      omega
    | fixed32 hkey hcut =>
      obtain ⟨hkeys, rfl, rfl⟩ := complete.key.unique hkey hbuf
      have hlen := complete.payload.length_eq.2 (by omega)
      rw [List.length_append] at hcut
      omega
    | later complete' more' =>
      obtain ⟨rfl, rfl, rfl, rfl⟩ := complete.unique complete' hbuf
      exact hlater more'

/-! ### What is returned -/

/-- A field with its bytes: the key, and what belongs to it. -/
abbrev Piece := WireField × List ℕ × List ℕ

/-- Some bytes are fields in full, one after the other. -/
def InFull (buf : List ℕ) (pieces : List Piece) : Prop :=
  buf = (pieces.map fun piece => piece.2.1 ++ piece.2.2).flatten ∧
    ∀ piece ∈ pieces, piece.1.Complete piece.2.1 piece.2.2

/-- A number that is returned is the one of a varint, and fits into 64 bits. -/
def Exact (pieces : List Piece) (m : ℕ) (d : Double) : Prop :=
  ∃ number v key bytes, (.varint number v, key, bytes) ∈ pieces ∧ keyNumber key = m ∧
    d = .finite v ∧ v < 2 ^ 64

theorem Exact.cons {pieces : List Piece} (piece : Piece) (h : Exact pieces m d) :
    Exact (piece :: pieces) m d := by
  obtain ⟨number, v, key, bytes, hmem, h⟩ := h
  exact ⟨number, v, key, bytes, List.mem_cons_of_mem _ hmem, h⟩

/-- What has a value keeps it. -/
theorem isSome_lookup_setField {acc : Fields} (h : (acc.lookup m).isSome = true) :
    ((setField acc item).lookup m).isSome = true := by
  rw [lookup_setField, Option.or_of_isSome h, h]

theorem isSome_lookup_of_item {acc : Fields} {value : Value} (h : item = some (m, value)) :
    ((setField acc item).lookup m).isSome = true := by
  rw [lookup_setField, h, Option.bind_some, if_pos rfl, Option.isSome_or, Option.isSome_some,
    Bool.or_true]

theorem isSome_lookup_of_noted {acc : Fields} {f : WireField} {key : List ℕ} {first : Prop}
    (hreadAs : f.ReadAs (keyNumber key) first item)
    (hseen : ∀ m ∈ seen, (acc.lookup m).isSome = true) :
    ∀ m ∈ f.noted key seen, ((setField acc item).lookup m).isSome = true := by
  intro m hm
  cases f with
  | varint number value =>
    obtain ⟨d, hitem, -⟩ := hreadAs
    rcases List.mem_cons.mp hm with rfl | hm
    · exact isSome_lookup_of_item hitem
    · exact isSome_lookup_setField (hseen m hm)
  | bytes number data =>
    rcases List.mem_cons.mp hm with rfl | hm
    · exact isSome_lookup_of_item hreadAs
    · exact isSome_lookup_setField (hseen m hm)
  | fixed64 number data => exact isSome_lookup_setField (hseen m hm)
  | fixed32 number data => exact isSome_lookup_setField (hseen m hm)

/-- A number that a field adds is its own. -/
theorem exact_of_readAs {f : WireField} {key payload : List ℕ} {first : Prop}
    {pieces : List Piece} (hreadAs : f.ReadAs (keyNumber key) first item)
    (hitem : item = some (m, .number d)) (hfirst : m = keyNumber key → first) :
    Exact ((f, key, payload) :: pieces) m d := by
  subst hitem
  cases f with
  | varint number value =>
    obtain ⟨d', hentry, hexact⟩ := hreadAs
    obtain ⟨hm, hd⟩ := Prod.mk.inj (Option.some.inj hentry)
    cases hd
    exact ⟨number, value, key, payload, List.mem_cons_self, hm.symm, hexact (hfirst hm)⟩
  | bytes number data => cases hreadAs
  | fixed64 number data => cases hreadAs
  | fixed32 number data => cases hreadAs

/-- **Soundness, spelled out**: beside what was there, the numbers are exact. -/
theorem Sound.inFull {acc fields : Fields} (hsound : Sound seen input)
    (hseen : ∀ m ∈ seen, (acc.lookup m).isSome = true)
    (h : fieldReader.fold setField acc input = .ok fields) :
    ∃ pieces, InFull input pieces ∧ ∀ m d, fields.lookup m = some (.number d) →
      acc.lookup m = some (.number d) ∨ Exact pieces m d := by
  induction hsound generalizing acc with
  | nil =>
    rw [Reader.fold_nil] at h
    cases h
    exact ⟨[], ⟨rfl, fun _ hmem => nomatch hmem⟩, fun _ _ hm => .inl hm⟩
  | @cons seen key payload rest f item complete hread hreadAs more ih =>
    rw [Reader.fold_read setField hread] at h
    obtain ⟨pieces, ⟨rfl, hpieces⟩, hnumbers⟩ := ih (isSome_lookup_of_noted hreadAs hseen) h
    refine ⟨(f, key, payload) :: pieces, ⟨?_, List.forall_mem_cons.mpr ⟨complete, hpieces⟩⟩,
      fun m d hm => ?_⟩
    · rw [List.map_cons, List.flatten_cons, List.append_assoc]
    -- a number of the result was there, or is of this field, or of a later one
    rcases hnumbers m d hm with hadded | hexact
    · rw [lookup_setField, Option.or_eq_some_iff] at hadded
      rcases hadded with hacc | ⟨hnone, hitem⟩
      · exact .inl hacc
      · -- the field is the first of its number
        obtain ⟨⟨m', value⟩, rfl, hvalue⟩ := Option.bind_eq_some_iff.mp hitem
        dsimp only at hvalue
        split at hvalue
        next heq =>
          subst heq
          cases hvalue
          refine .inr (exact_of_readAs hreadAs rfl fun hkey hmem => ?_)
          have hsome := hseen _ hmem
          rw [← hkey, hnone] at hsome
          cases hsome
        · cases hvalue
    · exact .inr (hexact.cons _)

section

variable {string : Double → String} {provider : DapiProvider} {res : HttpResponse}
  {transport : HttpRequest → Except String HttpResponse} {frames : List Frame} {buf : List ℕ}
  {fields : Fields} {height : Double}

/-- **The height that is returned** is the first value of the first field. -/
theorem getHeight_eq_ok_iff
    (hres : transport (provider.request "getBestBlockHeight" []) = .ok res)
    (hsucceeds : Succeeds res frames) (hdata : firstData frames = some buf)
    (h : decode buf = .ok fields) : provider.getHeight string transport = .ok height ↔
      fields.lookup 1 = some (.number height) ∧ height ≠ .finite 0 := by
  have hcall : provider.call string transport "getBestBlockHeight" [] = .ok fields := by
    rw [DapiProvider.call, hres]
    exact readReply_eq_ok_iff.mpr ⟨frames, buf, hsucceeds, hdata, h⟩
  rw [DapiProvider.getHeight, hcall]
  dsimp only [bind, Except.bind]
  split
  -- a height of zero is refused like none at all
  next found hfound =>
    rw [hfound]
    constructor
    · intro hok
      split at hok
      · cases hok
      next hne =>
        cases hok
        exact ⟨rfl, hne⟩
    · rintro ⟨heq, hne⟩
      cases heq
      rw [if_neg hne]
  next hnone =>
    refine iff_of_false (fun hok => ?_) fun hfound => hnone _ hfound.1
    cases hok

/-- **When the decoder is sound.** It takes a message for fields in full, and the numbers that it
returns are those of their varints and fit into 64 bits, exactly if the message is not hostile. Of a
message that is not, the height is a number that fits into 64 bits. -/
theorem decode_sound_iff (hbytes : ∀ b ∈ buf, b < 256) (h : decode buf = .ok fields) :
    (Sound [] buf ↔ ¬Hostile [] buf) ∧
      (Sound [] buf → ∃ pieces, InFull buf pieces ∧
        ∀ m d, fields.lookup m = some (.number d) → Exact pieces m d) ∧
      ∀ string (provider : DapiProvider) transport res frames height,
        transport (provider.request "getBestBlockHeight" []) = .ok res → Succeeds res frames →
        firstData frames = some buf → ¬Hostile [] buf →
        provider.getHeight string transport = .ok height →
        ∃ v, height = .finite v ∧ 0 < v ∧ v < 2 ^ 64 := by
  obtain ⟨items, hruns, -⟩ := Reader.fold_ok_runs _ h
  -- of a sound reading every number of the result is spelled in the bytes
  have hspelled : Sound [] buf → ∃ pieces, InFull buf pieces ∧
      ∀ m d, fields.lookup m = some (.number d) → Exact pieces m d := fun hsound => by
    obtain ⟨pieces, hfull, hnumbers⟩ := hsound.inFull (fun _ hmem => nomatch hmem) h
    exact ⟨pieces, hfull, fun m d hm => (hnumbers m d hm).resolve_left fun hnil => nomatch hnil⟩
  refine ⟨⟨fun hsound => not_hostile_of_sound hsound hbytes, sound_of_not_hostile hruns hbytes⟩,
    hspelled, ?_⟩
  intro string provider transport res frames height hres hsucceeds hdata hbenign hheight
  obtain ⟨hfound, hne⟩ := (getHeight_eq_ok_iff hres hsucceeds hdata h).mp hheight
  obtain ⟨pieces, -, hnumbers⟩ := hspelled (sound_of_not_hostile hruns hbytes hbenign)
  obtain ⟨-, v, -, -, -, -, rfl, hlt⟩ := hnumbers 1 height hfound
  exact ⟨v, rfl, Nat.pos_of_ne_zero fun hzero => hne (congrArg _ hzero), hlt⟩

end

/-! ### Messages of one varint -/

theorem readField_varint {number : ℕ} {key : List ℕ} (hkey : Digits (number * 8 + 0) key)
    (hk : reading key = .finite (number * 8 + 0)) (hvalue : Digits n bytes) :
    readField (key ++ (bytes ++ rest)) = .ok (some (number, .number (reading bytes)), rest) := by
  have hnumber : (number * 8 + 0) / 8 = number := by omega
  have htype : (number * 8 + 0) % 8 = 0 := by omega
  rw [readField, hkey.readVarint_append, hk]
  simp only [bind, Except.bind, htype, hnumber, hvalue.readVarint_append]

theorem decode_height (hvalue : Digits n bytes) :
    decode (8 :: bytes) = .ok [(1, .number (reading bytes))] := by
  have hkey : Digits (1 * 8 + 0) [8] := .last (by decide)
  have hread : readField (8 :: bytes) = .ok (some (1, .number (reading bytes)), []) := by
    have hnil : readField ([8] ++ (bytes ++ [])) = _ := readField_varint hkey rfl hvalue
    rwa [List.append_nil] at hnil
  exact (Reader.fold_read setField hread).trans (Reader.fold_nil setField)

/-- A message of a small height is read soundly. -/
theorem decode_sound_iff_height :
    (Sound [] [8, 42] ↔ ¬Hostile [] [8, 42]) ∧ ¬Hostile [] [8, 42] ∧
      ∃ pieces, InFull [8, 42] pieces ∧
        ∀ m d, List.lookup m [(1, Value.number (.finite 42))] = some (.number d) →
          Exact pieces m d := by
  have hkey : Digits (1 * 8 + 0) [8] := .last (by decide)
  have hvalue : Digits 42 [42] := .last (by decide)
  have hsound : Sound [] ([8] ++ ([42] ++ [])) :=
    .cons (f := .varint 1 42) ⟨hkey, .varint hvalue⟩ (readField_varint hkey rfl hvalue)
      ⟨.finite 42, rfl, fun _ => ⟨rfl, by decide⟩⟩ .nil
  obtain ⟨hiff, hspelled, -⟩ := decode_sound_iff (show ∀ b ∈ [8, 42], b < 256 by decide)
    (decode_height hvalue)
  exact ⟨hiff, hiff.mp hsound, hspelled hsound⟩

/-! ### Hostile messages -/

def replyHeaders : Headers := [("content-type".toList, "application/grpc-web+proto".toList)]

/-- The trailer of a success. -/
def okTrailer : Frame := ⟨0x80, Utf8.encode "grpc-status: 0\r\n".toList⟩

/-- A success with this message. -/
def heightReply (message : List ℕ) : HttpResponse where
  status := 200
  headers := replyHeaders
  body := some (frame message ++ ([0x80, 0, 0, 0, 16] ++ okTrailer.payload))

theorem succeeds_heightReply {message : List ℕ} (h : message.length < 2 ^ 32) :
    Succeeds (heightReply message) [⟨0, message⟩, okTrailer] ∧
      firstData [⟨0, message⟩, okTrailer] = some message := by
  have hstatus : effective [okTrailer] replyHeaders "grpc-status" = some "0".toList := by decide
  have htype : "application/grpc-web".toList <+: (replyHeaders.get "content-type").getD [] := by
    decide
  have htrailer : Frame.isTrailer ⟨0, message⟩ = false :=
    show (0 &&& 0x80 != 0) = false by decide
  have hdata : firstData [⟨0, message⟩, okTrailer] = some message := by
    rw [firstData, List.find?_cons_of_pos (by rw [htrailer]; rfl)]
    rfl
  -- one message, and the trailer behind it
  have hframes : IsFrames (frame message ++ ([0x80, 0, 0, 0, 16] ++ okTrailer.payload))
      [⟨0, message⟩, okTrailer] := by
    refine ⟨[frame message, [0x80, 0, 0, 0, 16] ++ okTrailer.payload], ?_, .cons (encodes_frame h)
      (.cons ⟨[0, 0, 0, 16], rfl, by decide, rfl⟩ .nil)⟩
    rw [List.flatten_cons, List.flatten_singleton]
  refine ⟨⟨rfl, htype, hframes, ?_, "0".toList, ?_, by decide, by decide⟩, hdata⟩
  · rw [hdata]
    rfl
  · rw [effective, trailers, List.filter_cons_of_neg (by rw [htrailer]; decide)]
    exact hstatus

/-- The digits of `2 ^ 70 - 1`, which is read as `2 ^ 70`. -/
def overlong : List ℕ := List.replicate 9 0xff ++ [0x7f]

/-- Digits without an end. -/
def endless : List ℕ := List.replicate 147 0xff ++ [0x7f]

theorem digits_replicate (k : ℕ) :
    Digits (128 ^ (k + 1) - 1) (List.replicate k 0xff ++ [0x7f]) := by
  induction k with
  | zero => exact .last (by decide)
  | succ k ih =>
    have hmore := Digits.more (b := 127) (by decide) ih
    have hpos : 0 < 128 ^ (k + 1) := Nat.pow_pos (by decide)
    have hvalue : 127 + 128 * (128 ^ (k + 1) - 1) = 128 ^ (k + 1 + 1) - 1 := by
      rw [Nat.pow_succ _ (k + 1)]
      omega
    rwa [hvalue] at hmore

/-- Digits of 127 keep the sum at the weight of the next digit, once it is rounded up to one. -/
theorem readVarintFrom_full {j k : ℕ} (hlt : 7 * (j + k) < 1024) (rest : List ℕ) :
    readVarintFrom (.finite (2 ^ (7 * j))) (.finite (2 ^ (7 * j))) (List.replicate k 0xff ++ rest) =
      readVarintFrom (.finite (2 ^ (7 * (j + k)))) (.finite (2 ^ (7 * (j + k)))) rest := by
  induction k generalizing j with
  | zero => rfl
  | succ k ih =>
    have hcarry : 2 ^ (7 * j) + 127 * 2 ^ (7 * j) = 2 ^ (7 * (j + 1)) := by
      rw [Nat.mul_succ, Nat.pow_add]
      omega
    have hsum : Double.IsDouble (2 ^ (7 * j) + 127 * 2 ^ (7 * j)) := by
      rw [hcarry]
      exact Double.round_two_pow (by omega)
    have hweight : Double.finite (2 ^ (7 * j)) * .finite 128 = .finite (2 ^ (7 * (j + 1))) :=
      Double.mul_two_pow (a := 7 * j) (b := 7) (by omega)
    rw [List.replicate_succ, List.cons_append, show (0xff : ℕ) = 128 + 127 from rfl,
      readVarintFrom_more (by decide), Double.mul_finite (hsum.mul_two_pow (by decide)),
      Double.add_finite hsum, hcarry, hweight, show 128 + 127 = 0xff from rfl, ih (by omega),
      Nat.add_right_comm, Nat.add_assoc]

/-- The sum stays below `2 ^ 1024` for 146 digits, and no longer. -/
theorem reading_endless : reading endless = .infinity := by
  have hround (rest : List ℕ) : readVarint (List.replicate 8 0xff ++ rest) =
      readVarintFrom (.finite (2 ^ (7 * 8))) (.finite (2 ^ (7 * 8))) rest := rfl
  have hsplit : endless =
      List.replicate 8 0xff ++ (List.replicate 138 0xff ++ [0xff, 0x7f]) := rfl
  rw [reading, hsplit, hround, readVarintFrom_full (by decide)]
  decide +kernel

/-- Digits that say zero, the last of them at a weight past all doubles. -/
def weightless : List ℕ := List.replicate 147 0x80 ++ [0]

theorem digits_weightless (k : ℕ) : Digits 0 (List.replicate k 0x80 ++ [0]) := by
  induction k with
  | zero => exact .last (by decide)
  | succ k ih => exact .more (b := 0) (by decide) ih

/-- Zero times infinity. -/
theorem reading_weightless : reading weightless = .nan := by decide +kernel

/-- **A height that is no number** passes for one. -/
theorem getHeight_weightless (provider : DapiProvider) :
    provider.getHeight (fun _ => "") (fun _ => .ok (heightReply (8 :: weightless))) =
      .ok .nan := by
  have hdecode : decode (8 :: weightless) = .ok [(1, .number .nan)] := by
    have hdigits : Digits 0 weightless := digits_weightless 147
    rw [decode_height hdigits, reading_weightless]
  obtain ⟨hsucceeds, hdata⟩ := succeeds_heightReply
    (show (8 :: weightless).length < 2 ^ 32 by decide +kernel)
  exact (getHeight_eq_ok_iff rfl hsucceeds hdata hdecode).mpr ⟨rfl, by decide⟩

/-- **A field that is cut short passes**, and a height can be what no varint of 64 bits says. -/
theorem decode_unsound :
    (decode [9] = .ok [] ∧ ¬∃ pieces, InFull [9] pieces) ∧
      decode (8 :: overlong) = .ok [(1, .number (.finite (2 ^ 70)))] ∧
      decode (8 :: endless) = .ok [(1, .number .infinity)] ∧
      (∀ provider : DapiProvider,
        provider.getHeight (fun _ => "") (fun _ => .ok (heightReply (8 :: overlong))) =
            .ok (.finite (2 ^ 70)) ∧
          provider.getHeight (fun _ => "") (fun _ => .ok (heightReply (8 :: endless))) =
            .ok .infinity) ∧
      ¬∀ buf fields, (∀ b ∈ buf, b < 256) → decode buf = .ok fields → Sound [] buf := by
  have hread : fieldReader.read [9] = .ok (none, []) := rfl
  have hcut : decode [9] = .ok [] :=
    (Reader.fold_read setField hread).trans (Reader.fold_nil setField)
  have hoverlong : decode (8 :: overlong) = .ok [(1, .number (.finite (2 ^ 70)))] := by
    have hreading : reading overlong = .finite (2 ^ 70) := by decide +kernel
    have hdigits : Digits _ overlong := digits_replicate 9
    rw [decode_height hdigits, hreading]
  have hendless : decode (8 :: endless) = .ok [(1, .number .infinity)] := by
    have hdigits : Digits _ endless := digits_replicate 147
    rw [decode_height hdigits, reading_endless]
  have hnine : Digits (1 * 8 + 1) [9] := .last (by decide)
  refine ⟨⟨hcut, ?_⟩, hoverlong, hendless, fun provider => ⟨?_, ?_⟩, fun hall => ?_⟩
  · rintro ⟨pieces, hpieces, hcomplete⟩
    cases pieces with
    | nil => cases hpieces
    | cons piece pieces =>
      obtain ⟨f, key, payload⟩ := piece
      obtain ⟨hkey, hpayload⟩ := hcomplete _ List.mem_cons_self
      rw [List.map_cons, List.flatten_cons, List.append_assoc] at hpieces
      -- the key is all there is, and eight bytes are to follow
      rw [← List.append_nil [9]] at hpieces
      obtain ⟨htype, -, hrest⟩ := hnine.unique hkey hpieces
      obtain ⟨rfl, -⟩ := List.append_eq_nil_iff.mp hrest.symm
      dsimp only at hpayload htype
      have hlt := f.wireType_lt
      cases hpayload.length_eq.1 (by omega)
  · obtain ⟨hsucceeds, hdata⟩ := succeeds_heightReply
      (show (8 :: overlong).length < 2 ^ 32 by decide)
    exact (getHeight_eq_ok_iff rfl hsucceeds hdata hoverlong).mpr ⟨rfl, by decide⟩
  · obtain ⟨hsucceeds, hdata⟩ := succeeds_heightReply
      (show (8 :: endless).length < 2 ^ 32 by decide +kernel)
    exact (getHeight_eq_ok_iff rfl hsucceeds hdata hendless).mpr ⟨rfl, by decide⟩
  · refine not_hostile_of_sound (hall [9] [] (by decide) hcut) (by decide) ?_
    have hhostile : Hostile [] ([9] ++ []) := .fixed64 hnine (by decide)
    exact hhostile

end DashFaucet.Dapi

import Mathlib.Data.BitVec
import Mathlib.Data.List.Basic

/-!
# 32-bit operators on numbers

A number of the language that is an integer goes through its 32-bit operators as two's complement:
`^`, `<<` and `Math.imul` read their result back as signed, `>>>` as unsigned.

* `Word.bits`: the bits an operator sees of an integer, with one lemma for each operator.
* `Word.unsigned`: the `>>> 0` that makes a result the natural number its bits spell.
* `toString16`, `hexDigits`: what a number is written as in hexadecimal, and its digits by position.
  `leftpad_toString16` says that padding with zeros gives the digits.
-/

namespace Word

/-- The 32 bits of an integer. -/
def bits (n : ℤ) : BitVec 32 := BitVec.ofInt 32 n

/-- `a ^ b`. -/
def xor (a b : ℤ) : ℤ := (bits a ^^^ bits b).toInt

/-- `a << k`: only the low five bits of the count are used. -/
def shiftLeft (a : ℤ) (k : ℕ) : ℤ := (bits a <<< (k % 32)).toInt

/-- `a >>> k`. -/
def unsignedShiftRight (a : ℤ) (k : ℕ) : ℤ := (bits a >>> (k % 32)).toNat

/-- `Math.imul(a, b)`. -/
def imul (a b : ℤ) : ℤ := (bits a * bits b).toInt

/-- `a >>> 0`. -/
def unsigned (a : ℤ) : ℤ := unsignedShiftRight a 0

@[simp] theorem bits_natCast (n : ℕ) : bits n = BitVec.ofNat 32 n := BitVec.ofInt_natCast 32 n

@[simp] theorem bits_xor (a b : ℤ) : bits (xor a b) = bits a ^^^ bits b := BitVec.ofInt_toInt

@[simp] theorem bits_shiftLeft (a : ℤ) (k : ℕ) : bits (shiftLeft a k) = bits a <<< (k % 32) :=
  BitVec.ofInt_toInt

@[simp] theorem bits_unsignedShiftRight (a : ℤ) (k : ℕ) :
    bits (unsignedShiftRight a k) = bits a >>> (k % 32) := by
  rw [unsignedShiftRight, bits_natCast, BitVec.ofNat_toNat, BitVec.setWidth_eq]

@[simp] theorem bits_imul (a b : ℤ) : bits (imul a b) = bits a * bits b := BitVec.ofInt_toInt

/-- A word read back from the number that spells it. -/
@[simp] theorem bits_toNat (w : BitVec 32) : bits (w.toNat : ℤ) = w := by
  rw [bits_natCast, BitVec.ofNat_toNat, BitVec.setWidth_eq]

theorem unsigned_eq (a : ℤ) : unsigned a = ((bits a).toNat : ℤ) := by
  rw [unsigned, unsignedShiftRight, Nat.zero_mod, BitVec.ushiftRight_zero]

end Word

/-- `n.toString(16)`: a negative number has a sign in front. -/
def toString16 : ℤ → List Char
  | .ofNat n => Nat.toDigits 16 n
  | .negSucc n => '-' :: Nat.toDigits 16 (n + 1)

/-- The last `k` hexadecimal digits of a natural number. -/
def hexDigits : ℕ → ℕ → List Char
  | 0, _ => []
  | k + 1, n => hexDigits k (n / 16) ++ [Nat.digitChar (n % 16)]

@[simp] theorem length_hexDigits (k n : ℕ) : (hexDigits k n).length = k := by
  induction k generalizing n with
  | zero => rfl
  | succ k ih => rw [hexDigits, List.length_append, ih, List.length_singleton]

theorem digitChar_mem : ∀ n < 16, Nat.digitChar n ∈ "0123456789abcdef".toList := by decide

theorem hexDigits_mem {k n : ℕ} {c : Char} (h : c ∈ hexDigits k n) :
    c ∈ "0123456789abcdef".toList := by
  induction k generalizing n with
  | zero => exact absurd h List.not_mem_nil
  | succ k ih =>
    rw [hexDigits, List.mem_append, List.mem_singleton] at h
    obtain h | rfl := h
    · exact ih h
    · exact digitChar_mem _ (Nat.mod_lt _ (by decide))

theorem hexDigits_zero (k : ℕ) : hexDigits k 0 = List.replicate k '0' := by
  induction k with
  | zero => rfl
  | succ k ih => rw [hexDigits, Nat.zero_div, ih, List.replicate_succ']; rfl

/-- **Padding with zeros gives the digits** of a number that has no more than asked for. -/
theorem leftpad_toString16 {k n : ℕ} (hk : 0 < k) (hn : n < 16 ^ k) :
    (toString16 n).leftpad k '0' = hexDigits k n := by
  show (Nat.toDigits 16 n).leftpad k '0' = hexDigits k n
  induction k generalizing n with
  | zero => exact absurd hk (lt_irrefl 0)
  | succ k ih =>
    rcases Nat.lt_or_ge n 16 with hsmall | hlarge
    · -- one digit, and zeros for the rest
      rw [Nat.toDigits_of_lt_base hsmall, hexDigits, Nat.div_eq_of_lt hsmall, hexDigits_zero,
        Nat.mod_eq_of_lt hsmall]
      rfl
    · have hquotient : n / 16 < 16 ^ k := by
        rw [Nat.div_lt_iff_lt_mul (by decide)]
        exact hn
      have hk' : 0 < k := by
        refine Nat.pos_of_ne_zero fun hzero => ?_
        rw [hzero] at hn
        omega
      rw [Nat.toDigits_of_base_le (by decide) hlarge, hexDigits, ← ih hk' hquotient]
      simp only [List.leftpad, List.length_append, List.length_singleton, Nat.add_sub_add_right,
        List.append_assoc]

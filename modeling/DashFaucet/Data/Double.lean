import Mathlib.Algebra.GroupWithZero.Nat
import Mathlib.Data.Nat.Log
import Mathlib.Tactic.Common

/-!
# Doubles that count

IEEE 754 doubles as far as programs count with them: no fractions, nothing negative. Below `2 ^ 53`
they are the naturals, and above it some naturals are missing.

* `Double.round`: the nearest double to a natural number.
* `Double.add`, `Double.mul`: the rounded sum and product.
* `isDouble_iff`, `isDouble_of_round`: the numbers that are doubles, which are what is rounded.
* `IsDouble.mod`, `two_pow_le_of_round`: the low digits of a double are one, and nothing is rounded
  across a power of two.
* `add_finite`, `mul_finite`: exact as long as the result is a double.
* `mul_two_pow`: powers of two are there far beyond it.
-/

/-- A double that is neither negative nor a fraction, or that is no number. -/
inductive Double where
  | finite (n : ℕ)
  | infinity
  | nan
  deriving DecidableEq, Repr

namespace Double

/-- The distance of the doubles around `n`. -/
def unit (n : ℕ) : ℕ := 2 ^ (n.log2 - 52)

/-- How many units are nearest to `n`: of two equally near numbers, the even one. -/
def significand (n : ℕ) : ℕ :=
  let below := n / unit n
  let rest := n % unit n
  if unit n < 2 * rest ∨ (2 * rest = unit n ∧ below % 2 = 1) then below + 1 else below

/-- The nearest double. -/
def round (n : ℕ) : Double :=
  if n < 2 ^ 53 then .finite n
  else if (significand n * unit n).log2 < 1024 then .finite (significand n * unit n)
  else .infinity

/-- There is a double for this number. -/
def IsDouble (n : ℕ) : Prop := round n = .finite n

instance (n : ℕ) : Decidable (IsDouble n) := instDecidableEqDouble _ _

def add : Double → Double → Double
  | .finite a, .finite b => round (a + b)
  | .nan, _ => .nan
  | _, .nan => .nan
  | _, _ => .infinity

def mul : Double → Double → Double
  | .finite a, .finite b => round (a * b)
  | .nan, _ => .nan
  | _, .nan => .nan
  | .finite 0, .infinity => .nan
  | .infinity, .finite 0 => .nan
  | _, _ => .infinity

instance : Add Double := ⟨add⟩

instance : Mul Double := ⟨mul⟩

variable {a b m n k : ℕ}

theorem round_of_lt (h : n < 2 ^ 53) : round n = .finite n := if_pos h

theorem unit_pos : 0 < unit n := Nat.two_pow_pos _

/-- What is a number of units is that number of units. -/
theorem significand_of_dvd (h : unit n ∣ n) : significand n = n / unit n := by
  have hpos : 0 < unit n := unit_pos
  rw [significand, Nat.mod_eq_zero_of_dvd h]
  exact if_neg (by omega)

theorem isDouble_of_lt (h : n < 2 ^ 53) : IsDouble n := round_of_lt h

theorem log2_le_log2 (h : m ≤ n) : m.log2 ≤ n.log2 := by
  rw [Nat.log2_eq_log_two, Nat.log2_eq_log_two]
  exact Nat.log_mono_right h

/-- The doubles are more apart where they are greater. -/
theorem unit_dvd_unit (h : m ≤ n) : unit m ∣ unit n :=
  Nat.pow_dvd_pow 2 (Nat.sub_le_sub_right (log2_le_log2 h) 52)

theorem unit_of_lt (h : n < 2 ^ 53) : unit n = 1 := by
  rcases Nat.eq_zero_or_pos n with rfl | hpos
  · rfl
  · have hlog : n.log2 < 53 := (Nat.log2_lt (Nat.ne_of_gt hpos)).mpr h
    rw [unit, Nat.sub_eq_zero_of_le (Nat.le_of_lt_succ hlog), Nat.pow_zero]

/-- **The doubles** are what is a number of units, and not too great. -/
theorem isDouble_iff : IsDouble n ↔ unit n ∣ n ∧ n.log2 < 1024 := by
  rw [IsDouble, round]
  by_cases hlt : n < 2 ^ 53
  · rw [if_pos hlt, unit_of_lt hlt]
    refine iff_of_true rfl ⟨Nat.one_dvd n, ?_⟩
    rcases Nat.eq_zero_or_pos n with rfl | hpos
    · decide
    · exact ((Nat.log2_lt (Nat.ne_of_gt hpos)).mpr hlt).trans (by decide)
  · rw [if_neg hlt]
    constructor
    · intro h
      split at h
      next hlog =>
        have heq := Double.finite.inj h
        rw [heq] at hlog
        exact ⟨⟨_, heq.symm.trans (Nat.mul_comm _ _)⟩, hlog⟩
      · cases h
    · rintro ⟨hdvd, hlog⟩
      rw [significand_of_dvd hdvd, Nat.div_mul_cancel hdvd, if_pos hlog]

/-- Few digits and then zeros are a double. -/
theorem isDouble_mul_two_pow (ha : a < 2 ^ 53) (h : (a * 2 ^ k).log2 < 1024) :
    IsDouble (a * 2 ^ k) := by
  rcases Nat.eq_zero_or_pos a with rfl | hpos
  · rw [Nat.zero_mul]
    rfl
  have hne : a * 2 ^ k ≠ 0 := Nat.mul_ne_zero (Nat.ne_of_gt hpos) (Nat.ne_of_gt (Nat.two_pow_pos k))
  refine isDouble_iff.mpr ⟨?_, h⟩
  have hlog : (a * 2 ^ k).log2 < 53 + k := by
    rw [Nat.log2_lt hne, Nat.pow_add]
    exact Nat.mul_lt_mul_of_pos_right ha (Nat.two_pow_pos k)
  exact Nat.dvd_trans (Nat.pow_dvd_pow 2 (show (a * 2 ^ k).log2 - 52 ≤ k by omega))
    (Nat.dvd_mul_left _ _)

theorem isDouble_of_dvd (hlt : n < 2 ^ (53 + k)) (hdvd : 2 ^ k ∣ n) (hk : 53 + k ≤ 1024) :
    IsDouble n := by
  obtain ⟨a, rfl⟩ := hdvd
  rw [Nat.mul_comm] at hlt ⊢
  have ha : a < 2 ^ 53 := by
    rw [Nat.pow_add] at hlt
    exact Nat.lt_of_mul_lt_mul_right hlt
  refine isDouble_mul_two_pow ha ?_
  rcases Nat.eq_zero_or_pos (a * 2 ^ k) with hzero | hpos
  · rw [hzero]
    decide
  · exact ((Nat.log2_lt (Nat.ne_of_gt hpos)).mpr hlt).trans_le hk

/-- What a double is put together from, with its weight. -/
theorem IsDouble.mul_two_pow (h : IsDouble (m + a * 2 ^ k)) (ha : a < 2 ^ 53) :
    IsDouble (a * 2 ^ k) :=
  isDouble_mul_two_pow ha
    ((log2_le_log2 (Nat.le_add_left _ _)).trans_lt (isDouble_iff.mp h).2)

/-- The low digits of a double are one. -/
theorem IsDouble.mod (h : IsDouble n) (k : ℕ) : IsDouble (n % 2 ^ k) := by
  obtain ⟨hdvd, hlog⟩ := isDouble_iff.mp h
  have hle : n % 2 ^ k ≤ n := Nat.mod_le _ _
  refine isDouble_iff.mpr ⟨?_, (log2_le_log2 hle).trans_lt hlog⟩
  rcases Nat.le_total (n.log2 - 52) k with hk | hk
  · -- the unit divides the power too
    have hpow : unit n ∣ 2 ^ k := Nat.pow_dvd_pow 2 hk
    exact Nat.dvd_trans (unit_dvd_unit hle) ((Nat.dvd_mod_iff hpow).mpr hdvd)
  · rw [Nat.mod_eq_zero_of_dvd (Nat.dvd_trans (Nat.pow_dvd_pow 2 hk) hdvd)]
    exact Nat.dvd_zero _

theorem significand_le (n : ℕ) : significand n ≤ 2 ^ 53 := by
  have hlt : n / unit n < 2 ^ 53 := by
    rw [Nat.div_lt_iff_lt_mul unit_pos, unit, ← Nat.pow_add]
    exact Nat.lt_log2_self.trans_le (Nat.pow_le_pow_right Nat.two_pos (by omega))
  rw [significand]
  split
  · exact hlt
  · exact Nat.le_of_lt hlt

theorem div_unit_le_significand (n : ℕ) : n / unit n ≤ significand n := by
  rw [significand]
  split
  · exact Nat.le_succ _
  · exact le_rfl

/-- **What is rounded is a double.** -/
theorem isDouble_of_round (h : round n = .finite m) : IsDouble m := by
  rw [round] at h
  split at h
  next hlt =>
    cases h
    exact isDouble_of_lt hlt
  · split at h
    next hlog =>
      cases h
      rcases Nat.lt_or_eq_of_le (significand_le n) with hs | hs
      · exact isDouble_mul_two_pow hs hlog
      · -- rounded up to a power of two
        have hpow : significand n * unit n = 1 * 2 ^ (53 + (n.log2 - 52)) := by
          rw [hs, unit, Nat.pow_add, Nat.one_mul]
        rw [hpow] at hlog ⊢
        exact isDouble_mul_two_pow (by decide) hlog
    · cases h

/-- Nothing is rounded across a power of two. -/
theorem two_pow_le_of_round (h : round n = .finite m) (hle : 2 ^ k ≤ n) : 2 ^ k ≤ m := by
  rw [round] at h
  split at h
  · cases h
    exact hle
  · split at h
    · cases h
      have hn : n ≠ 0 := Nat.ne_of_gt (Nat.lt_of_lt_of_le (Nat.two_pow_pos k) hle)
      have hk : k ≤ n.log2 := (Nat.le_log2 hn).mpr hle
      have hpow : 2 ^ (n.log2 - (n.log2 - 52)) ≤ n / unit n := by
        rw [unit, Nat.le_div_iff_mul_le (Nat.two_pow_pos _), ← Nat.pow_add,
          Nat.sub_add_cancel (Nat.sub_le _ _)]
        exact Nat.log2_self_le hn
      calc 2 ^ k ≤ 2 ^ n.log2 := Nat.pow_le_pow_right Nat.two_pos hk
        _ = 2 ^ (n.log2 - (n.log2 - 52)) * unit n := by
          rw [unit, ← Nat.pow_add, Nat.sub_add_cancel (Nat.sub_le _ _)]
        _ ≤ significand n * unit n :=
          Nat.mul_le_mul_right _ (hpow.trans (div_unit_le_significand n))
    · cases h

/-- A great double is a multiple of a power of two. -/
theorem IsDouble.two_pow_dvd (h : IsDouble n) (hle : 2 ^ k ≤ n) : 2 ^ (k - 52) ∣ n := by
  have hn : n ≠ 0 := Nat.ne_of_gt (Nat.lt_of_lt_of_le (Nat.two_pow_pos k) hle)
  have hk : k ≤ n.log2 := (Nat.le_log2 hn).mpr hle
  exact Nat.dvd_trans (Nat.pow_dvd_pow 2 (Nat.sub_le_sub_right hk 52)) (isDouble_iff.mp h).1

/-- Powers of two are doubles. -/
theorem round_two_pow (h : k < 1024) : round (2 ^ k) = .finite (2 ^ k) := by
  refine isDouble_iff.mpr ⟨?_, by rwa [Nat.log2_two_pow]⟩
  rw [unit, Nat.log2_two_pow]
  exact Nat.pow_dvd_pow 2 (Nat.sub_le _ _)

/-- Only zero rounds to zero. -/
theorem round_eq_zero : round n = .finite 0 ↔ n = 0 := by
  constructor
  · intro h
    by_contra hn
    have hone : 2 ^ 0 ≤ 0 := two_pow_le_of_round h (Nat.pos_of_ne_zero hn)
    exact absurd hone (by decide)
  · rintro rfl
    rfl

/-- Powers of two are doubles no further than that. -/
theorem lt_of_round_two_pow (h : round (2 ^ k) = .finite m) : k < 1024 := by
  have hle : 2 ^ k ≤ m := two_pow_le_of_round h le_rfl
  have hm : m ≠ 0 := Nat.ne_of_gt (Nat.lt_of_lt_of_le (Nat.two_pow_pos k) hle)
  exact ((Nat.le_log2 hm).mpr hle).trans_lt (isDouble_iff.mp (isDouble_of_round h)).2

/-- A sum is finite only if what is added is. -/
theorem add_eq_finite {x y : Double} (h : x + y = .finite n) :
    ∃ a b, x = .finite a ∧ y = .finite b ∧ round (a + b) = .finite n := by
  cases x <;> cases y <;> first | exact ⟨_, _, rfl, rfl, h⟩ | cases h

/-- A product is finite only if what is multiplied is. -/
theorem mul_eq_finite {x y : Double} (h : x * y = .finite n) :
    ∃ a b, x = .finite a ∧ y = .finite b ∧ round (a * b) = .finite n := by
  cases x with
  | finite a =>
    cases y with
    | finite b => exact ⟨a, b, rfl, rfl, h⟩
    | infinity => cases a <;> cases h
    | nan => cases h
  | infinity =>
    cases y with
    | finite b => cases b <;> cases h
    | infinity => cases h
    | nan => cases h
  | nan => cases y <;> cases h

theorem add_finite (h : IsDouble (a + b)) : finite a + finite b = finite (a + b) := h

theorem mul_finite (h : IsDouble (a * b)) : finite a * finite b = finite (a * b) := h

theorem mul_two_pow (h : a + b < 1024) :
    finite (2 ^ a) * finite (2 ^ b) = finite (2 ^ (a + b)) := by
  show round (2 ^ a * 2 ^ b) = _
  rw [← Nat.pow_add, round_two_pow h]

end Double

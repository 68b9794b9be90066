import Mathlib.Data.Int.Log
import Mathlib.Data.Rat.Floor
import Mathlib.Tactic.Linarith
import Mathlib.Tactic.NormNum
import Mathlib.Tactic.Positivity
import Mathlib.Tactic.Ring

/-!
# Rounding to doubles

IEEE 754 doubles as the rationals they are, with their rounding: to the nearest, and of two equally
near to the even one. Nothing overflows here: a number past the greatest double rounds as if there
were doubles beyond.

* `nearest`: the nearest integer. `place`: the exponent of the last place around a number.
* `fl`: the nearest double.
* `abs_fl_sub_le`: how far that is.
* `fl_of_isDouble`, `fl_intCast`: doubles are not moved, and integers below `2 ^ 53` are doubles.
* `fl_mono`: rounding keeps the order.
-/

namespace Binary64

/-- The nearest integer, of two the even one. -/
def nearest (x : ℚ) : ℤ :=
  let rest := x - ⌊x⌋
  if 1 / 2 < rest ∨ (rest = 1 / 2 ∧ ⌊x⌋ % 2 = 1) then ⌊x⌋ + 1 else ⌊x⌋

/-- The exponent of the last place of the doubles around `x`. -/
def place (x : ℚ) : ℤ := max (Int.log 2 |x| - 52) (-1074)

/-- The nearest double. -/
def fl (x : ℚ) : ℚ := nearest (x / 2 ^ place x) * 2 ^ place x

/-- A number of 53 digits, scaled. -/
def IsDouble (x : ℚ) : Prop := ∃ m e : ℤ, |m| < 2 ^ 53 ∧ -1074 ≤ e ∧ x = m * 2 ^ e

/-- Half of the least double. -/
def underflow : ℚ := 2 ^ (-1075 : ℤ)

variable {x : ℚ}

theorem abs_nearest_sub (x : ℚ) : |(nearest x : ℚ) - x| ≤ 1 / 2 := by
  have hlow := Int.floor_le x
  have hhigh := Int.lt_floor_add_one x
  unfold nearest
  dsimp only
  rw [abs_le]
  -- up past the half, down before it
  split
  · next h =>
    have hhalf : 1 / 2 ≤ x - ⌊x⌋ := h.elim le_of_lt fun h => h.1.ge
    push_cast
    constructor <;> linarith
  · next h =>
    have hhalf : x - ⌊x⌋ ≤ 1 / 2 := not_lt.mp (not_or.mp h).1
    constructor <;> linarith

theorem nearest_intCast (n : ℤ) : nearest (n : ℚ) = n := by
  simp [nearest]

theorem two_zpow_pos (e : ℤ) : (0 : ℚ) < 2 ^ e := zpow_pos two_pos e

/-- Rounding moves a number by half of its last place at most. -/
theorem abs_fl_sub (x : ℚ) : |fl x - x| ≤ 2 ^ place x / 2 := by
  have hpos := two_zpow_pos (place x)
  have hscale : fl x - x = (nearest (x / 2 ^ place x) - x / 2 ^ place x) * 2 ^ place x := by
    rw [fl, sub_mul, div_mul_cancel₀ x hpos.ne']
  calc |fl x - x| = |(nearest (x / 2 ^ place x) : ℚ) - x / 2 ^ place x| * 2 ^ place x := by
        rw [hscale, abs_mul, abs_of_pos hpos]
    _ ≤ 1 / 2 * 2 ^ place x := mul_le_mul_of_nonneg_right (abs_nearest_sub _) hpos.le
    _ = 2 ^ place x / 2 := by ring

theorem fl_zero : fl 0 = 0 := by
  simp [fl, nearest]

/-- **The error of one rounding**: a part in `2 ^ 53`, or what is lost below the least double. -/
theorem abs_fl_sub_le (x : ℚ) : |fl x - x| ≤ |x| / 2 ^ 53 + underflow := by
  have hunder : (0 : ℚ) ≤ underflow := (two_zpow_pos _).le
  by_cases hx : x = 0
  · rw [hx, fl_zero]
    simpa using hunder
  have habs : 0 < |x| := abs_pos.mpr hx
  have hlog : (2 : ℚ) ^ Int.log 2 |x| ≤ |x| := Int.zpow_log_le_self one_lt_two habs
  -- half a place, which is relative above the least normal number and absolute below it
  have hplace : (2 : ℚ) ^ place x / 2 ≤ |x| / 2 ^ 53 + underflow := by
    unfold place
    rcases max_choice (Int.log 2 |x| - 52) (-1074) with h | h
    · have hsplit : (2 : ℚ) ^ (Int.log 2 |x| - 52) / 2 = 2 ^ Int.log 2 |x| / 2 ^ 53 := by
        rw [zpow_sub₀ two_ne_zero]
        norm_num
        ring
      rw [h, hsplit]
      have := div_le_div_of_nonneg_right hlog (by positivity : (0 : ℚ) ≤ 2 ^ 53)
      linarith
    · have hhalf : (2 : ℚ) ^ (-1074 : ℤ) / 2 = underflow := by
        rw [underflow, show (-1075 : ℤ) = -1074 - 1 by norm_num, zpow_sub_one₀ two_ne_zero]
        rfl
      rw [h, hhalf]
      have : (0 : ℚ) ≤ |x| / 2 ^ 53 := by positivity
      linarith
  exact (abs_fl_sub x).trans hplace

theorem underflow_le : underflow ≤ 1 / 2 ^ 100 := by
  have h : (2 : ℚ) ^ (-1075 : ℤ) ≤ 2 ^ (-100 : ℤ) :=
    zpow_le_zpow_right₀ one_le_two (by norm_num)
  rw [underflow]
  refine h.trans_eq ?_
  rw [zpow_neg, one_div]
  rfl

/-- The last place of a number is one of its own digits. -/
theorem place_le {m e : ℤ} (hm : |m| < 2 ^ 53) (he : -1074 ≤ e) (hx : x = m * 2 ^ e)
    (hne : x ≠ 0) : place x ≤ e := by
  have habs : |x| = |(m : ℚ)| * 2 ^ e := by rw [hx, abs_mul, abs_of_pos (two_zpow_pos e)]
  have hlt : |x| < 2 ^ (53 + e) := by
    rw [habs, zpow_add₀ two_ne_zero]
    refine mul_lt_mul_of_pos_right ?_ (two_zpow_pos e)
    have hcast : ((|m| : ℤ) : ℚ) < ((2 ^ 53 : ℤ) : ℚ) := Int.cast_lt.mpr hm
    rw [Int.cast_abs] at hcast
    refine hcast.trans_eq ?_
    norm_num
  have hlog : Int.log 2 |x| < 53 + e :=
    (Int.lt_zpow_iff_log_lt one_lt_two (abs_pos.mpr hne)).mp (by exact_mod_cast hlt)
  exact max_le (by omega) he

/-- A number of greater units is a number of smaller ones. -/
theorem div_two_zpow {m k p : ℤ} (h : p ≤ k) :
    (m * 2 ^ k : ℚ) / 2 ^ p = ((m * 2 ^ (k - p).toNat : ℤ) : ℚ) := by
  push_cast
  rw [← zpow_natCast, Int.toNat_of_nonneg (by omega), zpow_sub₀ two_ne_zero, ← mul_div_assoc]

/-- **Doubles stay where they are.** -/
theorem fl_of_isDouble (h : IsDouble x) : fl x = x := by
  obtain ⟨m, e, hm, he, hx⟩ := h
  by_cases hne : x = 0
  · rw [hne, fl_zero]
  -- in units of the last place it is an integer
  have hint := div_two_zpow (m := m) (place_le hm he hx hne)
  rw [← hx] at hint
  rw [fl, hint, nearest_intCast, ← hint, div_mul_cancel₀ x (two_zpow_pos _).ne']

/-- Integers of 53 digits are doubles. -/
theorem fl_intCast {n : ℤ} (h : |n| < 2 ^ 53) : fl n = n :=
  fl_of_isDouble ⟨n, 0, h, by norm_num, by simp⟩

/-! ### Order -/

theorem nearest_mono {x y : ℚ} (h : x ≤ y) : nearest x ≤ nearest y := by
  have hup : ∀ z, nearest z ≤ ⌊z⌋ + 1 := fun z => by
    unfold nearest
    dsimp only
    split <;> omega
  have hdown : ∀ z, ⌊z⌋ ≤ nearest z := fun z => by
    unfold nearest
    dsimp only
    split <;> omega
  -- with an integer between them, rounding does not cross it
  rcases (Int.floor_le_floor h).lt_or_eq with hlt | heq
  · have hx := hup x
    have hy := hdown y
    omega
  · -- between the same integers, and what is past the half stays so
    unfold nearest
    dsimp only
    rw [heq]
    split
    · next hx =>
      have hy : 1 / 2 < y - ⌊y⌋ ∨ (y - ⌊y⌋ = 1 / 2 ∧ ⌊y⌋ % 2 = 1) := by
        rcases hx with hx | ⟨hx, hodd⟩
        · exact .inl (by linarith)
        · rcases h.lt_or_eq with hlt | rfl
          · exact .inl (by linarith)
          · exact .inr ⟨hx, hodd⟩
      rw [if_pos hy]
    · split <;> omega

/-- A number of places is not crossed from below, -/
theorem fl_le_of_le {m k : ℤ} (hk : place x ≤ k) (h : x ≤ m * 2 ^ k) : fl x ≤ m * 2 ^ k := by
  have hpos := two_zpow_pos (place x)
  have hint := div_two_zpow (m := m) hk
  have hmono := nearest_mono (div_le_div_of_nonneg_right h hpos.le)
  rw [hint, nearest_intCast] at hmono
  calc fl x ≤ ((m * 2 ^ (k - place x).toNat : ℤ) : ℚ) * 2 ^ place x :=
        mul_le_mul_of_nonneg_right (Int.cast_le.mpr hmono) hpos.le
    _ = m * 2 ^ k := by rw [← hint, div_mul_cancel₀ _ hpos.ne']

/-- nor from above. -/
theorem le_fl_of_le {m k : ℤ} (hk : place x ≤ k) (h : m * 2 ^ k ≤ x) : m * 2 ^ k ≤ fl x := by
  have hpos := two_zpow_pos (place x)
  have hint := div_two_zpow (m := m) hk
  have hmono := nearest_mono (div_le_div_of_nonneg_right h hpos.le)
  rw [hint, nearest_intCast] at hmono
  calc (m * 2 ^ k : ℚ) = ((m * 2 ^ (k - place x).toNat : ℤ) : ℚ) * 2 ^ place x := by
        rw [← hint, div_mul_cancel₀ _ hpos.ne']
    _ ≤ fl x := mul_le_mul_of_nonneg_right (Int.cast_le.mpr hmono) hpos.le

/-- Where the last places differ, a power of two lies between the numbers. -/
theorem exists_two_pow_between {x y : ℚ} (hx : x ≠ 0) (hy : y ≠ 0) (h : place x < place y) :
    ∃ k, place y ≤ k ∧ |x| < 2 ^ k ∧ 2 ^ k ≤ |y| := by
  unfold place at h
  refine ⟨Int.log 2 |y|, ?_, ?_, Int.zpow_log_le_self one_lt_two (abs_pos.mpr hy)⟩
  · unfold place
    omega
  · exact (Int.lt_zpow_iff_log_lt one_lt_two (abs_pos.mpr hx)).mpr (by omega)

/-- Rounding keeps the sign. -/
theorem fl_nonneg (h : 0 ≤ x) : 0 ≤ fl x := by
  have hzero := le_fl_of_le (x := x) (m := 0) le_rfl (by simpa using h)
  simpa using hzero

theorem fl_nonpos (h : x ≤ 0) : fl x ≤ 0 := by
  have hzero := fl_le_of_le (x := x) (m := 0) le_rfl (by simpa using h)
  simpa using hzero

theorem place_mono {x y : ℚ} (hx : x ≠ 0) (h : |x| ≤ |y|) : place x ≤ place y :=
  max_le_max_right _ (Int.sub_le_sub_right (Int.log_mono_right (abs_pos.mpr hx) h) _)

/-- **Rounding keeps the order.** -/
theorem fl_mono {x y : ℚ} (h : x ≤ y) : fl x ≤ fl y := by
  -- at one place it is a matter of the nearest integers
  have hsame : place x = place y → fl x ≤ fl y := by
    intro hplace
    rw [fl, fl, hplace]
    have hpos := two_zpow_pos (place y)
    exact mul_le_mul_of_nonneg_right
      (Int.cast_le.mpr (nearest_mono (div_le_div_of_nonneg_right h hpos.le))) hpos.le
  rcases le_or_gt x 0 with hx | hx
  · rcases le_or_gt 0 y with hy | hy
    · exact (fl_nonpos hx).trans (fl_nonneg hy)
    · -- both negative: where the places differ, minus a power of two is between
      have hx : x < 0 := lt_of_le_of_lt h hy
      have habs : |y| ≤ |x| := abs_le_abs_of_nonpos hy.le h
      rcases (place_mono hy.ne habs).lt_or_eq with hplace | hplace
      · obtain ⟨k, hk, hlow, hhigh⟩ := exists_two_pow_between hy.ne hx.ne hplace
        rw [abs_of_neg hy] at hlow
        rw [abs_of_neg hx] at hhigh
        have hup : fl x ≤ (-1 : ℤ) * 2 ^ k := fl_le_of_le hk (by push_cast; linarith)
        have hdown : (-1 : ℤ) * 2 ^ k ≤ fl y :=
          le_fl_of_le (hplace.le.trans hk) (by push_cast; linarith)
        exact hup.trans hdown
      · exact hsame hplace.symm
  · -- both positive
    have hy : 0 < y := hx.trans_le h
    have habs : |x| ≤ |y| := by rwa [abs_of_pos hx, abs_of_pos hy]
    rcases (place_mono hx.ne' habs).lt_or_eq with hplace | hplace
    · obtain ⟨k, hk, hlow, hhigh⟩ := exists_two_pow_between hx.ne' hy.ne' hplace
      rw [abs_of_pos hx] at hlow
      rw [abs_of_pos hy] at hhigh
      have hup : fl x ≤ (1 : ℤ) * 2 ^ k :=
        fl_le_of_le (hplace.le.trans hk) (by push_cast; linarith)
      have hdown : (1 : ℤ) * 2 ^ k ≤ fl y := le_fl_of_le hk (by push_cast; linarith)
      exact hup.trans hdown
    · exact hsame hplace

end Binary64

import DashFaucet.Data.Binary64
import DashFaucet.Data.Json

/-!
# Amounts in DASH

Amounts cross the interface as JSON numbers of DASH and are kept as whole duffs (`parseAmountSats`
in `apikeys.ts`, `toDash` in `config.ts`, and what `insight.ts` makes of an `amount`). The numbers
are doubles, so hardly an amount is written exactly.

* `toDash`, `inDuffs`, `parseAmountSats`: the conversions.
* `abs_product_sub_le`: how far the product of two rounded factors is from the exact one.
* `inDuffs_toDash`: every amount there can be is read back.
* `parseAmountSats_toDash`, `parseAmountSats_sound`: what a request may say, and what it then means.
* `amounts_survive`: all of it.
-/

namespace DashFaucet

open Binary64

def coinDuffs : ℚ := 100000000

def toDash (satoshis : ℕ) : ℚ := fl (satoshis / coinDuffs)

/-- An amount in DASH as a value of the interface. -/
def dash (satoshis : ℕ) : Number := ((toDash satoshis : ℚ) : WithTop ℚ)

/-- `Math.round(amount * COIN)`: halves go up. -/
def inDuffs (amount : ℚ) : ℤ := ⌊fl (amount * coinDuffs) + 1 / 2⌋

def minPayoutSats : ℤ := 100000

/-- `amount` in DASH as whole duffs, or undefined when it is not a usable amount: no number, not
finite, not safe as an integer, below the floor, or finer than a duff. -/
def parseAmountSats (value : Json) : Option ℕ :=
  match value with
  | .num (some (some amount)) =>
    let sats := inDuffs amount
    if |sats| ≤ 2 ^ 53 - 1 ∧ minPayoutSats ≤ sats ∧
        |fl (fl (amount * coinDuffs) - sats)| ≤ fl (1 / 1000) then
      some sats.toNat
    else none
  | _ => none

/-! ### Errors -/

variable {q x : ℚ} {n : ℕ}

/-- A duff from DASH and back: two roundings. -/
theorem abs_product_sub_le (n : ℕ) :
    |fl (toDash n * coinDuffs) - n| ≤ n / 2 ^ 52 + n / 2 ^ 106 + 1 / 2 ^ 70 := by
  have hn : (0 : ℚ) ≤ n := Nat.cast_nonneg n
  have hunder := underflow_le
  have hcoin : coinDuffs = 100000000 := rfl
  -- the quotient is rounded, and then its product with the coin
  have hquot := abs_fl_sub_le (n / coinDuffs)
  have hprod := abs_fl_sub_le (toDash n * coinDuffs)
  have hexact : |toDash n * coinDuffs - n| ≤ n / 2 ^ 53 + coinDuffs * underflow := by
    have heq : toDash n * coinDuffs - n = (toDash n - n / coinDuffs) * coinDuffs := by
      rw [hcoin]; ring
    have habs : |(n : ℚ) / coinDuffs| = n / coinDuffs := abs_of_nonneg (by rw [hcoin]; positivity)
    rw [heq, abs_mul, abs_of_pos (show (0 : ℚ) < coinDuffs by rw [hcoin]; norm_num)]
    rw [habs] at hquot
    calc |toDash n - n / coinDuffs| * coinDuffs
        ≤ (n / coinDuffs / 2 ^ 53 + underflow) * coinDuffs :=
          mul_le_mul_of_nonneg_right hquot (by rw [hcoin]; norm_num)
      _ = n / 2 ^ 53 + coinDuffs * underflow := by rw [hcoin]; ring
  have hsize : |toDash n * coinDuffs| ≤ n + (n / 2 ^ 53 + coinDuffs * underflow) := by
    have htriangle := abs_add_le (toDash n * coinDuffs - n) n
    rw [sub_add_cancel, abs_of_nonneg hn] at htriangle
    linarith
  have htriangle := abs_add_le (fl (toDash n * coinDuffs) - toDash n * coinDuffs)
    (toDash n * coinDuffs - n)
  rw [sub_add_sub_cancel] at htriangle
  rw [hcoin] at *
  linarith

/-- What is within half of an integer rounds to it. -/
theorem floor_add_half {n : ℤ} (h : |x - n| < 1 / 2) : ⌊x + 1 / 2⌋ = n := by
  obtain ⟨hlow, hhigh⟩ := abs_lt.mp h
  rw [Int.floor_eq_iff]
  constructor <;> linarith

theorem abs_inDuffs_sub (amount : ℚ) :
    |fl (amount * coinDuffs) - inDuffs amount| ≤ 1 / 2 := by
  have hlow := Int.floor_le (fl (amount * coinDuffs) + 1 / 2)
  have hhigh := Int.lt_floor_add_one (fl (amount * coinDuffs) + 1 / 2)
  rw [inDuffs, abs_le]
  constructor <;> linarith

/-! ### Reading back -/

/-- **Every amount there can be is read back in duffs**: 2^51 duffs are more than 22 million DASH,
and there will never be 19 million. -/
theorem inDuffs_toDash (h : n < 2 ^ 51) : inDuffs (toDash n) = n := by
  have hle : (n : ℚ) ≤ 2 ^ 51 - 1 := by
    have hcast : ((n + 1 : ℕ) : ℚ) ≤ ((2 ^ 51 : ℕ) : ℚ) := Nat.cast_le.mpr h
    push_cast at hcast
    linarith
  refine floor_add_half ((abs_product_sub_le n).trans_lt ?_)
  linarith

/-- **What is shown can be asked for**: an amount from the floor to 43 980 DASH, as the doubles
write it, is read as the duffs it is. -/
theorem parseAmountSats_toDash (hmin : 100000 ≤ n) (hmax : n ≤ 2 ^ 42) :
    parseAmountSats (.num (toDash n : WithTop ℚ)) = some n := by
  have hle : (n : ℚ) ≤ 2 ^ 42 := by exact_mod_cast hmax
  have hduffs : inDuffs (toDash n) = n := inDuffs_toDash (by omega)
  -- what is left of the error stays below a thousandth, also when it is rounded itself
  have herror : |fl (toDash n * coinDuffs) - ((n : ℤ) : ℚ)| ≤ 1 / 1000 - 1 / 2 ^ 20 := by
    rw [Int.cast_natCast]
    refine (abs_product_sub_le n).trans ?_
    linarith
  have hfine : |fl (fl (toDash n * coinDuffs) - ((n : ℤ) : ℚ))| ≤ fl (1 / 1000) := by
    have hrest := abs_fl_sub_le (fl (toDash n * coinDuffs) - ((n : ℤ) : ℚ))
    have htriangle := abs_add_le
      (fl (fl (toDash n * coinDuffs) - ((n : ℤ) : ℚ)) -
        (fl (toDash n * coinDuffs) - ((n : ℤ) : ℚ)))
      (fl (toDash n * coinDuffs) - ((n : ℤ) : ℚ))
    rw [sub_add_cancel] at htriangle
    have hbound := abs_le.mp (abs_fl_sub_le (1 / 1000))
    rw [abs_of_pos (show (0 : ℚ) < 1 / 1000 by norm_num)] at hbound
    have hunder := underflow_le
    linarith [hbound.1]
  show (if |inDuffs (toDash n)| ≤ 2 ^ 53 - 1 ∧ minPayoutSats ≤ inDuffs (toDash n) ∧ _ then
    some (inDuffs (toDash n)).toNat else none) = _
  rw [hduffs, if_pos ⟨by rw [abs_of_nonneg (by omega)]; omega, by show (100000 : ℤ) ≤ n; omega,
    hfine⟩, Int.toNat_natCast]

/-- **What is accepted is meant**: whatever number a request says, it is within a thousandth of a
duff of the amount it is taken for, up to the rounding of one product. -/
theorem parseAmountSats_sound (h : parseAmountSats (.num (q : WithTop ℚ)) = some n) :
    100000 ≤ n ∧ n ≤ 2 ^ 53 - 1 ∧ |q * coinDuffs - n| ≤ 1 / 1000 + n / 2 ^ 52 := by
  have hparse : parseAmountSats (.num (q : WithTop ℚ)) =
      if |inDuffs q| ≤ 2 ^ 53 - 1 ∧ minPayoutSats ≤ inDuffs q ∧
        |fl (fl (q * coinDuffs) - inDuffs q)| ≤ fl (1 / 1000) then
      some (inDuffs q).toNat else none := rfl
  rw [hparse] at h
  split at h
  next haccept =>
    obtain ⟨hsafe, hmin, hfine⟩ := haccept
    have hmin : 100000 ≤ inDuffs q := hmin
    have hn : inDuffs q = n := by rw [← Option.some.inj h, Int.toNat_of_nonneg (by omega)]
    rw [hn] at hsafe hmin hfine
    rw [abs_of_nonneg (by omega)] at hsafe
    refine ⟨by omega, by omega, ?_⟩
    have hnear := abs_inDuffs_sub q
    rw [hn, Int.cast_natCast] at hnear
    rw [Int.cast_natCast] at hfine
    have hnq : (100000 : ℚ) ≤ n := by exact_mod_cast hmin
    -- the difference is rounded, so is the thousandth, and the product was
    have hthousandth := abs_le.mp (abs_fl_sub_le (1 / 1000))
    rw [abs_of_pos (show (0 : ℚ) < 1 / 1000 by norm_num)] at hthousandth
    have hdiff := abs_fl_sub_le (fl (q * coinDuffs) - n)
    have hprod := abs_fl_sub_le (q * coinDuffs)
    have hunder := underflow_le
    have hrest : |fl (q * coinDuffs) - n| ≤ 1 / 1000 + 1 / 2 ^ 52 := by
      have htriangle := abs_sub_abs_le_abs_sub (fl (q * coinDuffs) - n)
        (fl (fl (q * coinDuffs) - n))
      rw [abs_sub_comm _ (fl (fl (q * coinDuffs) - n))] at htriangle
      linarith [hthousandth.2]
    have hnmax : (n : ℚ) ≤ 2 ^ 53 := by exact_mod_cast show n ≤ 2 ^ 53 by omega
    have hsize : |q * coinDuffs| ≤ n + 2 := by
      have htriangle := abs_sub_abs_le_abs_sub (q * coinDuffs) (fl (q * coinDuffs))
      rw [abs_sub_comm _ (fl (q * coinDuffs))] at htriangle
      have hrounded := abs_sub_abs_le_abs_sub (fl (q * coinDuffs)) n
      rw [abs_of_nonneg (show (0 : ℚ) ≤ n by linarith)] at hrounded
      linarith
    have htriangle := abs_add_le (q * coinDuffs - fl (q * coinDuffs))
      (fl (q * coinDuffs) - n)
    rw [sub_add_sub_cancel, abs_sub_comm (q * coinDuffs) (fl _)] at htriangle
    linarith
  · cases h

/-- **Amounts survive the interface.** What is shown of any amount there can be is read back as its
duffs; what is shown can be asked for, from the floor to 43 980 DASH; and a number that is taken for
an amount is within a thousandth of a duff of it, up to one rounding. -/
theorem amounts_survive (n : ℕ) :
    (n < 2 ^ 51 → inDuffs (toDash n) = n) ∧
      (100000 ≤ n → n ≤ 2 ^ 42 → parseAmountSats (.num (toDash n : WithTop ℚ)) = some n) ∧
      ∀ q : ℚ, parseAmountSats (.num (q : WithTop ℚ)) = some n →
        100000 ≤ n ∧ |q * coinDuffs - n| ≤ 1 / 1000 + n / 2 ^ 52 := by
  refine ⟨inDuffs_toDash, parseAmountSats_toDash, fun q hq => ?_⟩
  obtain ⟨hmin, -, hnear⟩ := parseAmountSats_sound hq
  exact ⟨hmin, hnear⟩

/-- One DASH. -/
theorem amounts_survive_one : inDuffs (toDash 100000000) = 100000000 ∧
    parseAmountSats (.num (toDash 100000000 : WithTop ℚ)) = some 100000000 := by
  obtain ⟨hduffs, hparse, -⟩ := amounts_survive 100000000
  exact ⟨hduffs (by decide), hparse (by decide) (by decide)⟩

end DashFaucet

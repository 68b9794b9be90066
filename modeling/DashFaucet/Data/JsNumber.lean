import Mathlib.Data.List.Sort
import DashFaucet.Data.Binary64
import DashFaucet.Data.Double
import DashFaucet.Data.Json

/-!
# Numbers in arithmetic

The language's numbers as programs count with them: sums and differences are rounded, the infinities
take part, and what has no value is NaN. Nothing compares with NaN, not even NaN itself, so `¬a < b`
does not say `b ≤ a` before both are known to be numbers.

* `JsNumber`: a `Number`, or NaN. `a + b`, `a - b`: rounded. `a < b`, `a ≤ b`: false of NaN.
* `JsNumber.max`, `JsNumber.min`, `JsNumber.maximum`: `Math.max` and `Math.min`, which hand on NaN.
* `JsNumber.Sorting`: what is known of `sort((a, b) => a - b)`.
* `JsNumber.text`: `String`.
* `maximum_eq_num`: a greatest number is one only where all are numbers.
* `le_add_of_le`, `add_lt_of_lt_sub`: sums and differences in order.
-/

open Binary64

/-- A value of the language's number type. Rationals that are no doubles do not occur; nothing here
depends on it. -/
inductive JsNumber where
  | num (n : Number)
  | nan
  deriving DecidableEq, Repr

namespace JsNumber

instance instOfNat (n : ℕ) : OfNat JsNumber n := ⟨num (Number.ofInt n)⟩

instance instIntCast : IntCast JsNumber := ⟨fun n => num (Number.ofInt n)⟩

instance instNatCast : NatCast JsNumber := ⟨fun n => num (Number.ofInt n)⟩

/-- A double of `Double` is one of these. -/
def ofDouble : Double → JsNumber
  | .finite n => n
  | .infinity => num ⊤
  | .nan => nan

/-! ### Arithmetic -/

/-- The first number that is past all doubles. -/
def overflow : ℚ := 2 ^ 1024

/-- The nearest double. Past the greatest one it is an infinity. -/
def round (x : ℚ) : Number :=
  if overflow ≤ fl x then ⊤
  else if fl x ≤ -overflow then ⊥
  else (fl x : WithTop ℚ)

def add : JsNumber → JsNumber → JsNumber
  | num (some (some a)), num (some (some b)) => num (round (a + b))
  | num (some none), num none => nan
  | num none, num (some none) => nan
  | num (some none), num _ => num ⊤
  | num _, num (some none) => num ⊤
  | num none, num _ => num ⊥
  | num _, num none => num ⊥
  | nan, _ => nan
  | _, nan => nan

def neg : JsNumber → JsNumber
  | num (some (some a)) => num ((-a : ℚ) : WithTop ℚ)
  | num (some none) => num ⊥
  | num none => num ⊤
  | nan => nan

instance instAdd : Add JsNumber := ⟨add⟩

instance instSub : Sub JsNumber := ⟨fun a b => a + neg b⟩

/-! ### Comparisons -/

def lt : JsNumber → JsNumber → Prop
  | num a, num b => a < b
  | _, _ => False

def le : JsNumber → JsNumber → Prop
  | num a, num b => a ≤ b
  | _, _ => False

instance instLT : LT JsNumber := ⟨lt⟩

instance instLE : LE JsNumber := ⟨le⟩

instance instDecidableLT : DecidableLT JsNumber
  | num a, num b => inferInstanceAs (Decidable (a < b))
  | num _, nan => .isFalse id
  | nan, _ => .isFalse id

instance instDecidableLE : DecidableLE JsNumber
  | num a, num b => inferInstanceAs (Decidable (a ≤ b))
  | num _, nan => .isFalse id
  | nan, _ => .isFalse id

protected def max : JsNumber → JsNumber → JsNumber
  | num a, num b => num (max a b)
  | _, _ => nan

protected def min : JsNumber → JsNumber → JsNumber
  | num a, num b => num (min a b)
  | _, _ => nan

/-- `Math.max(...l)`. -/
def maximum (l : List JsNumber) : JsNumber := l.foldl JsNumber.max (num ⊥)

/-- `l.sort((a, b) => a - b)`. Where there is a NaN the comparisons are no order, and the language
leaves the order of the result to the implementation. -/
structure Sorting where
  sort : List JsNumber → List JsNumber
  perm : ∀ l, (sort l).Perm l
  sorted : ∀ l, nan ∉ l → (sort l).Pairwise (· ≤ ·)

/-! ### Text -/

/-- The fewest digits that read as a positive double `x`, as a multiple of a power of ten: of the
multiples around `x` that do, the nearest. -/
def shortest (x : ℚ) : ℕ × ℤ :=
  let exponent := Int.log 10 x
  ((List.range 17).findSome? fun k =>
    let unit : ℚ := 10 ^ (exponent - k)
    let near := nearest (x / unit)
    let far := if near = ⌊x / unit⌋ then near + 1 else near - 1
    let digits := [near, far].find? fun s : ℤ => fl (s * unit) = x
    digits.map fun s => (s.toNat, exponent - k)).getD (0, 0)

/-- `String(x)` of a positive double: its shortest digits, with the point `place` digits in. -/
def positiveText (x : ℚ) : String :=
  let (s, exponent) := shortest x
  let all := Nat.toDigits 10 s
  let place : ℤ := all.length + exponent
  -- trailing zeros belong to the exponent
  let digits := (all.reverse.dropWhile (· == '0')).reverse
  if digits.length ≤ place ∧ place ≤ 21 then
    String.ofList (digits ++ List.replicate (place.toNat - digits.length) '0')
  else if 0 < place ∧ place ≤ 21 then
    String.ofList (digits.take place.toNat ++ '.' :: digits.drop place.toNat)
  else if -6 < place ∧ place ≤ 0 then
    String.ofList ('0' :: '.' :: List.replicate (-place).toNat '0' ++ digits)
  else
    -- scientific, with the sign of the exponent
    let fraction := if digits.length = 1 then [] else '.' :: digits.drop 1
    let sign := if place ≤ 0 then '-' else '+'
    String.ofList (digits.take 1 ++ fraction ++ 'e' :: sign ::
      Nat.toDigits 10 (place - 1).natAbs)

/-- `String(n)`. -/
def text : JsNumber → String
  | num (some (some x)) =>
    if x = 0 then "0" else if 0 < x then positiveText x else "-" ++ positiveText (-x)
  | num (some none) => "Infinity"
  | num none => "-Infinity"
  | nan => "NaN"

/-! ### Order -/

variable {a b c : JsNumber} {l : List JsNumber} {m n : Number} {x y q : ℚ}

@[simp] theorem num_lt_num : num m < num n ↔ m < n := Iff.rfl

@[simp] theorem num_le_num : num m ≤ num n ↔ m ≤ n := Iff.rfl

theorem refl (n : Number) : num n ≤ num n := le_refl n

theorem exists_num (h : a ≠ nan) : ∃ n, a = num n := by
  cases a with
  | num n => exact ⟨n, rfl⟩
  | nan => exact absurd rfl h

theorem ne_nan_of_le (h : a ≤ b) : a ≠ nan ∧ b ≠ nan := by
  constructor
  · rintro rfl
    exact h
  · rintro rfl
    cases a <;> exact h

theorem trans (h : a ≤ b) (h' : b ≤ c) : a ≤ c := by
  obtain ⟨ha, hb⟩ := ne_nan_of_le h
  obtain ⟨m, rfl⟩ := exists_num ha
  obtain ⟨n, rfl⟩ := exists_num hb
  obtain ⟨k, rfl⟩ := exists_num (ne_nan_of_le h').2
  exact le_trans (α := Number) h h'

theorem not_lt_of_le (h : a ≤ b) : ¬b < a := by
  obtain ⟨ha, hb⟩ := ne_nan_of_le h
  obtain ⟨m, rfl⟩ := exists_num ha
  obtain ⟨n, rfl⟩ := exists_num hb
  exact not_lt_of_ge (α := Number) h

/-- Among numbers, what is not less is at least as great. -/
theorem le_of_not_lt (ha : a ≠ nan) (hb : b ≠ nan) (h : ¬a < b) : b ≤ a := by
  obtain ⟨m, rfl⟩ := exists_num ha
  obtain ⟨n, rfl⟩ := exists_num hb
  exact le_of_not_gt (α := Number) h

/-! ### Greatest numbers -/

theorem foldl_max_nan : l.foldl JsNumber.max nan = nan := by
  induction l with
  | nil => rfl
  | cons x l ih => exact ih

/-- A greatest number that is one: everything is a number, and it is among them or the first. -/
theorem foldl_max_eq_num (h : l.foldl JsNumber.max (num m) = num n) :
    m ≤ n ∧ (∀ x ∈ l, x ≤ num n) ∧ (n = m ∨ num n ∈ l) := by
  -- from any number on; a NaN would have stayed
  induction l generalizing m with
  | nil =>
    cases h
    exact ⟨le_rfl, List.forall_mem_nil _, .inl rfl⟩
  | cons x l ih =>
    cases x with
    | nan => cases foldl_max_nan.symm.trans h
    | num k =>
      obtain ⟨hle, hall, hmem⟩ := ih h
      have hk : k ≤ n := (le_max_right m k).trans hle
      refine ⟨(le_max_left m k).trans hle, List.forall_mem_cons.mpr ⟨hk, hall⟩, ?_⟩
      rcases hmem with rfl | hmem
      · rcases max_choice m k with hmax | hmax
        · exact .inl hmax
        · refine .inr ?_
          rw [hmax]
          exact List.mem_cons_self
      · exact .inr (List.mem_cons_of_mem _ hmem)

theorem maximum_eq_num (h : maximum l = num n) :
    (∀ x ∈ l, x ≤ num n) ∧ (n = ⊥ ∨ num n ∈ l) := (foldl_max_eq_num h).2

/-- Numbers have a greatest one. -/
theorem exists_foldl_max (h : ∀ x ∈ l, x ≠ nan) : ∃ n, l.foldl JsNumber.max (num m) = num n := by
  induction l generalizing m with
  | nil => exact ⟨m, rfl⟩
  | cons x l ih =>
    obtain ⟨hx, hl⟩ := List.forall_mem_cons.mp h
    obtain ⟨k, rfl⟩ := exists_num hx
    exact ih hl

theorem exists_maximum (h : ∀ x ∈ l, x ≠ nan) : ∃ n, maximum l = num n := exists_foldl_max h

/-- What is at most everything is at most the greatest. -/
theorem le_maximum (hne : l ≠ []) (h : ∀ x ∈ l, a ≤ x) : a ≤ maximum l := by
  obtain ⟨n, hn⟩ := exists_maximum fun x hx => (ne_nan_of_le (h x hx)).2
  obtain ⟨x, hx⟩ := List.exists_mem_of_ne_nil _ hne
  rw [hn]
  exact trans (h x hx) ((maximum_eq_num hn).1 x hx)

theorem le_min_of_le (hb : a ≤ b) (hc : a ≤ c) : a ≤ JsNumber.min b c := by
  obtain ⟨m, rfl⟩ := exists_num (ne_nan_of_le hb).1
  obtain ⟨n, rfl⟩ := exists_num (ne_nan_of_le hb).2
  obtain ⟨k, rfl⟩ := exists_num (ne_nan_of_le hc).2
  exact le_min (α := Number) hb hc

/-! ### Rounding -/

theorem round_mono (h : x ≤ y) : round x ≤ round y := by
  have hle := fl_mono h
  unfold round
  split
  · next hx => rw [if_pos (hx.trans hle)]
  split
  · exact bot_le
  next hlow =>
  split
  · exact le_top
  rw [if_neg fun hy => hlow (hle.trans hy)]
  exact WithBot.coe_le_coe.mpr (WithTop.coe_le_coe.mpr hle)

/-- Integers of 53 digits are not moved. -/
theorem round_intCast {k : ℤ} (h : |k| < 2 ^ 53) : round k = Number.ofInt k := by
  have habs : |(k : ℚ)| < 2 ^ 53 := by exact_mod_cast h
  obtain ⟨hlow, hhigh⟩ := abs_lt.mp habs
  have hpow : (2 : ℚ) ^ 53 ≤ overflow := pow_le_pow_right₀ one_le_two (by decide)
  rw [round, fl_intCast h, if_neg (by linarith), if_neg (by linarith)]
  rfl

/-! ### Sums and differences in order -/

/-- A rational as a number. -/
abbrev ofRat (q : ℚ) : JsNumber := num ((q : WithTop ℚ) : Number)

/-- Adding something finite to a number gives a number, and keeps the order. -/
theorem add_le_add_right (h : a ≤ b) (q : ℚ) : a + ofRat q ≤ b + ofRat q := by
  obtain ⟨ha, hb⟩ := ne_nan_of_le h
  obtain ⟨m, rfl⟩ := exists_num ha
  obtain ⟨n, rfl⟩ := exists_num hb
  rw [num_le_num] at h
  rcases m with _ | _ | x
  · rcases n with _ | _ | y <;> exact bot_le (α := Number)
  · obtain rfl : n = ⊤ := top_le_iff.mp h
    exact le_rfl (α := Number)
  · rcases n with _ | _ | y
    · exact absurd h (WithBot.not_coe_le_bot _)
    · exact le_top (α := Number)
    · have hxy : x ≤ y := WithTop.coe_le_coe.mp (WithBot.coe_le_coe.mp h)
      exact round_mono (by linarith)

/-- What is finite and below a sum stays below it when the first summand grows. -/
theorem le_add_of_le {q : ℚ} (h : ofRat q ≤ a + c) (hab : a ≤ b) : ofRat q ≤ b + c := by
  obtain ⟨ha, hb⟩ := ne_nan_of_le hab
  obtain ⟨m, rfl⟩ := exists_num ha
  obtain ⟨n, rfl⟩ := exists_num hb
  have hc : c ≠ nan := by
    rintro rfl
    rcases m with _ | _ | x <;> exact h
  obtain ⟨k, rfl⟩ := exists_num hc
  rcases k with _ | _ | z
  · -- nothing finite is below a sum with minus infinity
    rcases m with _ | _ | x
    · exact absurd h (WithBot.not_coe_le_bot _)
    · exact absurd h id
    · exact absurd h (WithBot.not_coe_le_bot _)
  · rcases m with _ | _ | x
    · exact absurd h id
    · obtain rfl : n = ⊤ := top_le_iff.mp hab
      exact h
    · rcases n with _ | _ | y
      · exact absurd hab (WithBot.not_coe_le_bot _)
      · exact h
      · exact h
  · exact trans h (add_le_add_right hab z)

/-- A number that is its own nearest double. -/
def IsDouble : JsNumber → Prop
  | num (some (some x)) => round x = (x : WithTop ℚ)
  | _ => True

instance instDecidableIsDouble : DecidablePred IsDouble
  | num (some (some x)) => inferInstanceAs (Decidable (round x = (x : WithTop ℚ)))
  | num (some none) => .isTrue trivial
  | num none => .isTrue trivial
  | nan => .isTrue trivial

/-- Rounding takes no sum below a double that is at most its first summand. -/
theorem IsDouble.le_add (ha : a.IsDouble) (h : a ≤ b) (hq : 0 ≤ q) : a ≤ b + ofRat q := by
  refine trans ?_ (add_le_add_right h q)
  obtain ⟨m, rfl⟩ := exists_num (ne_nan_of_le h).1
  rcases m with _ | _ | x
  · exact bot_le (α := Number)
  · exact le_rfl (α := Number)
  · have hround : round x ≤ round (x + q) := round_mono (by linarith)
    rwa [show round x = (x : WithTop ℚ) from ha] at hround

/-- What is at most an integer is so as rounded. -/
theorem round_le {k : ℤ} (hk : |k| < 2 ^ 53) (h : x ≤ k) : round x ≤ Number.ofInt k := by
  rw [← round_intCast hk]
  exact round_mono h

/-- What is further apart than an integer as rounded is so exactly. -/
theorem add_lt_of_lt_sub {k : ℤ} (hk : |k| < 2 ^ 53) (h : (k : JsNumber) < num n - num m) :
    m + Number.ofInt k < n := by
  rcases m with _ | _ | x
  · -- minus infinity is further below everything but itself
    refine WithBot.bot_lt_iff_ne_bot.mpr ?_
    rintro rfl
    exact h
  · exfalso
    rcases n with _ | _ | y
    · exact absurd h (not_lt_bot (α := Number))
    · exact h
    · exact absurd h (not_lt_bot (α := Number))
  · rcases n with _ | _ | y
    · exact absurd h (not_lt_bot (α := Number))
    · exact WithBot.coe_lt_coe.mpr (WithTop.coe_lt_top _)
    · refine WithBot.coe_lt_coe.mpr (WithTop.coe_lt_coe.mpr ?_)
      by_contra hnot
      have hle : y + -x ≤ k := by linarith
      exact absurd h (not_lt_of_ge (α := Number) (round_le hk hle))

/-! ### An implementation of sorting -/

theorem exists_map_num (h : nan ∉ l) : ∃ l' : List Number, l = l'.map num := by
  induction l with
  | nil => exact ⟨[], rfl⟩
  | cons x l ih =>
    obtain ⟨l', rfl⟩ := ih fun hmem => h (List.mem_cons_of_mem _ hmem)
    obtain ⟨n, rfl⟩ := exists_num (a := x) fun hx => h (hx ▸ List.mem_cons_self)
    exact ⟨n :: l', rfl⟩

/-- Insertion, where NaN is as great as everything, as the comparison function has it. -/
def Sorting.insertion : Sorting where
  sort l := l.insertionSort fun a b => ¬b < a
  perm l := List.perm_insertionSort _ l
  sorted l h := by
    -- numbers are sorted as the `Number`s they are
    obtain ⟨l', rfl⟩ := exists_map_num h
    have hsame : ∀ a ∈ l', ∀ b ∈ l', a ≤ b ↔ ¬num b < num a :=
      fun a _ b _ => (not_lt (α := Number)).symm
    rw [← List.map_insertionSort (r := fun a b : Number => a ≤ b) (s := fun a b => ¬b < a) num l'
      hsame, List.pairwise_map]
    exact List.pairwise_insertionSort (fun a b : Number => a ≤ b) l'

end JsNumber

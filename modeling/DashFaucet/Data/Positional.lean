import Mathlib.Data.Nat.Digits.Lemmas

/-!
# Numbers by position

Digits to a base, the most significant first, as texts and bytes have them.

* `Positional.value`: the number that digits stand for.
* `Positional.digits`: the digits of a number, without a leading zero.
* `digits_value`: digits are read back from their number, leading zeros apart.
* `value_append_div`: what the leading digits stand for.
* `value_inj`: as many digits with the same number are the same.
* `mapM_map_digit`: what is written digit by digit is read back.
-/

namespace Positional

/-- The number that digits stand for. -/
def value (b : ℕ) (digits : List ℕ) : ℕ := digits.foldl (fun n d => n * b + d) 0

/-- The digits of a number, none of them a leading zero. -/
def digits (b n : ℕ) : List ℕ := (Nat.digits b n).reverse

variable {b n : ℕ} {ds es : List ℕ}

theorem value_eq_ofDigits (b : ℕ) (ds : List ℕ) : value b ds = Nat.ofDigits b ds.reverse := by
  rw [Nat.ofDigits_eq_foldr, List.foldr_reverse, value]
  congr 1
  funext n d
  rw [Nat.cast_id, Nat.add_comm, Nat.mul_comm]

theorem value_append (b : ℕ) (ds es : List ℕ) :
    value b (ds ++ es) = value b ds * b ^ es.length + value b es := by
  simp only [value_eq_ofDigits, List.reverse_append, Nat.ofDigits_append, List.length_reverse]
  rw [Nat.add_comm, Nat.mul_comm]

theorem value_lt (hb : 1 < b) (h : ∀ d ∈ ds, d < b) : value b ds < b ^ ds.length := by
  rw [value_eq_ofDigits, ← List.length_reverse]
  exact Nat.ofDigits_lt_base_pow_length hb fun d hd => h d (List.mem_reverse.mp hd)

/-- **The leading digits** stand for what is left when the rest is divided away. -/
theorem value_append_div (hb : 1 < b) (h : ∀ d ∈ es, d < b) :
    value b (ds ++ es) / b ^ es.length = value b ds := by
  rw [value_append, Nat.mul_comm, Nat.mul_add_div (Nat.pow_pos (Nat.zero_lt_of_lt hb)),
    Nat.div_eq_of_lt (value_lt hb h), Nat.add_zero]

theorem value_inj (hb : 1 < b) (hlen : ds.length = es.length) (hds : ∀ d ∈ ds, d < b)
    (hes : ∀ d ∈ es, d < b) (h : value b ds = value b es) : ds = es := by
  rw [value_eq_ofDigits, value_eq_ofDigits] at h
  refine List.reverse_injective (Nat.ofDigits_inj_of_len_eq hb ?_ ?_ ?_ h)
  · rw [List.length_reverse, List.length_reverse, hlen]
  · exact fun d hd => hds d (List.mem_reverse.mp hd)
  · exact fun d hd => hes d (List.mem_reverse.mp hd)

/-- Leading zeros count for nothing. -/
theorem value_dropWhile (b : ℕ) (ds : List ℕ) : value b (ds.dropWhile (· = 0)) = value b ds := by
  induction ds with
  | nil => rfl
  | cons d ds ih =>
    by_cases hd : d = 0
    · have hzero : value b (d :: ds) = value b ds := by rw [hd, value, value, List.foldl_cons,
        Nat.zero_mul]
      rw [List.dropWhile_cons, if_pos (decide_eq_true hd), ih, hzero]
    · rw [List.dropWhile_cons, if_neg fun h => hd (of_decide_eq_true h)]

theorem value_digits (b n : ℕ) : value b (digits b n) = n := by
  rw [value_eq_ofDigits, digits, List.reverse_reverse, Nat.ofDigits_digits]

theorem digits_lt (hb : 1 < b) : ∀ d ∈ digits b n, d < b := fun _ hd =>
  Nat.digits_lt_base hb (List.mem_reverse.mp hd)

theorem digits_zero (b : ℕ) : digits b 0 = [] := by
  rw [digits, Nat.digits_zero, List.reverse_nil]

/-- The last digit is the remainder. -/
theorem digits_eq_append (hb : 1 < b) (hn : 0 < n) : digits b n = digits b (n / b) ++ [n % b] := by
  rw [digits, Nat.digits_def' hb hn, List.reverse_cons, digits]

theorem head_digits_ne_zero {d : ℕ} (h : (digits b n).head? = some d) : d ≠ 0 := by
  have hn : n ≠ 0 := by
    rintro rfl
    rw [digits_zero] at h
    cases h
  rw [digits, List.head?_reverse, List.getLast?_eq_some_getLast
    (Nat.digits_ne_nil_iff_ne_zero.mpr hn)] at h
  rw [← Option.some.inj h]
  exact Nat.getLast_digit_ne_zero b hn

/-- **Digits are read back from their number**, leading zeros apart. -/
theorem digits_value (hb : 1 < b) (h : ∀ d ∈ ds, d < b) :
    digits b (value b ds) = ds.dropWhile (· = 0) := by
  rw [← value_dropWhile, value_eq_ofDigits, digits, Nat.digits_ofDigits b hb, List.reverse_reverse]
  · intro d hd
    exact h d ((List.dropWhile_suffix _).subset (List.mem_reverse.mp hd))
  · intro hne
    rw [List.getLast_reverse]
    exact of_decide_eq_false (List.head_dropWhile_not (fun d => decide (d = 0)) _)

/-! ### One by one -/

/-- What the elements of a list are read as, one by one. -/
theorem mapM_eq_some_map_iff {α β : Type} {f : α → Option β} {g : α → β} {as : List α} :
    as.mapM f = some (as.map g) ↔ ∀ a ∈ as, f a = some (g a) := by
  induction as with
  | nil => exact iff_of_true rfl fun _ h => nomatch h
  | cons a as ih =>
    rw [List.forall_mem_cons, ← ih, List.mapM_cons]
    constructor
    · intro h
      obtain ⟨b, hb, h⟩ := Option.bind_eq_some_iff.mp h
      obtain ⟨bs, hbs, h⟩ := Option.bind_eq_some_iff.mp h
      cases h
      exact ⟨hb, hbs⟩
    · rintro ⟨ha, has⟩
      rw [ha, has]
      rfl

/-- Digits written one by one are read back, if each of them is. -/
theorem mapM_map_digit {α : Type} {write : ℕ → α} {read : α → Option ℕ}
    (h : ∀ d ∈ ds, read (write d) = some d) : (ds.map write).mapM read = some ds := by
  have hread : ds.mapM (read ∘ write) = some (ds.map id) := mapM_eq_some_map_iff.mpr h
  rwa [List.map_id, ← List.mapM_map] at hread

end Positional

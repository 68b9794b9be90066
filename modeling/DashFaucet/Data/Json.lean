import Mathlib.Data.Rat.Cast.Order
import Mathlib.Order.WithBot

/-!
# JSON values

* `Number`: what a double can be in arithmetic that does not round, NaN apart.
* `Json`: what a text of JSON stands for.
* `JsonCodec`: `JSON.parse` and `JSON.stringify` on the values of one type, which are taken as they
  are. `JsonCodec.Keeps` says that they keep a value.
-/

/-- A number of the language: a rational, or one of the two infinities. No JSON text reads as
NaN. -/
abbrev Number := WithBot (WithTop ℚ)

namespace Number

/-- An integer as a number. -/
def ofInt (n : ℤ) : Number := ((n : ℚ) : WithTop ℚ)

/-- The integer a number is, if it is one. -/
def toInt? : Number → Option ℤ
  | some (some q) => if q.den = 1 then some q.num else none
  | _ => none

@[simp] theorem toInt?_ofInt (n : ℤ) : (ofInt n).toInt? = some n := rfl

theorem toInt?_eq_some {n : Number} {i : ℤ} : n.toInt? = some i ↔ n = ofInt i := by
  constructor
  · intro h
    match n, h with
    | some (some q), h =>
      rw [toInt?] at h
      split at h
      · next hden =>
        -- a rational without a denominator is its numerator
        have hq : q = (i : ℚ) := by rw [← Option.some.inj h, Rat.coe_int_num_of_den_eq_one hden]
        rw [hq]
        rfl
      · cases h
  · rintro rfl
    exact toInt?_ofInt i

/-- The integer a number is, if `Number.isSafeInteger` holds of it. -/
def safeInteger? (n : Number) : Option ℤ := n.toInt?.filter fun i => |i| ≤ 2 ^ 53 - 1

theorem safeInteger?_eq_some {n : Number} {i : ℤ} :
    n.safeInteger? = some i ↔ n = ofInt i ∧ |i| ≤ 2 ^ 53 - 1 := by
  rw [safeInteger?, Option.filter_eq_some_iff, toInt?_eq_some, decide_eq_true_eq]

theorem ofInt_lt_ofInt {m n : ℤ} : ofInt m < ofInt n ↔ m < n := by
  rw [ofInt, ofInt, WithBot.coe_lt_coe, WithTop.coe_lt_coe, Int.cast_lt]

end Number

/-- A JSON value. The fields of an object have distinct names. -/
inductive Json where
  | null
  | bool (b : Bool)
  | num (n : Number)
  | str (s : String)
  | arr (items : List Json)
  | obj (fields : List (String × Json))

/-- What `JSON` does to the values of a type: `stringify`, `parse` (or the message it throws), and
the `exp` of a value where that is a number. -/
structure JsonCodec (T : Type) where
  stringify : T → String
  parse : String → Except String T
  exp : T → Option Number

namespace JsonCodec

variable {T : Type}

/-- A value is an object that JSON keeps: its text starts with a brace and reads as the value. -/
structure Keeps (codec : JsonCodec T) (value : T) : Prop where
  parse_stringify : codec.parse (codec.stringify value) = .ok value
  brace : (codec.stringify value).toList.head? = some '{'

end JsonCodec

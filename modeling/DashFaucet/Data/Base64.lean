import Mathlib.Data.Bool.AllAny
import Mathlib.Data.List.DropRight
import Mathlib.Tactic.Common
import DashFaucet.Data.Positional

/-!
# Base64

Bytes as text over sixty-four characters, and back. Bytes are naturals below 256, a text is its
characters.

* `btoa`: three bytes to four characters, with `=` to fill the last four.
* `atob`: the forgiving decoder. It skips white space, takes the filling or leaves it, and drops the
  bits that are left over at the end.
* `digits`: the characters without the filling; `btoa_eq` says that the filling is all that differs.
* `atob_btoa`: bytes read back as they were written.
-/

namespace Base64

/-- The sixty-four characters. -/
def alphabet : List Char :=
  "ABCDEFGHIJKLMNOPQRSTUVWXYZabcdefghijklmnopqrstuvwxyz0123456789+/".toList

/-- The character of six bits. -/
def digit (n : ℕ) : Char := alphabet.getD n '='

/-- The six bits of a character. -/
def value (c : Char) : Option ℕ := alphabet.idxOf? c

/-- Bytes to characters. -/
def btoa : List ℕ → List Char
  | [] => []
  | [a] => [digit (a / 4), digit (a % 4 * 16), '=', '=']
  | [a, b] => [digit (a / 4), digit (a % 4 * 16 + b / 16), digit (b % 16 * 4), '=']
  | a :: b :: c :: rest =>
    digit (a / 4) :: digit (a % 4 * 16 + b / 16) :: digit (b % 16 * 4 + c / 64) :: digit (c % 64) ::
      btoa rest

/-- Six bits at a time to bytes. What does not fill a byte at the end is dropped. -/
def bytes : List ℕ → List ℕ
  | a :: b :: c :: d :: rest =>
    (a * 4 + b / 16) :: (b % 16 * 16 + c / 4) :: (c % 4 * 64 + d) :: bytes rest
  | [a, b, c] => [a * 4 + b / 16, b % 16 * 16 + c / 4]
  | [a, b] => [a * 4 + b / 16]
  | _ => []

/-- ASCII white space. -/
def isSpace (c : Char) : Bool := c ∈ ['\t', '\n', '\x0C', '\r', ' ']

/-- At most two `=` at the end are filling. -/
def dropFill (text : List Char) : List Char :=
  match text.reverse with
  | '=' :: '=' :: rest => rest.reverse
  | '=' :: rest => rest.reverse
  | _ => text

/-- Characters to bytes, unless they are not base64. -/
def atob (text : List Char) : Option (List ℕ) :=
  let data := text.filter fun c => !isSpace c
  let data := if data.length % 4 = 0 then dropFill data else data
  if data.length % 4 = 1 then none else (data.mapM value).map bytes

/-! ### The characters without the filling -/

/-- The six bits of the characters. -/
def sextets : List ℕ → List ℕ
  | [] => []
  | [a] => [a / 4, a % 4 * 16]
  | [a, b] => [a / 4, a % 4 * 16 + b / 16, b % 16 * 4]
  | a :: b :: c :: rest =>
    a / 4 :: (a % 4 * 16 + b / 16) :: (b % 16 * 4 + c / 64) :: c % 64 :: sextets rest

/-- The characters that carry the bytes. -/
def digits (bs : List ℕ) : List Char := (sextets bs).map digit

/-- How many `=` follow them. -/
def fill (bs : List ℕ) : List Char := List.replicate ((3 - bs.length % 3) % 3) '='

theorem btoa_eq : ∀ bs : List ℕ, btoa bs = digits bs ++ fill bs
  | [] => rfl
  | [_] => rfl
  | [_, _] => rfl
  | a :: b :: c :: rest => by
    have hfill : fill (a :: b :: c :: rest) = fill rest := by
      have hlen : (a :: b :: c :: rest).length % 3 = rest.length % 3 := by
        show (rest.length + 3) % 3 = rest.length % 3
        omega
      rw [fill, fill, hlen]
    rw [btoa, btoa_eq rest, hfill]
    rfl

theorem length_sextets : ∀ bs : List ℕ,
    (sextets bs).length % 4 ≠ 1 ∧ ((sextets bs).length + (3 - bs.length % 3) % 3) % 4 = 0 ∧
      (4 - (sextets bs).length % 4) % 4 = (3 - bs.length % 3) % 3
  | [] => by decide
  | [_] => by simp [sextets]
  | [_, _] => by simp [sextets]
  | a :: b :: c :: rest => by
    have hrest := length_sextets rest
    simp only [sextets, List.length_cons]
    omega

theorem length_digits (bs : List ℕ) : (digits bs).length = (sextets bs).length := List.length_map _

/-- The filling makes up the last four characters. -/
theorem fill_eq (bs : List ℕ) :
    fill bs = List.replicate ((4 - (digits bs).length % 4) % 4) '=' := by
  rw [fill, length_digits, (length_sextets bs).2.2]

section Bytes

variable {bs : List ℕ} (h : ∀ b ∈ bs, b < 256)

include h

theorem lt_of_mem_sextets {n : ℕ} (hn : n ∈ sextets bs) : n < 64 := by
  induction bs using sextets.induct with
  | case1 => exact absurd hn List.not_mem_nil
  | case2 a =>
    have ha := h a List.mem_cons_self
    simp only [sextets, List.mem_cons, List.not_mem_nil, or_false] at hn
    omega
  | case3 a b =>
    have ha := h a List.mem_cons_self
    have hb := h b (by simp)
    simp only [sextets, List.mem_cons, List.not_mem_nil, or_false] at hn
    omega
  -- three bytes are four sextets
  | case4 a b c rest ih =>
    have ha := h a List.mem_cons_self
    have hb := h b (by simp)
    have hc := h c (by simp)
    simp only [sextets, List.mem_cons] at hn
    rcases hn with rfl | rfl | rfl | rfl | hn
    · omega
    · omega
    · omega
    · omega
    · exact ih (fun b' hb' => h b' (by simp [hb'])) hn

/-- The bits read back as the bytes. -/
theorem bytes_sextets : bytes (sextets bs) = bs := by
  induction bs using sextets.induct with
  | case1 => rfl
  | case2 a =>
    have ha := h a List.mem_cons_self
    show [a / 4 * 4 + a % 4 * 16 / 16] = [a]
    rw [Nat.mul_div_cancel _ (by decide), Nat.div_add_mod']
  | case3 a b =>
    have hb := h b (by simp)
    have hfirst : a / 4 * 4 + (a % 4 * 16 + b / 16) / 16 = a := by omega
    have hsecond : (a % 4 * 16 + b / 16) % 16 * 16 + b % 16 * 4 / 4 = b := by omega
    show [a / 4 * 4 + (a % 4 * 16 + b / 16) / 16,
      (a % 4 * 16 + b / 16) % 16 * 16 + b % 16 * 4 / 4] = [a, b]
    rw [hfirst, hsecond]
  | case4 a b c rest ih =>
    have hb := h b (by simp)
    have hc := h c (by simp)
    have hfirst : a / 4 * 4 + (a % 4 * 16 + b / 16) / 16 = a := by omega
    have hsecond : (a % 4 * 16 + b / 16) % 16 * 16 + (b % 16 * 4 + c / 64) / 4 = b := by omega
    have hthird : (b % 16 * 4 + c / 64) % 4 * 64 + c % 64 = c := by omega
    rw [sextets, bytes, hfirst, hsecond, hthird, ih fun b' hb' => h b' (by simp [hb'])]

end Bytes

theorem value_digit : ∀ n < 64, value (digit n) = some n := by decide

theorem digit_mem : ∀ n < 64, digit n ∈ alphabet := by decide

theorem not_mem_alphabet : '=' ∉ alphabet ∧ ∀ c ∈ alphabet, isSpace c = false :=
  ⟨by decide, List.all_iff_forall_prop.mp (by decide)⟩

section Bytes

variable {bs : List ℕ} (h : ∀ b ∈ bs, b < 256)

include h

theorem mem_digits {c : Char} (hc : c ∈ digits bs) : c ∈ alphabet := by
  obtain ⟨n, hn, rfl⟩ := List.mem_map.mp hc
  exact digit_mem n (lt_of_mem_sextets h hn)

theorem values_digits : (digits bs).mapM value = some (sextets bs) :=
  Positional.mapM_map_digit fun n hn => value_digit n (lt_of_mem_sextets h hn)

end Bytes

/-- What ends in `=` only by its filling loses just that. -/
theorem dropFill_append {text : List Char} (htext : '=' ∉ text) {k : ℕ} (hk : k ≤ 2) :
    dropFill (text ++ List.replicate k '=') = text := by
  -- what is left behind the fill does not begin with one more
  have hhead : ∀ rest, text.reverse ≠ '=' :: rest := by
    intro rest heq
    have hmem : '=' ∈ text.reverse := by
      rw [heq]
      exact List.mem_cons_self
    exact htext (List.mem_reverse.mp hmem)
  unfold dropFill
  rw [List.reverse_append, List.reverse_replicate]
  match k, hk with
  | 0, _ =>
    rw [List.replicate_zero, List.nil_append, List.append_nil]
    split
    · next heq => exact absurd heq (hhead _)
    · next heq => exact absurd heq (hhead _)
    · rfl
  | 1, _ =>
    show (match '=' :: text.reverse with
      | '=' :: '=' :: rest => rest.reverse
      | '=' :: rest => rest.reverse
      | _ => text ++ ['=']) = text
    split
    · next heq => exact absurd (List.cons.inj heq).2 (hhead _)
    · next heq => rw [← (List.cons.inj heq).2, List.reverse_reverse]
    · next hne => exact absurd rfl (hne _)
  | 2, _ => exact List.reverse_reverse text

/-- **Bytes read back as they were written.** -/
theorem atob_btoa {bs : List ℕ} (h : ∀ b ∈ bs, b < 256) : atob (btoa bs) = some bs := by
  have hmem := fun c => mem_digits h (c := c)
  have hspace : (btoa bs).filter (fun c => !isSpace c) = btoa bs := by
    rw [List.filter_eq_self, btoa_eq]
    intro c hc
    rcases List.mem_append.mp hc with hc | hc
    · rw [not_mem_alphabet.2 c (hmem c hc)]
      rfl
    · rw [List.eq_of_mem_replicate hc]
      rfl
  have hfull : (btoa bs).length % 4 = 0 := by
    rw [btoa_eq, List.length_append, length_digits, fill, List.length_replicate]
    exact (length_sextets bs).2.1
  -- the fill goes, and nothing else
  have hdrop : dropFill (btoa bs) = digits bs := by
    rw [btoa_eq]
    exact dropFill_append (fun heq => not_mem_alphabet.1 (hmem _ heq)) (by omega)
  unfold atob
  dsimp only
  rw [hspace, if_pos hfull, hdrop, length_digits, if_neg (length_sextets bs).1, values_digits h,
    Option.map_some, bytes_sextets h]

end Base64

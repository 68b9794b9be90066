import Mathlib.Data.Bool.AllAny
import Mathlib.Data.List.DropRight
import Mathlib.Tactic.Common

/-!
# Text in lines

What programs do with the text of a message: cut it into lines, cut a line at its first colon, trim
what they find, read digits. A text is its characters.

* `isWhite`, `trim`: the white space of ECMAScript.
* `splitCrlf`: the lines of a text; `splitCrlf_append` says that a line break separates.
* `splitDouble`: the parts of a text between two of a character in a row; `splitDouble_intercalate`
  says that those of it alone do not separate.
* `cut`: a line at the first occurrence of a character.
* `digitsValue`: the number digits stand for in a base.
-/

namespace Text

/-- The white space of ECMAScript. -/
def isWhite (c : Char) : Bool :=
  c ∈ ['\t', '\n', '\x0B', '\x0C', '\r', ' ', '\u00A0', '\u1680', '\u2028', '\u2029', '\u202F',
    '\u205F', '\u3000', '\uFEFF'] || ('\u2000' ≤ c && c ≤ '\u200A')

/-- A text without the white space around it. -/
def trim (text : List Char) : List Char := (text.dropWhile isWhite).rdropWhile isWhite

/-- The lines of a text. -/
def splitCrlf : List Char → List (List Char)
  | '\r' :: '\n' :: rest => [] :: splitCrlf rest
  | c :: rest => (splitCrlf rest).modifyHead (c :: ·)
  | [] => [[]]

/-- The parts of a text between two `c` in a row. -/
def splitDouble (c : Char) : List Char → List (List Char)
  | a :: b :: rest =>
    if a = c ∧ b = c then [] :: splitDouble c rest
    else (splitDouble c (b :: rest)).modifyHead (a :: ·)
  | [a] => [[a]]
  | [] => [[]]

/-- A line before and after the first `c`, if it has one. -/
def cut (c : Char) (line : List Char) : Option (List Char × List Char) :=
  if c ∈ line then some (line.takeWhile (· ≠ c), (line.dropWhile (· ≠ c)).tail) else none

/-- The number that digits stand for. -/
def digitsValue (base : ℕ) (value : Char → ℕ) (digits : List Char) : ℕ :=
  digits.foldl (fun n c => base * n + value c) 0

/-- Decimal digits, at least one. -/
def isDecimal (text : List Char) : Bool := !text.isEmpty && text.all Char.isDigit

/-- The number that decimal digits stand for. -/
def decimal (text : List Char) : ℕ := digitsValue 10 (fun c => c.toNat - '0'.toNat) text

/-- Where the white space is. -/
theorem isWhite_bounds {c : Char} (h : isWhite c = true) : c.toNat ≤ 32 ∨ 0xA0 ≤ c.toNat := by
  rw [isWhite, Bool.or_eq_true, decide_eq_true_eq, Bool.and_eq_true, decide_eq_true_eq] at h
  rcases h with hmem | ⟨hlow, -⟩
  · refine (List.all_iff_forall_prop (p := fun c => c.toNat ≤ 32 ∨ 0xA0 ≤ c.toNat)).mp ?_ c hmem
    decide
  · have hlow : ('\u2000').toNat ≤ c.toNat := hlow
    exact .inr (le_trans (by decide) hlow)

/-- Where the letters and digits are. -/
theorem isAlphanum_bounds {c : Char} (h : c.isAlphanum = true) : 48 ≤ c.toNat ∧ c.toNat ≤ 122 := by
  delta Char.isAlphanum Char.isAlpha Char.isUpper Char.isLower Char.isDigit at h
  simp only [Bool.or_eq_true, Bool.and_eq_true, decide_eq_true_eq, UInt32.le_iff_toNat_le,
    ge_iff_le] at h
  have hval : c.toNat = c.val.toNat := rfl
  simp only [show ('A').val.toNat = 65 from rfl, show ('Z').val.toNat = 90 from rfl,
    show ('a').val.toNat = 97 from rfl, show ('z').val.toNat = 122 from rfl,
    show ('0').val.toNat = 48 from rfl, show ('9').val.toNat = 57 from rfl] at h
  omega

/-! ### Lines -/

theorem splitCrlf_ne_nil (text : List Char) : splitCrlf text ≠ [] := by
  induction text using splitCrlf.induct with
  | case1 rest ih => exact List.cons_ne_nil _ _
  | case2 c rest h ih =>
    rw [splitCrlf]
    · cases hrest : splitCrlf rest with
      | nil => exact absurd hrest ih
      | cons line lines => exact List.cons_ne_nil _ _
    · exact h
  | case3 => exact List.cons_ne_nil _ _

/-- **A line break separates**, whatever is before and after it. -/
theorem splitCrlf_append (text rest : List Char) :
    splitCrlf (text ++ '\r' :: '\n' :: rest) = splitCrlf text ++ splitCrlf rest := by
  induction text using splitCrlf.induct with
  | case1 text ih =>
    show [] :: splitCrlf (text ++ '\r' :: '\n' :: rest) = [] :: splitCrlf text ++ splitCrlf rest
    rw [ih]
    rfl
  | case2 c text h ih =>
    -- the character starts no line break in front of the one that follows
    have hne : ∀ tail, c = '\r' → text ++ '\r' :: '\n' :: rest = '\n' :: tail → False := by
      intro tail hc htext
      cases text with
      | nil => exact absurd (List.cons.inj htext).1 (by decide)
      | cons d text => exact h text hc (congrArg (· :: text) (List.cons.inj htext).1)
    rw [List.cons_append, splitCrlf, ih, splitCrlf]
    · cases hlines : splitCrlf text with
      | nil => exact absurd hlines (splitCrlf_ne_nil text)
      | cons line lines => rfl
    · exact h
    · exact hne
  | case3 => rfl

/-- A text without a carriage return is one line. -/
theorem splitCrlf_of_notMem {text : List Char} (h : '\r' ∉ text) : splitCrlf text = [text] := by
  induction text with
  | nil => rfl
  | cons c text ih =>
    rw [splitCrlf, ih fun hmem => h (List.mem_cons_of_mem _ hmem)]
    · rfl
    · rintro rest rfl -
      exact h List.mem_cons_self

/-- Lines put together are cut apart again. -/
theorem splitCrlf_intercalate {lines : List (List Char)} (hne : lines ≠ [])
    (h : ∀ line ∈ lines, '\r' ∉ line) : splitCrlf (['\r', '\n'].intercalate lines) = lines := by
  induction lines with
  | nil => exact absurd rfl hne
  | cons line lines ih =>
    have hline := h line List.mem_cons_self
    cases lines with
    | nil => rw [List.intercalate_singleton, splitCrlf_of_notMem hline]
    | cons line' lines =>
      rw [List.intercalate_cons_cons, List.append_assoc]
      show splitCrlf (line ++ '\r' :: '\n' :: ['\r', '\n'].intercalate (line' :: lines)) = _
      rw [splitCrlf_append, splitCrlf_of_notMem hline,
        ih (List.cons_ne_nil _ _) fun l hl => h l (List.mem_cons_of_mem _ hl)]
      rfl

/-! ### Parts -/

variable {c : Char} {text rest part : List Char} {parts : List (List Char)}

theorem mem_of_mem_modifyHead {a : Char} (h : part ∈ parts.modifyHead (a :: ·)) :
    ∃ part' ∈ parts, part = a :: part' ∨ part = part' := by
  cases parts with
  | nil => cases h
  | cons first parts =>
    rcases List.mem_cons.mp h with rfl | hmem
    · exact ⟨first, List.mem_cons_self, .inl rfl⟩
    · exact ⟨part, List.mem_cons_of_mem _ hmem, .inr rfl⟩

/-- What is in a part is in the text, and no separator. -/
theorem mem_of_mem_splitOn (h : part ∈ text.splitOn c) : ∀ d ∈ part, d ∈ text ∧ d ≠ c := by
  induction text generalizing part with
  | nil =>
    rw [List.splitOn_nil, List.mem_singleton] at h
    rw [h]
    exact fun d hd => nomatch hd
  | cons a text ih =>
    have hlater : ∀ {part}, part ∈ text.splitOn c → ∀ d ∈ part, d ∈ a :: text ∧ d ≠ c :=
      fun hpart d hd => ⟨List.mem_cons_of_mem _ (ih hpart d hd).1, (ih hpart d hd).2⟩
    rw [List.splitOn_cons_eq_if_modifyHead] at h
    split at h
    · rcases List.mem_cons.mp h with rfl | hmem
      · exact fun d hd => nomatch hd
      · exact hlater hmem
    next hne =>
      obtain ⟨part', hmem, rfl | rfl⟩ := mem_of_mem_modifyHead h
      · refine List.forall_mem_cons.mpr ⟨⟨List.mem_cons_self, fun heq => hne ?_⟩, hlater hmem⟩
        rw [heq, beq_self_eq_true]
      · exact hlater hmem

theorem mem_of_mem_splitDouble (h : part ∈ splitDouble c text) : ∀ d ∈ part, d ∈ text := by
  induction text using splitDouble.induct (c := c) generalizing part with
  | case1 a b rest hc ih =>
    rw [splitDouble, if_pos hc] at h
    rcases List.mem_cons.mp h with rfl | hmem
    · exact fun d hd => nomatch hd
    · exact fun d hd => List.mem_cons_of_mem _ (List.mem_cons_of_mem _ (ih hmem d hd))
  | case2 a b rest hc ih =>
    rw [splitDouble, if_neg hc] at h
    obtain ⟨part', hmem, rfl | rfl⟩ := mem_of_mem_modifyHead h
    · exact List.forall_mem_cons.mpr ⟨List.mem_cons_self, fun d hd =>
        List.mem_cons_of_mem _ (ih hmem d hd)⟩
    · exact fun d hd => List.mem_cons_of_mem _ (ih hmem d hd)
  | case3 a =>
    rw [splitDouble, List.mem_singleton] at h
    rw [h]
    exact fun d hd => hd
  | case4 =>
    rw [splitDouble, List.mem_singleton] at h
    rw [h]
    exact fun d hd => hd

/-- What is in parts put together is in one of them, or between two of them. -/
theorem mem_intercalate {d : Char} (h : d ∈ [c].intercalate parts) :
    d = c ∨ ∃ part ∈ parts, d ∈ part := by
  induction parts with
  | nil => cases h
  | cons part parts ih =>
    cases parts with
    | nil =>
      rw [List.intercalate_singleton] at h
      exact .inr ⟨part, List.mem_cons_self, h⟩
    | cons part' parts =>
      rw [List.intercalate_cons_cons, List.append_assoc, List.mem_append, List.mem_append,
        List.mem_singleton] at h
      rcases h with h | h | h
      · exact .inr ⟨part, List.mem_cons_self, h⟩
      · exact .inl h
      · rcases ih h with hc | ⟨part', hmem, hd⟩
        · exact .inl hc
        · exact .inr ⟨part', List.mem_cons_of_mem _ hmem, hd⟩

theorem splitDouble_double : splitDouble c (c :: c :: rest) = [] :: splitDouble c rest := by
  rw [splitDouble, if_pos ⟨rfl, rfl⟩]

/-- What does not begin with two of the character goes to the first part. -/
theorem splitDouble_cons {a : Char} (h : a ≠ c ∨ rest.head? ≠ some c) :
    splitDouble c (a :: rest) = (splitDouble c rest).modifyHead (a :: ·) := by
  cases rest with
  | nil => rfl
  | cons b rest =>
    rw [splitDouble, if_neg]
    rintro ⟨rfl, rfl⟩
    rcases h with h | h
    · exact h rfl
    · exact h rfl

theorem splitDouble_append (h : c ∉ text) :
    splitDouble c (text ++ rest) = (splitDouble c rest).modifyHead (text ++ ·) := by
  induction text with
  | nil => exact (congrFun List.modifyHead_id _).symm
  | cons a text ih =>
    have hne : a ≠ c := fun heq => h (heq ▸ List.mem_cons_self)
    rw [List.cons_append, splitDouble_cons (.inl hne),
      ih fun hmem => h (List.mem_cons_of_mem _ hmem), List.modifyHead_modifyHead]
    rfl

/-- **Characters alone do not separate**: the parts between them stay together. -/
theorem splitDouble_intercalate (h : ∀ part ∈ parts, part ≠ [] ∧ c ∉ part) (rest : List Char) :
    splitDouble c ([c].intercalate parts ++ rest) =
      (splitDouble c rest).modifyHead ([c].intercalate parts ++ ·) := by
  induction parts with
  | nil => exact (congrFun List.modifyHead_id _).symm
  | cons part parts ih =>
    obtain ⟨hpart, hparts⟩ := List.forall_mem_cons.mp h
    cases parts with
    | nil => rw [List.intercalate_singleton, splitDouble_append hpart.2]
    | cons part' parts =>
      -- behind the character there is another part, which does not begin with it
      have hhead : ([c].intercalate (part' :: parts) ++ rest).head? ≠ some c := by
        obtain ⟨hne, hnot⟩ := hparts part' List.mem_cons_self
        obtain ⟨a, tail, rfl⟩ := List.exists_cons_of_ne_nil hne
        rw [List.intercalate_cons_cons_left]
        intro heq
        exact hnot (Option.some.inj heq ▸ List.mem_cons_self)
      rw [List.intercalate_cons_cons, List.append_assoc, List.append_assoc,
        splitDouble_append hpart.2, List.singleton_append, splitDouble_cons (.inr hhead), ih hparts,
        List.modifyHead_modifyHead, List.modifyHead_modifyHead]
      congr 1
      funext text
      simp

/-! ### Cutting and trimming -/

theorem cut_append {c : Char} {before : List Char} (h : c ∉ before) (after : List Char) :
    cut c (before ++ c :: after) = some (before, after) := by
  have hall : ∀ d ∈ before, (decide (d ≠ c)) = true := fun d hd =>
    decide_eq_true fun heq => h (heq ▸ hd)
  have htake : (before ++ c :: after).takeWhile (· ≠ c) = before := by
    rw [List.takeWhile_append_of_pos hall, List.takeWhile_cons_of_neg (by simp), List.append_nil]
  have hdrop : (before ++ c :: after).dropWhile (· ≠ c) = c :: after := by
    rw [List.dropWhile_append_of_pos hall, List.dropWhile_cons_of_neg (by simp)]
  rw [cut, if_pos (List.mem_append_right _ List.mem_cons_self), htake, hdrop]
  rfl

/-- White space around a text that has none goes. -/
theorem trim_append {pad text pad' : List Char} (hpad : ∀ c ∈ pad, isWhite c = true)
    (htext : ∀ c ∈ text, isWhite c = false) (hpad' : ∀ c ∈ pad', isWhite c = true) :
    trim (pad ++ text ++ pad') = text := by
  -- no blank in the text, so dropping from the right stops at its end
  have hright : (text ++ pad').rdropWhile isWhite = text := by
    induction pad' using List.reverseRecOn with
    | nil =>
      rw [List.append_nil, List.rdropWhile_eq_self_iff]
      intro hne hlast
      rw [htext _ (List.getLast_mem hne)] at hlast
      cases hlast
    | append_singleton pad' c ih =>
      rw [← List.append_assoc, List.rdropWhile_concat_pos _ _ _
        (hpad' c (List.mem_append_right _ List.mem_cons_self))]
      exact ih fun d hd => hpad' d (List.mem_append_left _ hd)
  rw [trim, List.append_assoc, List.dropWhile_append_of_pos hpad]
  cases text with
  | nil =>
    have hall : pad'.dropWhile isWhite = [] := List.dropWhile_eq_nil_iff.mpr hpad'
    rw [List.nil_append, hall]
    rfl
  | cons c text =>
    rw [List.cons_append, List.dropWhile_cons_of_neg
      (by rw [htext c List.mem_cons_self]; exact Bool.false_ne_true), ← List.cons_append]
    exact hright

/-- White space before a text goes, -/
theorem trim_append_left {pad : List Char} (hpad : ∀ c ∈ pad, isWhite c = true)
    (text : List Char) : trim (pad ++ text) = trim text := by
  rw [trim, trim, List.dropWhile_append_of_pos hpad]

/-- and what is trimmed stays so behind other characters. -/
theorem trim_append_of_trim {front text : List Char} (hne : front ≠ [])
    (hfront : ∀ c ∈ front, isWhite c = false) (htrim : trim text = text) :
    trim (front ++ text) = front ++ text := by
  have hdrop : (front ++ text).dropWhile isWhite = front ++ text := by
    obtain ⟨c, rest, rfl⟩ := List.exists_cons_of_ne_nil hne
    rw [List.cons_append, List.dropWhile_cons_of_neg]
    rw [hfront c List.mem_cons_self]
    exact Bool.false_ne_true
  rw [trim, hdrop, List.rdropWhile_eq_self_iff]
  intro happend hwhite
  cases htext : text with
  | nil =>
    simp only [htext, List.append_nil] at hwhite
    rw [hfront _ (List.getLast_mem hne)] at hwhite
    cases hwhite
  | cons c rest =>
    -- the last character is the text's, and trimming left it there
    have hnil : text ≠ [] := by rw [htext]; exact List.cons_ne_nil c rest
    rw [List.getLast_append_of_ne_nil happend hnil] at hwhite
    have hlast : ∀ l : List Char, l = text → ∀ h : l ≠ [], isWhite (l.getLast h) = true := by
      rintro _ rfl _
      exact hwhite
    exact List.rdropWhile_last_not isWhite (text.dropWhile isWhite) (by rwa [← trim, htrim])
      (hlast _ htrim _)

/-- What is left of a text was in it. -/
theorem mem_of_mem_trim {text : List Char} {c : Char} (h : c ∈ trim text) : c ∈ text :=
  (List.dropWhile_suffix _).subset ((List.rdropWhile_prefix _ _).subset h)

end Text

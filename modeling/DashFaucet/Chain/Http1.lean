import Mathlib.Algebra.Group.Int.Defs
import DashFaucet.Chain.Socket

/-!
# HTTP responses are read whole or not at all

`readResponse` cuts the bytes it has gathered at places it searches for. What it finds does not
depend on how the bytes came in, and what a truncation takes away is either missed or not needed.

* `Ends`: a separator that first occurs behind a line. `indexOf_append` finds it there, and
  `indexOf_prefix` finds it there or nowhere in a truncated text.
* `Head`, `Chunk`, `Chunked`, `Framing`: the responses in question, and their bytes.
* `dechunk_chunked`, `dechunk_prefix`: the chunks, whole and truncated.
* `parseHead_head`: the status and the fields of a head.
* `readResponse_exact`: responses whole and truncated.
-/

namespace DashFaucet.Socket

/-! ### Searching -/

section

variable {haystack needle line : List ℕ} {start i : ℕ}

theorem indexOf_eq_some_iff (hne : needle ≠ []) : indexOf haystack needle start = some i ↔
    start ≤ i ∧ needle <+: haystack.drop i ∧
      ∀ j, start ≤ j → j < i → ¬needle <+: haystack.drop j := by
  rw [indexOf, List.find?_range'_eq_some, List.isPrefixOf_iff_prefix, List.mem_range'_1]
  constructor
  · rintro ⟨hat, ⟨hstart, -⟩, hbefore⟩
    refine ⟨hstart, hat, fun j hj hji hpre => ?_⟩
    have hno := hbefore j hj hji
    rw [List.isPrefixOf_iff_prefix.mpr hpre] at hno
    cases hno
  · rintro ⟨hstart, hat, hbefore⟩
    -- an occurrence ends within the text
    have hlen := hat.length_le
    have hpos := List.length_pos_iff.mpr hne
    rw [List.length_drop] at hlen
    refine ⟨hat, ⟨hstart, by omega⟩, fun j hj hji => ?_⟩
    rw [Bool.not_eq_true', ← Bool.not_eq_true, List.isPrefixOf_iff_prefix]
    exact hbefore j hj hji

theorem indexOf_eq_none_iff (hne : needle ≠ []) : indexOf haystack needle start = none ↔
    ∀ j, start ≤ j → ¬needle <+: haystack.drop j := by
  constructor
  · intro h j hj hpre
    have hlen := hpre.length_le
    have hpos := List.length_pos_iff.mpr hne
    rw [List.length_drop] at hlen
    have hno := List.find?_range'_eq_none.mp h j hj (by omega)
    rw [List.isPrefixOf_iff_prefix.mpr hpre] at hno
    cases hno
  · intro h
    rw [Option.eq_none_iff_forall_ne_some]
    intro i hi
    obtain ⟨hstart, hat, -⟩ := (indexOf_eq_some_iff hne).mp hi
    exact h i hstart hat

/-- Behind `line`, `needle` occurs for the first time. -/
def Ends (needle line : List ℕ) : Prop := ∀ i < line.length, ¬needle <+: (line ++ needle).drop i

/-- An occurrence that starts within the line would be one in front of its end. -/
theorem Ends.not_prefix (h : Ends needle line) (rest : List ℕ) (hi : i < line.length) :
    ¬needle <+: (line ++ needle ++ rest).drop i := by
  intro hpre
  have hlen : i ≤ (line ++ needle).length := by
    rw [List.length_append]
    omega
  rw [List.drop_append_of_le_length hlen] at hpre
  refine h i hi (List.prefix_of_prefix_length_le hpre (List.prefix_append _ _) ?_)
  rw [List.length_drop, List.length_append]
  omega

/-- **A separator is found behind its line**, wherever the line stands. -/
theorem indexOf_append (h : Ends needle line) (hne : needle ≠ []) (before rest : List ℕ) :
    indexOf (before ++ (line ++ needle ++ rest)) needle before.length =
      some (before.length + line.length) := by
  rw [indexOf_eq_some_iff hne]
  refine ⟨Nat.le_add_right _ _, ?_, fun j hj hji hpre => ?_⟩
  · rw [List.drop_length_add_append, List.append_assoc, List.drop_left]
    exact List.prefix_append _ _
  · obtain ⟨k, rfl⟩ := Nat.exists_eq_add_of_le hj
    rw [List.drop_length_add_append] at hpre
    exact h.not_prefix rest (by omega) hpre

/-- **In a truncated text a separator is found in its place, or not at all.** -/
theorem indexOf_prefix (h : Ends needle line) (hne : needle ≠ []) (before : List ℕ)
    {text rest : List ℕ} (htext : text <+: line ++ needle ++ rest) :
    indexOf (before ++ text) needle before.length = none ∨
      ∃ rest', text = line ++ needle ++ rest' ∧ rest' <+: rest := by
  by_cases hlen : (line ++ needle).length ≤ text.length
  · right
    obtain ⟨rest', rfl⟩ := List.prefix_of_prefix_length_le (List.prefix_append _ rest) htext hlen
    exact ⟨rest', rfl, (List.prefix_append_right_inj _).mp htext⟩
  · left
    rw [indexOf_eq_none_iff hne]
    intro j hj hpre
    obtain ⟨k, rfl⟩ := Nat.exists_eq_add_of_le hj
    rw [List.drop_length_add_append] at hpre
    have hfits := hpre.length_le
    have hpos := List.length_pos_iff.mpr hne
    rw [List.length_append] at hlen
    rw [List.length_drop] at hfits
    -- what stands in the prefix stands in the whole
    have hwhole : needle <+: (line ++ needle ++ rest).drop k := by
      obtain ⟨more, hmore⟩ := htext
      rw [← hmore, List.drop_append_of_le_length (by omega)]
      exact hpre.trans (List.prefix_append _ _)
    exact h.not_prefix rest (by omega) hwhole

end

/-! ### Chunks -/

theorem crlf_ne_nil : crlf ≠ [] := List.cons_ne_nil _ _

/-- A line without a line break in it ends at the first one. -/
theorem ends_crlf {line : List ℕ} (h : ¬crlf <:+: line) : Ends crlf line := by
  intro i hi hpre
  rw [List.drop_append_of_le_length hi.le] at hpre
  have hlen : (line.drop i).length = line.length - i := List.length_drop
  match hrest : line.drop i, hpre with
  | [], _ =>
    rw [hrest] at hlen
    simp only [List.length_nil] at hlen
    omega
  | [c], hpre =>
    -- the second half of a break is not its first
    obtain ⟨-, hsecond⟩ := List.cons_prefix_cons.mp hpre
    exact absurd (List.cons_prefix_cons.mp hsecond).1 (by decide)
  | c :: d :: rest, hpre =>
    obtain ⟨hc, hsecond⟩ := List.cons_prefix_cons.mp hpre
    have hd := (List.cons_prefix_cons.mp hsecond).1
    refine h ⟨line.take i, rest, ?_⟩
    rw [List.append_assoc]
    calc line.take i ++ (crlf ++ rest) = line.take i ++ line.drop i := by
          rw [hrest, ← hc, ← hd]
          rfl
      _ = line := List.take_append_drop i line

/-- Where the hexadecimal digits are. -/
theorem hexValue_bounds {c : Char} (h : (hexValue c).isSome = true) :
    48 ≤ c.toNat ∧ c.toNat ≤ 102 := by
  unfold hexValue Char.toLower at h
  split at h
  · -- a capital, which is read as its small letter
    next hupper =>
    have hlow : ('A').toNat ≤ c.toNat := hupper.1
    have hhigh : c.toNat ≤ ('Z').toNat := hupper.2
    exact ⟨le_trans (by decide) hlow, le_trans hhigh (by decide)⟩
  · dsimp only at h
    split at h
    · next hdigit =>
      rw [Char.isDigit, Bool.and_eq_true, decide_eq_true_eq, decide_eq_true_eq] at hdigit
      have hlow : ('0').toNat ≤ c.toNat := hdigit.1
      have hhigh : c.toNat ≤ ('9').toNat := hdigit.2
      exact ⟨hlow, le_trans hhigh (by decide)⟩
    split at h
    · next hletter =>
      have hlow : ('a').toNat ≤ c.toNat := hletter.1
      have hhigh : c.toNat ≤ ('f').toNat := hletter.2
      exact ⟨le_trans (by decide) hlow, hhigh⟩
    · cases h

/-- The line in front of a chunk: digits that say a size, white space, and an extension. -/
structure SizeLine (size : ℕ) where
  digits : List Char
  pad : List Char
  /-- What follows the digits and the space: nothing, or anything after a semicolon. -/
  extension : List ℕ
  isHex_digits : isHex digits = true
  parse_digits : parseHex digits = size
  pad_white : ∀ c ∈ pad, Text.isWhite c = true
  extension_eq : extension = [] ∨ ∃ rest, extension = Utf8.encode [';'] ++ rest
  no_break : ¬crlf <:+: Utf8.encode (digits ++ pad) ++ extension

namespace SizeLine

variable {size : ℕ} (line : SizeLine size)

/-- Its bytes, without the line break. -/
def bytes : List ℕ := Utf8.encode (line.digits ++ line.pad) ++ line.extension

theorem ends : Ends crlf line.bytes := ends_crlf line.no_break

/-- The digits of a size are no white space, no semicolon, and no byte order mark. -/
theorem hexDigit_plain {c : Char} (h : (hexValue c).isSome = true) :
    Text.isWhite c = false ∧ c ≠ ';' ∧ c ≠ '\uFEFF' := by
  refine ⟨?_, ?_, ?_⟩
  · rw [← Bool.not_eq_true]
    intro hwhite
    have hbounds := Text.isWhite_bounds hwhite
    have hdigit := hexValue_bounds h
    omega
  · rintro rfl
    cases h
  · rintro rfl
    cases h

/-- What `dechunk` reads of it. -/
theorem sizeText : Text.trim ((Utf8.decode line.bytes).takeWhile (· ≠ ';')) = line.digits := by
  have hdigits : ∀ c ∈ line.digits, (hexValue c).isSome = true := by
    have hhex := line.isHex_digits
    rw [isHex, Bool.and_eq_true, List.all_eq_true] at hhex
    exact hhex.2
  have hscan : Utf8.scan none line.bytes =
      line.digits ++ line.pad ++ Utf8.scan none line.extension := Utf8.scan_encode _ _
  have hdecode : Utf8.decode line.bytes = Utf8.scan none line.bytes := by
    have hhex := line.isHex_digits
    cases hcs : line.digits with
    | nil =>
      rw [hcs] at hhex
      cases hhex
    | cons c cs =>
      -- the text starts with a digit
      have hc := (hexDigit_plain (hdigits c (by rw [hcs]; exact List.mem_cons_self))).2.2
      rw [Utf8.decode, hscan, hcs]
      split
      · next heq => exact absurd (List.cons.inj heq).1 hc
      · rfl
  have htake : (Utf8.decode line.bytes).takeWhile (· ≠ ';') = line.digits ++ line.pad := by
    have hplain : ∀ c ∈ line.digits ++ line.pad, decide (c ≠ ';') = true := by
      intro c hc
      rcases List.mem_append.mp hc with hc | hc
      · exact decide_eq_true (hexDigit_plain (hdigits c hc)).2.1
      · refine decide_eq_true ?_
        rintro rfl
        cases line.pad_white _ hc
    rw [hdecode, hscan, List.takeWhile_append_of_pos hplain]
    rcases line.extension_eq with hext | ⟨rest, hext⟩
    · rw [hext]
      exact List.append_nil _
    · rw [hext, Utf8.scan_encode, List.cons_append, List.takeWhile_cons_of_neg (by decide),
        List.append_nil]
  rw [htake]
  exact Text.trim_append (fun c hc => absurd hc List.not_mem_nil)
    (fun c hc => (hexDigit_plain (hdigits c hc)).1) line.pad_white

end SizeLine

/-- **One round of the loop**: the size line, and what it leads to. -/
theorem dechunk_line {size : ℕ} (line : SizeLine size) (before rest : List ℕ) :
    dechunk (before ++ (line.bytes ++ crlf ++ rest)) before.length =
      if size = 0 then .ok []
      else if rest.length < size then .error "truncated chunked body"
      else (dechunk (before ++ (line.bytes ++ crlf ++ rest))
        (before.length + line.bytes.length + 2 + size + 2)).map (rest.take size ++ ·) := by
  have hfound := indexOf_append line.ends crlf_ne_nil before rest
  have hline : ((before ++ (line.bytes ++ crlf ++ rest)).drop before.length).take
      (before.length + line.bytes.length - before.length) = line.bytes := by
    rw [List.drop_left, List.append_assoc, Nat.add_sub_cancel_left, List.take_left]
  have hrest : (before ++ (line.bytes ++ crlf ++ rest)).drop
      (before.length + line.bytes.length + 2) = rest := by
    rw [Nat.add_assoc, List.drop_length_add_append]
    have hbreak : line.bytes.length + 2 = (line.bytes ++ crlf).length := by
      rw [List.length_append]
      rfl
    rw [hbreak, List.drop_left]
  have hlen : (before ++ (line.bytes ++ crlf ++ rest)).length =
      before.length + line.bytes.length + 2 + rest.length := by
    simp only [List.length_append, crlf, List.length_cons, List.length_nil]
    omega
  -- with the line found, its size read and the rest cut off, the definition says the rest
  rw [dechunk]
  split
  · next hnone =>
    rw [hfound] at hnone
    cases hnone
  next lineEnd hsome =>
    rw [hfound] at hsome
    cases hsome
    dsimp only
    rw [hline, line.sizeText, if_neg (by rw [line.isHex_digits]; exact Bool.noConfusion),
      line.parse_digits, hrest, hlen]
    split
    · rfl
    · refine if_congr ?_ rfl rfl
      omega

/-- A chunk with something in it. -/
structure Chunk where
  data : List ℕ
  data_ne : data ≠ []
  line : SizeLine data.length

/-- Its bytes, and the line break after it. -/
def Chunk.bytes (chunk : Chunk) : List ℕ := chunk.line.bytes ++ crlf ++ (chunk.data ++ crlf)

/-- A chunked body: the chunks, the line of the empty one, and what may follow it. -/
structure Chunked where
  chunks : List Chunk
  last : SizeLine 0
  trailer : List ℕ

def Chunked.bytes (body : Chunked) : List ℕ :=
  body.chunks.flatMap Chunk.bytes ++ (body.last.bytes ++ crlf ++ body.trailer)

def Chunked.data (body : Chunked) : List ℕ := body.chunks.flatMap Chunk.data

/-- The first chunk, and the body behind it. -/
theorem Chunked.bytes_cons (chunk : Chunk) (chunks : List Chunk) (last : SizeLine 0)
    (trailer : List ℕ) : Chunked.bytes ⟨chunk :: chunks, last, trailer⟩ =
      chunk.line.bytes ++ crlf ++
        (chunk.data ++ (crlf ++ Chunked.bytes ⟨chunks, last, trailer⟩)) := by
  simp only [Chunked.bytes, Chunk.bytes, List.flatMap_cons, List.append_assoc]

/-- Where the loop goes on behind a chunk. -/
theorem Chunk.next (chunk : Chunk) (before text : List ℕ) :
    dechunk (before ++ (chunk.line.bytes ++ crlf ++ (chunk.data ++ (crlf ++ text))))
      (before.length + chunk.line.bytes.length + 2 + chunk.data.length + 2) =
    dechunk ((before ++ chunk.bytes) ++ text) (before ++ chunk.bytes).length := by
  have htext : before ++ (chunk.line.bytes ++ crlf ++ (chunk.data ++ (crlf ++ text))) =
      (before ++ chunk.bytes) ++ text := by
    simp only [Chunk.bytes, List.append_assoc]
  have hpos : before.length + chunk.line.bytes.length + 2 + chunk.data.length + 2 =
      (before ++ chunk.bytes).length := by
    simp only [Chunk.bytes, List.length_append, crlf, List.length_cons, List.length_nil]
    omega
  rw [htext, hpos]

/-- **Chunks are put together again**, wherever they start. -/
theorem dechunk_chunked (body : Chunked) (before : List ℕ) :
    dechunk (before ++ body.bytes) before.length = .ok body.data := by
  obtain ⟨chunks, last, trailer⟩ := body
  -- chunk by chunk, from behind the line break of the one before
  induction chunks generalizing before with
  | nil => exact dechunk_line last before trailer
  | cons chunk chunks ih =>
    -- the size line is found, and the chunk is all there
    have hfits : ¬(chunk.data ++ (crlf ++ Chunked.bytes ⟨chunks, last, trailer⟩)).length <
        chunk.data.length := by
      rw [List.length_append]
      omega
    rw [Chunked.bytes_cons, dechunk_line, if_neg (List.length_pos_iff.mpr chunk.data_ne).ne',
      if_neg hfits, chunk.next, ih, List.take_left]
    rfl

/-- Without a line break there is no chunk. -/
theorem dechunk_none {data : List ℕ} {pos : ℕ} (h : indexOf data crlf pos = none) :
    dechunk data pos = .error "truncated chunked body" := by
  rw [dechunk]
  split
  · rfl
  · next hsome =>
    rw [h] at hsome
    cases hsome

/-- What starts with a list and is long enough has all of it. -/
theorem exists_append_of_prefix {text line rest : List ℕ} (h : text <+: line ++ rest)
    (hlen : line.length ≤ text.length) : ∃ rest', text = line ++ rest' ∧ rest' <+: rest := by
  obtain ⟨rest', rfl⟩ := List.prefix_of_prefix_length_le (List.prefix_append _ rest) h hlen
  exact ⟨rest', rfl, (List.prefix_append_right_inj _).mp h⟩

/-- **Truncated chunks are missed, or were not needed.** -/
theorem dechunk_prefix (body : Chunked) (before : List ℕ) {text : List ℕ}
    (htext : text <+: body.bytes) :
    (∃ reason, dechunk (before ++ text) before.length = .error reason) ∨
      dechunk (before ++ text) before.length = .ok body.data := by
  obtain ⟨chunks, last, trailer⟩ := body
  induction chunks generalizing before text with
  | nil =>
    rcases indexOf_prefix last.ends crlf_ne_nil before htext with hnone | ⟨rest, rfl, -⟩
    · exact .inl ⟨_, dechunk_none hnone⟩
    · exact .inr (dechunk_line last before rest)
  | cons chunk chunks ih =>
    rw [Chunked.bytes_cons] at htext
    -- the text ends in the size line, in the chunk, in its line break or behind it
    rcases indexOf_prefix chunk.line.ends crlf_ne_nil before htext with hnone | ⟨rest, rfl, hrest⟩
    · exact .inl ⟨_, dechunk_none hnone⟩
    -- a chunk that is not the last has data
    rw [dechunk_line, if_neg (List.length_pos_iff.mpr chunk.data_ne).ne']
    split
    · exact .inl ⟨_, rfl⟩
    next hlen =>
      obtain ⟨rest, rfl, hbehind⟩ := exists_append_of_prefix hrest (not_lt.mp hlen)
      rw [List.take_left]
      by_cases hbreak : crlf.length ≤ rest.length
      · obtain ⟨text, rfl, htail⟩ := exists_append_of_prefix hbehind hbreak
        rw [chunk.next]
        rcases ih (before ++ chunk.bytes) htail with ⟨reason, herror⟩ | hok
        · exact .inl ⟨reason, by rw [herror]; rfl⟩
        · exact .inr (by rw [hok]; rfl)
      · -- the text ends before the break, and the search starts behind its end
        left
        refine ⟨"truncated chunked body", ?_⟩
        rw [dechunk_none]
        · rfl
        · rw [indexOf_eq_none_iff crlf_ne_nil]
          intro j hj hpre
          have hfits := hpre.length_le
          simp only [List.length_drop, List.length_append, crlf, List.length_cons,
            List.length_nil] at hfits hbreak
          omega

/-! ### The head -/

/-- A field of the head, by its name and what follows the colon. -/
structure Field where
  name : List Char
  text : List Char
  name_ne : name ≠ []
  name_token : ∀ c ∈ name, Headers.isToken c = true
  text_value : ∀ c ∈ text, Headers.isValue c = true

namespace Field

variable (field : Field)

def line : List Char := field.name ++ ':' :: field.text

/-- The field as `Headers` keeps it. -/
def header : List Char × List Char := (field.name.map Char.toLower, Text.trim field.text)

/-- The characters of a name are visible ASCII. -/
theorem isToken_bounds {c : Char} (h : Headers.isToken c = true) :
    33 ≤ c.toNat ∧ c.toNat < 128 := by
  rw [Headers.isToken, Bool.or_eq_true] at h
  rcases h with halnum | hmem
  · delta Char.isAlphanum Char.isAlpha Char.isUpper Char.isLower Char.isDigit at halnum
    simp only [Bool.or_eq_true, Bool.and_eq_true, decide_eq_true_eq] at halnum
    have hval : c.toNat = c.val.toNat := rfl
    simp only [UInt32.le_iff_toNat_le, ge_iff_le] at halnum
    simp only [show ('A').val.toNat = 65 from rfl, show ('Z').val.toNat = 90 from rfl,
      show ('a').val.toNat = 97 from rfl, show ('z').val.toNat = 122 from rfl,
      show ('0').val.toNat = 48 from rfl, show ('9').val.toNat = 57 from rfl] at halnum
    omega
  · refine (List.all_iff_forall_prop (p := fun c => 33 ≤ c.toNat ∧ c.toNat < 128)).mp ?_ c
      (List.contains_iff_mem.mp hmem)
    decide

theorem addHeader_line (headers : Headers) :
    addHeader headers field.line = .ok (headers ++ [field.header]) := by
  have hcolon : ':' ∉ field.name := fun hmem => by cases field.name_token _ hmem
  have htrim : Text.trim field.name = field.name := by
    have hplain : ∀ c ∈ field.name, Text.isWhite c = false := by
      intro c hc
      rw [← Bool.not_eq_true]
      intro hwhite
      have htoken := isToken_bounds (field.name_token c hc)
      have hbounds := Text.isWhite_bounds hwhite
      omega
    have h := @Text.trim_append [] _ [] (fun c hc => absurd hc List.not_mem_nil) hplain
      fun c hc => absurd hc List.not_mem_nil
    rwa [List.nil_append, List.append_nil] at h
  rw [addHeader, line, Text.cut_append hcolon]
  dsimp only
  rw [if_neg field.name_ne, htrim, Headers.append_eq field.name_ne field.name_token
    fun c hc => field.text_value c (Text.mem_of_mem_trim hc)]
  rfl

end Field

/-- The head of a response, as text: a version, a status, what follows it, and the fields. -/
structure Head where
  minor : Char
  code : List Char
  reason : List Char
  fields : List Field
  minor_eq : minor = '0' ∨ minor = '1'
  code_decimal : Text.isDecimal code = true
  reason_eq : reason = [] ∨ ∃ words, reason = ' ' :: words
  reason_line : '\r' ∉ reason

namespace Head

variable (head : Head)

def version : List Char := ['H', 'T', 'T', 'P', '/', '1', '.', head.minor]

def statusLine : List Char := head.version ++ ' ' :: (head.code ++ head.reason)

def lines : List (List Char) := head.statusLine :: head.fields.map Field.line

/-- Its bytes, without the empty line. -/
def bytes : List ℕ := Utf8.encode (['\r', '\n'].intercalate head.lines)

def status : ℕ := Text.decimal head.code

def headers : Headers := head.fields.map Field.header

theorem digit_of_mem_code {c : Char} (hc : c ∈ head.code) : c.isDigit = true := by
  have hdecimal := head.code_decimal
  rw [Text.isDecimal, Bool.and_eq_true, List.all_eq_true] at hdecimal
  exact hdecimal.2 c hc

/-- Its lines are not empty, and none has a carriage return in it. -/
theorem line_of_mem_lines {line : List Char} (hline : line ∈ head.lines) :
    line ≠ [] ∧ '\r' ∉ line := by
  -- the status line, or one of the fields
  rcases List.mem_cons.mp hline with rfl | hfield
  · refine ⟨List.cons_ne_nil _ _, fun hmem => ?_⟩
    rcases List.mem_append.mp hmem with hversion | hbehind
    · rw [version] at hversion
      rcases head.minor_eq with hminor | hminor <;>
      · rw [hminor] at hversion
        revert hversion
        decide
    rcases List.mem_cons.mp hbehind with heq | hbehind
    · cases heq
    rcases List.mem_append.mp hbehind with hcode | hreason
    · cases head.digit_of_mem_code hcode
    · exact head.reason_line hreason
  · obtain ⟨field, -, rfl⟩ := List.mem_map.mp hfield
    refine ⟨List.append_ne_nil_of_right_ne_nil _ (List.cons_ne_nil _ _), fun hmem => ?_⟩
    rcases List.mem_append.mp hmem with hname | htext
    · cases field.name_token _ hname
    rcases List.mem_cons.mp htext with heq | htext
    · cases heq
    · cases field.text_value _ htext

/-- The text of the head is read as it is. -/
theorem decode_bytes : Utf8.decode head.bytes = ['\r', '\n'].intercalate head.lines := by
  refine Utf8.decode_encode ?_
  rw [lines]
  cases head.fields.map Field.line with
  | nil =>
    rw [List.intercalate_singleton]
    exact fun h => absurd (Option.some.inj h) (by decide)
  | cons line lines =>
    rw [List.intercalate_cons_cons]
    exact fun h => absurd (Option.some.inj h) (by decide)

theorem splitOn_statusLine :
    ∃ words, head.statusLine.splitOn ' ' = head.version :: head.code :: words := by
  have hversion : ' ' ∉ head.version := by
    rw [version]
    rcases head.minor_eq with hminor | hminor <;>
    · rw [hminor]
      decide
  have hcode : ' ' ∉ head.code := fun hmem => by cases head.digit_of_mem_code hmem
  rw [statusLine, List.splitOn_append_cons_self_of_not_mem hversion]
  rcases head.reason_eq with hreason | ⟨words, hreason⟩
  · refine ⟨[], ?_⟩
    rw [hreason, List.append_nil, List.splitOn_eq_singleton hcode]
  · refine ⟨words.splitOn ' ', ?_⟩
    rw [hreason, List.splitOn_append_cons_self_of_not_mem hcode]

/-- The fields come out in their order. -/
theorem foldlM_addHeader (fields : List Field) (headers : Headers) :
    (fields.map Field.line).foldlM addHeader headers =
      .ok (headers ++ fields.map Field.header) := by
  induction fields generalizing headers with
  | nil =>
    rw [List.map_nil, List.map_nil, List.append_nil]
    rfl
  | cons field fields ih =>
    calc ((field :: fields).map Field.line).foldlM addHeader headers
        = (addHeader headers field.line).bind
            fun headers => (fields.map Field.line).foldlM addHeader headers := rfl
      _ = (fields.map Field.line).foldlM addHeader (headers ++ [field.header]) := by
          rw [field.addHeader_line]
          rfl
      _ = .ok (headers ++ (field :: fields).map Field.header) := by
          rw [ih, List.append_assoc]
          rfl

/-- **A head is read back**: its status, and its fields. -/
theorem parseHead_bytes {number : List Char → Option ℤ}
    (hnumber : number head.code = some (head.status : ℤ)) :
    parseHead number head.bytes = .ok ((head.status : ℤ), head.headers) := by
  obtain ⟨words, hwords⟩ := head.splitOn_statusLine
  have hversion : head.version = "HTTP/1.0".toList ∨ head.version = "HTTP/1.1".toList :=
    head.minor_eq.imp (fun h => by rw [version, h]; rfl) (fun h => by rw [version, h]; rfl)
  have hlines : Text.splitCrlf (['\r', '\n'].intercalate head.lines) = head.lines :=
    Text.splitCrlf_intercalate (List.cons_ne_nil _ _) fun line hline =>
      (head.line_of_mem_lines hline).2
  rw [parseHead, head.decode_bytes, hlines, lines]
  dsimp only
  rw [hwords]
  dsimp only [List.head?_cons, List.getElem?_cons_succ, List.getElem?_cons_zero, Option.bind_some]
  rw [hnumber]
  dsimp only
  rw [if_pos hversion, foldlM_addHeader]
  rfl

/-- Behind lines that are not empty and have no carriage return in them, the empty line is the
first one. -/
theorem ends_lines {lines : List (List ℕ)} (h : ∀ line ∈ lines, line ≠ [] ∧ 13 ∉ line) :
    Ends (crlf ++ crlf) (crlf.intercalate lines) := by
  induction lines with
  | nil => exact fun i hi => absurd hi (Nat.not_lt_zero i)
  | cons line lines ih =>
    obtain ⟨hne, hline⟩ := h line List.mem_cons_self
    -- within a line there is no carriage return
    have hwithin : ∀ (rest : List ℕ), ∀ i < line.length,
        ¬crlf ++ crlf <+: (line ++ rest).drop i := by
      intro rest i hi hpre
      rw [List.drop_append_of_le_length hi.le, List.drop_eq_getElem_cons hi] at hpre
      have hfirst := (List.cons_prefix_cons.mp hpre).1
      exact hline (hfirst ▸ List.getElem_mem hi)
    cases lines with
    | nil =>
      rw [List.intercalate_singleton]
      exact fun i hi => hwithin _ i hi
    | cons next lines =>
      have hlines := ih fun l hl => h l (List.mem_cons_of_mem _ hl)
      obtain ⟨hnext, hplain⟩ := h next (List.mem_cons_of_mem _ List.mem_cons_self)
      rw [List.intercalate_cons_cons]
      intro i hi
      rw [List.append_assoc, List.append_assoc]
      rcases Nat.lt_or_ge i line.length with hi' | hi'
      · exact hwithin _ i hi'
      obtain ⟨k, rfl⟩ := Nat.exists_eq_add_of_le hi'
      rw [List.drop_length_add_append]
      match k with
      | 0 =>
        -- one line break, and then a line that is not empty
        intro hpre
        have hbehind : crlf <+: crlf.intercalate (next :: lines) ++ (crlf ++ crlf) :=
          (List.prefix_append_right_inj crlf).mp hpre
        have hstart : ∃ rest,
            crlf.intercalate (next :: lines) ++ (crlf ++ crlf) = next ++ rest := by
          cases lines with
          | nil => exact ⟨crlf ++ crlf, by rw [List.intercalate_singleton]⟩
          | cons next' lines =>
            rw [List.intercalate_cons_cons, List.append_assoc, List.append_assoc]
            exact ⟨_, rfl⟩
        obtain ⟨rest, hrest⟩ := hstart
        rw [hrest] at hbehind
        cases next with
        | nil => exact hnext rfl
        | cons b next =>
          rw [← (List.cons_prefix_cons.mp hbehind).1] at hplain
          exact hplain List.mem_cons_self
      | 1 => exact fun hpre => absurd (List.cons_prefix_cons.mp hpre).1 (by decide)
      | k + 2 =>
        refine hlines k ?_
        simp only [List.length_append, crlf, List.length_cons, List.length_nil] at hi ⊢
        omega

/-- The empty line is behind the head. -/
theorem ends : Ends (crlf ++ crlf) head.bytes := by
  have hbytes : ∀ lines : List (List Char),
      Utf8.encode (['\r', '\n'].intercalate lines) = crlf.intercalate (lines.map Utf8.encode) := by
    intro lines
    induction lines with
    | nil => rfl
    | cons line lines ih =>
      cases lines with
      | nil => rw [List.intercalate_singleton, List.map_singleton, List.intercalate_singleton]
      | cons next lines =>
        rw [List.intercalate_cons_cons, Utf8.encode_append, Utf8.encode_append, ih]
        simp only [List.map_cons, List.intercalate_cons_cons]
        rfl
  rw [bytes, hbytes]
  refine ends_lines fun bs hbs => ?_
  obtain ⟨line, hmem, rfl⟩ := List.mem_map.mp hbs
  obtain ⟨hne, hplain⟩ := head.line_of_mem_lines hmem
  refine ⟨fun hnil => hne (Utf8.encode_injective hnil), fun hcr => ?_⟩
  exact hplain (Utf8.mem_of_mem_encode hcr (by decide))

end Head

/-! ### The body -/

/-- A body whose end shows: by its length, or in chunks. -/
inductive Delimited (headers : Headers) (body : List ℕ) : List ℕ → Prop
  | length {value : List Char} (encoding : headers.get "transfer-encoding" = none)
      (length : headers.get "content-length" = some value)
      (isDecimal_value : Text.isDecimal value = true)
      (decimal_value : Text.decimal value = body.length) : Delimited headers body body
  | chunked {value : List Char} (encoding : headers.get "transfer-encoding" = some value)
      (isChunked_value : isChunked value = true) (chunks : Chunked)
      (data_chunks : chunks.data = body) : Delimited headers body chunks.bytes

/-- What follows the head of a response with this body. -/
inductive Framed (headers : Headers) (body : List ℕ) : List ℕ → Prop
  | delimited {payload : List ℕ} (h : Delimited headers body payload) :
      Framed headers body payload
  | closed (encoding : headers.get "transfer-encoding" = none)
      (length : headers.get "content-length" = none) : Framed headers body body

/-- `Number` of digits is the number they stand for, as long as all numbers up to it are there. -/
structure ReadsDigits (number : List Char → Option ℤ) : Prop where
  exact_of_lt : ∀ text, Text.isDecimal text = true → Text.decimal text < 2 ^ 53 →
    number text = some (Text.decimal text : ℤ)
  le_of_le : ∀ text n, Text.isDecimal text = true → 2 ^ 53 ≤ Text.decimal text →
    number text = some n → 2 ^ 53 ≤ n

section

variable {number : List Char → Option ℤ} {headers : Headers} {body payload : List ℕ}

/-- **A delimited body that is truncated is missed**, or nothing of it was lost. -/
theorem readBody_prefix (hnumber : ReadsDigits number) (h : Delimited headers body payload)
    {text : List ℕ} (htext : text <+: payload) (hlen : text.length < 2 ^ 53) :
    (∃ reason, readBody number headers text = .error reason) ∨
      readBody number headers text = .ok (body, headers.delete "transfer-encoding") := by
  cases h with
  | @length value hencoding hlength hdecimal hvalue =>
    rw [readBody, hencoding, if_neg (by decide), hlength, headers.delete_of_get_none hencoding]
    dsimp only
    rw [if_neg (by rw [hdecimal]; exact Bool.noConfusion)]
    cases hn : number value with
    | none => exact .inl ⟨_, rfl⟩
    | some n =>
      dsimp only
      split
      · exact .inl ⟨_, rfl⟩
      next hfits =>
        right
        rcases Nat.lt_or_ge body.length (2 ^ 53) with hsmall | hlarge
        · -- as much as the whole body, so it is the whole body
          rw [hnumber.exact_of_lt value hdecimal (hvalue ▸ hsmall), hvalue] at hn
          cases hn
          rw [List.IsPrefix.eq_of_length_le htext (by omega), Int.toNat_natCast, List.take_length]
        · -- a length past all safe integers is more than the text can hold
          have hn' := hnumber.le_of_le value n hdecimal (hvalue ▸ hlarge) hn
          omega
  | @chunked value hencoding hchunked chunks hdata =>
    rw [readBody, hencoding, Option.getD_some, if_pos hchunked]
    rcases dechunk_prefix chunks [] htext with ⟨reason, herror⟩ | hok
    · exact .inl ⟨reason, congrArg (Except.map _) herror⟩
    · exact .inr (hdata ▸ congrArg (Except.map _) hok)

/-- **A body is read back**, however it is framed. -/
theorem readBody_framed (hnumber : ReadsDigits number) (h : Framed headers body payload)
    (hlen : payload.length < 2 ^ 53) :
    readBody number headers payload = .ok (body, headers.delete "transfer-encoding") := by
  cases h with
  | delimited h =>
    cases h with
    | @length value hencoding hlength hdecimal hvalue =>
      rw [readBody, hencoding, if_neg (by decide), hlength, headers.delete_of_get_none hencoding]
      dsimp only
      rw [if_neg (by rw [hdecimal]; exact Bool.noConfusion),
        hnumber.exact_of_lt value hdecimal (hvalue ▸ hlen), hvalue]
      dsimp only
      rw [if_neg (Int.lt_irrefl _), Int.toNat_natCast, List.take_length]
    | @chunked value hencoding hchunked chunks hdata =>
      rw [readBody, hencoding, Option.getD_some, if_pos hchunked]
      exact hdata ▸ congrArg (Except.map _) (dechunk_chunked chunks [])
  | closed hencoding hlength =>
    rw [readBody, hencoding, if_neg (by decide), hlength, headers.delete_of_get_none hencoding]

/-- Reads come through, as long as they are not too many. -/
theorem readParts_map (total : ℕ) (reads : List (List ℕ)) (htotal : total ≤ maxHead + maxBody) :
    readParts total (reads.map .ok) =
      if total + reads.flatten.length ≤ maxHead + maxBody then .ok reads
      else .error "HTTP response too large" := by
  induction reads generalizing total with
  | nil => exact (if_pos htotal).symm
  | cons value reads ih =>
    have hsum : total + (value :: reads).flatten.length =
        total + value.length + reads.flatten.length := by
      rw [List.flatten_cons, List.length_append, Nat.add_assoc]
    rw [List.map_cons, readParts, hsum]
    by_cases hmore : total + value.length > maxHead + maxBody
    · rw [if_pos hmore, if_neg (by omega)]
    · rw [if_neg hmore, ih _ (not_lt.mp hmore)]
      split
      · rfl
      · rfl

/-- **What the head leads to**, however the bytes came in. -/
theorem readResponse_head (hnumber : ReadsDigits number) (head : Head) (hhigh : head.status ≤ 599)
    {rest : List ℕ} {reads : List (List ℕ)}
    (hreads : reads.flatten = head.bytes ++ (crlf ++ crlf) ++ rest)
    (hlen : reads.flatten.length ≤ maxHead + maxBody) :
    readResponse number (reads.map .ok) =
      (readBody number head.headers rest).bind fun (body, headers) =>
        HttpResponse.make head.status headers
          (if (head.status : ℤ) = 204 ∨ (head.status : ℤ) = 304 ∨ (head.status : ℤ) < 200 then none
            else some body) := by
  have hfound := indexOf_append head.ends (List.cons_ne_nil _ _) [] rest
  have hcode := hnumber.exact_of_lt head.code head.code_decimal
    (lt_of_le_of_lt hhigh (by decide))
  -- the first empty line is the end of the head
  have htake : (head.bytes ++ (crlf ++ crlf) ++ rest).take head.bytes.length = head.bytes := by
    rw [List.append_assoc, List.take_left]
  have hdrop : (head.bytes ++ (crlf ++ crlf) ++ rest).drop (head.bytes.length + 4) = rest := by
    rw [List.append_assoc, List.drop_length_add_append]
    rfl
  rw [List.length_nil, Nat.zero_add, List.nil_append] at hfound
  rw [readResponse, readParts_map _ _ (Nat.zero_le _), if_pos (by rwa [Nat.zero_add])]
  dsimp only [bind, Except.bind]
  rw [hreads, hfound]
  dsimp only
  rw [htake, hdrop, head.parseHead_bytes hcode]

/-- Without an empty line there is no head. -/
theorem readResponse_none {reads : List (List ℕ)}
    (hnone : indexOf reads.flatten (crlf ++ crlf) 0 = none)
    (hlen : reads.flatten.length ≤ maxHead + maxBody) :
    readResponse number (reads.map .ok) =
      .error (if reads.flatten.length > maxHead then "HTTP response head too large"
        else "truncated HTTP response") := by
  rw [readResponse, readParts_map _ _ (Nat.zero_le _), if_pos (by rwa [Nat.zero_add])]
  dsimp only [bind, Except.bind]
  rw [hnone]

/-- **Responses are read whole or not at all.** Whatever the head says besides, a response with a
status that has a body is read back from any reads of its bytes, and from the start of a response
whose end shows, either nothing is read or all of it. -/
theorem readResponse_exact (hnumber : ReadsDigits number) (head : Head)
    (hlow : 200 ≤ head.status) (hhigh : head.status ≤ 599)
    (hstatus : head.status ∉ [204, 205, 304]) (body payload : List ℕ) :
    (Framed head.headers body payload → ∀ reads : List (List ℕ),
      reads.flatten = head.bytes ++ (crlf ++ crlf) ++ payload →
      reads.flatten.length ≤ maxHead + maxBody →
      readResponse number (reads.map .ok) =
        .ok ⟨head.status, head.headers.delete "transfer-encoding", some body⟩) ∧
    (Delimited head.headers body payload → ∀ reads : List (List ℕ),
      reads.flatten <+: head.bytes ++ (crlf ++ crlf) ++ payload →
      (∃ reason, readResponse number (reads.map .ok) = .error reason) ∨
        readResponse number (reads.map .ok) =
          .ok ⟨head.status, head.headers.delete "transfer-encoding", some body⟩) := by
  have hlimit : maxHead + maxBody < 2 ^ 53 := by decide
  simp only [List.mem_cons, List.not_mem_nil, or_false, not_or] at hstatus
  have hmake : ∀ headers : Headers, HttpResponse.make head.status headers
      (if (head.status : ℤ) = 204 ∨ (head.status : ℤ) = 304 ∨ (head.status : ℤ) < 200 then none
        else some body) = .ok ⟨head.status, headers, some body⟩ := by
    intro headers
    rw [HttpResponse.make, if_neg (by omega), if_neg (by omega), if_neg (by omega),
      Int.toNat_natCast]
  constructor
  · -- a body within the limit is far shorter than the numbers that are no doubles
    intro hframed reads hreads hlen
    have hpayload : payload.length < 2 ^ 53 := by
      rw [hreads, List.length_append] at hlen
      omega
    rw [readResponse_head hnumber head hhigh hreads hlen, readBody_framed hnumber hframed hpayload,
      Except.bind]
    dsimp only
    rw [hmake]
  · intro hdelimited reads hreads
    by_cases hlen : reads.flatten.length ≤ maxHead + maxBody
    · -- the empty line is where it is in the whole response, or it is missing
      rcases indexOf_prefix head.ends (List.cons_ne_nil _ _) [] hreads with hnone |
        ⟨rest, hrest, hpre⟩
      · -- the head is not there
        exact .inl ⟨_, readResponse_none hnone hlen⟩
      · rw [readResponse_head hnumber head hhigh hrest hlen]
        rw [hrest, List.length_append] at hlen
        rcases readBody_prefix hnumber hdelimited hpre (by omega) with ⟨reason, herror⟩ | hok
        · exact .inl ⟨reason, by rw [herror, Except.bind]⟩
        · right
          rw [hok, Except.bind]
          dsimp only
          rw [hmake]
    -- more bytes than the reader takes
    · left
      rw [readResponse, readParts_map _ _ (Nat.zero_le _), if_neg (by rwa [Nat.zero_add])]
      exact ⟨_, rfl⟩

/-- Two chunks, one with an extension, in reads that end within the head and within a chunk. -/
theorem readResponse_exact_hello :
    readResponse (fun text => if Text.isDecimal text then some (Text.decimal text : ℤ) else none)
      (["HTTP/1.1 200 OK\r\nTransfer-Enc", "oding: chunked\r\n\r\n3\r\nh",
        "el\r\n2;x=y\r\nlo\r\n0\r\n\r\n"].map fun read => .ok (Utf8.encode read.toList)) =
      .ok ⟨200, [], some (Utf8.encode "hello".toList)⟩ := by
  let field : Field :=
    ⟨"Transfer-Encoding".toList, " chunked".toList, by decide, List.all_eq_true.mp (by decide),
      List.all_eq_true.mp (by decide)⟩
  let head : Head :=
    ⟨'1', "200".toList, " OK".toList, [field], .inr rfl, by decide, .inr ⟨"OK".toList, rfl⟩,
      by decide⟩
  -- two chunks, the second with an extension
  let hel : Chunk := ⟨Utf8.encode "hel".toList, by decide,
    ⟨['3'], [], [], by decide, by decide, List.forall_mem_nil _, .inl rfl, by decide⟩⟩
  let lo : Chunk := ⟨Utf8.encode "lo".toList, by decide,
    ⟨['2'], [], Utf8.encode ";x=y".toList, by decide, by decide, List.forall_mem_nil _,
      .inr ⟨Utf8.encode "x=y".toList, by decide⟩, by decide⟩⟩
  let chunks : Chunked := ⟨[hel, lo],
    ⟨['0'], [], [], by decide, by decide, List.forall_mem_nil _, .inl rfl, by decide⟩, crlf⟩
  have hnumber : ReadsDigits fun text =>
      if Text.isDecimal text then some (Text.decimal text : ℤ) else none := by
    refine ⟨fun text h _ => if_pos h, fun text n h hle hn => ?_⟩
    rw [if_pos h] at hn
    cases hn
    exact_mod_cast hle
  exact (readResponse_exact hnumber head (by decide) (by decide) (by decide)
    (Utf8.encode "hello".toList) chunks.bytes).1
    (.delimited (.chunked rfl (by decide) chunks (by decide)))
    (["HTTP/1.1 200 OK\r\nTransfer-Enc".toList, "oding: chunked\r\n\r\n3\r\nh".toList,
      "el\r\n2;x=y\r\nlo\r\n0\r\n\r\n".toList].map Utf8.encode) (by decide) (by decide)

end

end DashFaucet.Socket

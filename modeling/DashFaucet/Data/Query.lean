import DashFaucet.Data.Utf8

/-!
# Query strings

Names and values in the query of a URL, as `application/x-www-form-urlencoded` writes and reads
them, and percent-encoding.

* `percentEncode`, `percentDecode`: bytes as characters of a URL, and back.
* `serialize`, `parse`: the pairs of a query.
* `percentDecode_encode`: every byte reads back.
* `parse_serialize`: and every list of pairs does.
-/

namespace Query

/-! ### Percent-encoding -/

def upperDigits : List Char := "0123456789ABCDEF".toList

/-- The digit of a number below 16. -/
def hexDigit (n : ℕ) : Char := upperDigits.getD n '0'

/-- The number of a hexadecimal digit, given as a byte. -/
def hexValue (b : ℕ) : Option ℕ :=
  if 0x30 ≤ b ∧ b ≤ 0x39 then some (b - 0x30)
  else if 0x41 ≤ b ∧ b ≤ 0x46 then some (b - 0x41 + 10)
  else if 0x61 ≤ b ∧ b ≤ 0x66 then some (b - 0x61 + 10)
  else none

def percentByte (b : ℕ) : List Char := ['%', hexDigit (b / 16), hexDigit (b % 16)]

/-- Bytes as characters: those that `keep` keeps as they are. -/
def percentEncode (keep : Char → Bool) (bytes : List ℕ) : List Char :=
  bytes.flatMap fun b => if b < 0x80 ∧ keep (Char.ofNat b) then [Char.ofNat b] else percentByte b

/-- What the bytes of percent-encoded text stand for. A percent sign without two digits is
itself. -/
def percentDecode : List ℕ → List ℕ
  | 0x25 :: h :: l :: rest =>
    match hexValue h, hexValue l with
    | some high, some low => (16 * high + low) :: percentDecode rest
    | _, _ => 0x25 :: percentDecode (h :: l :: rest)
  | b :: rest => b :: percentDecode rest
  | [] => []

/-- What `encodeURIComponent` keeps. -/
def uriUnreserved (c : Char) : Bool := c.isAlphanum || "-_.!~*'()".toList.contains c

def encodeURIComponent (text : List Char) : List Char :=
  percentEncode uriUnreserved (Utf8.encode text)

/-! ### Pairs -/

/-- What a form keeps, and the space, which it writes as a plus. -/
def formUnreserved (c : Char) : Bool := c.isAlphanum || "*-._ ".toList.contains c

def plus (c : Char) : Char := if c = ' ' then '+' else c

/-- A name or a value. -/
def encodeText (text : List Char) : List Char :=
  (percentEncode formUnreserved (Utf8.encode text)).map plus

def serialize (pairs : List (List Char × List Char)) : List Char :=
  ['&'].intercalate (pairs.map fun pair => encodeText pair.1 ++ '=' :: encodeText pair.2)

def decodeText (bytes : List ℕ) : List Char :=
  Utf8.scan none (percentDecode (bytes.map fun b => if b = 0x2B then 0x20 else b))

/-- The pairs of a query: parts between `&`, each cut at its first `=`. -/
def parse (text : List Char) : List (List Char × List Char) :=
  (((Utf8.encode text).splitOn 0x26).filter fun part => !part.isEmpty).map fun part =>
    (decodeText (part.takeWhile (· ≠ 0x3D)), decodeText (part.dropWhile (· ≠ 0x3D)).tail)

/-- The first value of a name. -/
def get (pairs : List (List Char × List Char)) (name : List Char) : Option (List Char) :=
  (pairs.find? fun pair => pair.1 = name).map Prod.snd

/-! ### A byte read back -/

theorem hexValue_hexDigit : ∀ n < 16, hexValue (hexDigit n).toNat = some n := by decide

theorem utf8_ascii {c : Char} (h : c.toNat < 0x80) : Utf8.encode [c] = [c.toNat] := by
  have hval : c.val.toNat = c.toNat := rfl
  rw [Utf8.encode_cons]
  unfold String.utf8EncodeChar
  rw [hval, if_pos (by omega)]
  show [(UInt8.ofNat c.toNat).toNat] = _
  rw [UInt8.toNat_ofNat', Nat.mod_eq_of_lt (by omega)]

/-- The bytes of ASCII text are its characters. -/
theorem utf8_map_ascii {text : List Char} (h : ∀ c ∈ text, c.toNat < 0x80) :
    Utf8.encode text = text.map Char.toNat := by
  induction text with
  | nil => rfl
  | cons c text ih =>
    rw [← List.singleton_append, Utf8.encode_append, utf8_ascii (h c List.mem_cons_self),
      ih fun d hd => h d (List.mem_cons_of_mem _ hd)]
    rfl

theorem toNat_ofNat_ascii {b : ℕ} (h : b < 0x80) : (Char.ofNat b).toNat = b := by
  have hvalid : b.isValidChar := .inl (by omega)
  rw [Char.ofNat, dif_pos hvalid]
  rfl

theorem hexDigit_ascii : ∀ n < 16, (hexDigit n).toNat < 0x80 ∧ (hexDigit n).isAlphanum = true := by
  decide

section Encode

variable {keep : Char → Bool} {bytes : List ℕ} (h : ∀ b ∈ bytes, b < 256)

include h

/-- The characters of an encoding: a percent sign, a digit, or one that is kept. -/
theorem mem_percentEncode {c : Char} (hc : c ∈ percentEncode keep bytes) :
    c.toNat < 0x80 ∧ (c = '%' ∨ c.isAlphanum = true ∨ keep c = true) := by
  obtain ⟨b, hb, hmem⟩ := List.mem_flatMap.mp hc
  have hlt := h b hb
  split at hmem
  · next hkeep =>
    rw [List.mem_singleton.mp hmem, toNat_ofNat_ascii hkeep.1]
    exact ⟨hkeep.1, .inr (.inr hkeep.2)⟩
  · simp only [percentByte, List.mem_cons, List.not_mem_nil, or_false] at hmem
    have hhigh := hexDigit_ascii (b / 16) (by omega)
    have hlow := hexDigit_ascii (b % 16) (by omega)
    rcases hmem with rfl | rfl | rfl
    · exact ⟨by decide, .inl rfl⟩
    · exact ⟨hhigh.1, .inr (.inl hhigh.2)⟩
    · exact ⟨hlow.1, .inr (.inl hlow.2)⟩

end Encode

/-- A byte that is no percent sign stands for itself. -/
theorem percentDecode_cons {b : ℕ} (h : b ≠ 0x25) (rest : List ℕ) :
    percentDecode (b :: rest) = b :: percentDecode rest := by
  rw [percentDecode]
  rintro _ _ _ rfl
  exact absurd rfl h

theorem percentDecode_percentByte {b : ℕ} (h : b < 256) (rest : List ℕ) :
    percentDecode ((percentByte b).map Char.toNat ++ rest) = b :: percentDecode rest := by
  have hhigh := hexValue_hexDigit (b / 16) (by omega)
  have hlow := hexValue_hexDigit (b % 16) (by omega)
  show percentDecode (0x25 :: (hexDigit (b / 16)).toNat :: (hexDigit (b % 16)).toNat :: rest) = _
  rw [percentDecode, hhigh, hlow]
  dsimp only
  rw [Nat.div_add_mod]

/-- **Bytes read back from their percent-encoding**, where no percent sign is kept. -/
theorem percentDecode_encode {keep : Char → Bool} (hkeep : keep '%' = false) {bytes : List ℕ}
    (h : ∀ b ∈ bytes, b < 256) (rest : List ℕ) :
    percentDecode ((percentEncode keep bytes).map Char.toNat ++ rest) =
      bytes ++ percentDecode rest := by
  induction bytes with
  | nil => rfl
  | cons b bytes ih =>
    have ih := ih fun b' hb' => h b' (List.mem_cons_of_mem _ hb')
    rw [percentEncode, List.flatMap_cons, List.map_append, List.append_assoc, List.cons_append]
    split
    · next hkept =>
      have hne : b ≠ 0x25 := by
        rintro rfl
        exact absurd hkept.2 (by rw [show Char.ofNat 0x25 = '%' from rfl, hkeep]; decide)
      rw [List.map_singleton, toNat_ofNat_ascii hkept.1, List.singleton_append,
        percentDecode_cons hne]
      exact congrArg (b :: ·) ih
    · rw [percentDecode_percentByte (h b List.mem_cons_self)]
      exact congrArg (b :: ·) ih

/-! ### A name or a value read back -/

theorem encodeText_eq (text : List Char) :
    ∀ c ∈ encodeText text, c.toNat < 0x80 ∧ c ≠ '&' ∧ c ≠ '=' := by
  intro c hc
  obtain ⟨d, hd, rfl⟩ := List.mem_map.mp hc
  obtain ⟨hascii, hd⟩ := mem_percentEncode (fun _ hb => Utf8.lt_of_mem_encode hb) hd
  unfold plus
  split
  · decide
  · refine ⟨hascii, ?_, ?_⟩
    · rintro rfl
      rcases hd with hd | hd | hd <;> cases hd
    · rintro rfl
      rcases hd with hd | hd | hd <;> cases hd

/-- Undoing the plus undoes it: none is kept. -/
theorem unplus_encodeText (text : List Char) :
    ((encodeText text).map Char.toNat).map (fun b => if b = 0x2B then 0x20 else b) =
      (percentEncode formUnreserved (Utf8.encode text)).map Char.toNat := by
  rw [encodeText, List.map_map, List.map_map]
  refine List.map_congr_left fun c hc => ?_
  obtain ⟨-, hc⟩ := mem_percentEncode (fun _ hb => Utf8.lt_of_mem_encode hb) hc
  simp only [Function.comp_apply, plus]
  split
  · next hspace => rw [hspace]; rfl
  · refine if_neg fun hplus => ?_
    have hplus : c = '+' := Char.toNat_inj.mp hplus
    rw [hplus] at hc
    rcases hc with hc | hc | hc <;> cases hc

/-- **A name or a value reads back.** -/
theorem decodeText_encodeText (text : List Char) :
    decodeText ((encodeText text).map Char.toNat) = text := by
  have hdecode := percentDecode_encode (rfl : formUnreserved '%' = false)
    (fun _ hb => Utf8.lt_of_mem_encode hb : ∀ b ∈ Utf8.encode text, b < 256) []
  rw [List.append_nil] at hdecode
  rw [decodeText, unplus_encodeText, hdecode, percentDecode, List.append_nil,
    Utf8.scan_encode_self]

/-! ### Pairs read back -/

theorem toNat_notMem {text : List Char} {c : Char} (h : ∀ d ∈ text, d ≠ c) :
    c.toNat ∉ text.map Char.toNat := by
  intro hmem
  obtain ⟨d, hd, heq⟩ := List.mem_map.mp hmem
  exact h d hd (Char.toNat_inj.mp heq)

/-- What a pair is written as. -/
def part (pair : List Char × List Char) : List ℕ :=
  (encodeText pair.1).map Char.toNat ++ 0x3D :: (encodeText pair.2).map Char.toNat

theorem part_cut (pair : List Char × List Char) :
    (part pair).takeWhile (· ≠ 0x3D) = (encodeText pair.1).map Char.toNat ∧
      (part pair).dropWhile (· ≠ 0x3D) = 0x3D :: (encodeText pair.2).map Char.toNat := by
  have hname : ∀ b ∈ (encodeText pair.1).map Char.toNat, decide (b ≠ 0x3D) = true := by
    intro b hb
    refine decide_eq_true ?_
    rintro rfl
    exact toNat_notMem (c := '=') (fun d hd => (encodeText_eq pair.1 d hd).2.2) hb
  rw [part, List.takeWhile_append_of_pos hname, List.dropWhile_append_of_pos hname]
  simp

theorem amp_notMem_part (pair : List Char × List Char) : 0x26 ∉ part pair := by
  intro hmem
  rcases List.mem_append.mp hmem with hmem | hmem
  · exact toNat_notMem (c := '&') (fun d hd => (encodeText_eq pair.1 d hd).2.1) hmem
  · rcases List.mem_cons.mp hmem with hmem | hmem
    · cases hmem
    · exact toNat_notMem (c := '&') (fun d hd => (encodeText_eq pair.2 d hd).2.1) hmem

theorem encode_serialize (pairs : List (List Char × List Char)) :
    Utf8.encode (serialize pairs) = [0x26].intercalate (pairs.map part) := by
  -- what is encoded is ASCII already
  have hpair : ∀ pair : List Char × List Char,
      Utf8.encode (encodeText pair.1 ++ '=' :: encodeText pair.2) = part pair := by
    intro pair
    rw [Utf8.encode_append, utf8_map_ascii fun c hc => (encodeText_eq pair.1 c hc).1,
      ← List.singleton_append (x := '='), Utf8.encode_append,
      utf8_map_ascii fun c hc => (encodeText_eq pair.2 c hc).1]
    rfl
  induction pairs with
  | nil => rfl
  | cons pair pairs ih =>
    cases pairs with
    | nil =>
      show Utf8.encode (['&'].intercalate [encodeText pair.1 ++ '=' :: encodeText pair.2]) =
        [0x26].intercalate [part pair]
      rw [List.intercalate_singleton, List.intercalate_singleton, hpair]
    | cons next pairs =>
      simp only [serialize, List.map_cons] at ih ⊢
      rw [List.intercalate_cons_cons, List.intercalate_cons_cons, Utf8.encode_append,
        Utf8.encode_append, hpair, ← ih]
      rfl

/-- **Pairs read back as they were written**, whatever their characters. -/
theorem parse_serialize (pairs : List (List Char × List Char)) :
    parse (serialize pairs) = pairs := by
  rw [parse, encode_serialize]
  by_cases hne : pairs = []
  · rw [hne]; rfl
  have hsplit : ([0x26].intercalate (pairs.map part)).splitOn 0x26 = pairs.map part := by
    refine List.splitOn_intercalate 0x26 (fun l hl => ?_) fun hmap =>
      hne (List.map_eq_nil_iff.mp hmap)
    obtain ⟨pair, -, rfl⟩ := List.mem_map.mp hl
    exact amp_notMem_part pair
  have hfilter : (pairs.map part).filter (fun part => !part.isEmpty) = pairs.map part := by
    refine List.filter_eq_self.mpr fun l hl => ?_
    obtain ⟨pair, -, rfl⟩ := List.mem_map.mp hl
    simp [part]
  rw [hsplit, hfilter, List.map_map]
  refine (List.map_congr_left fun pair _ => ?_).trans (List.map_id pairs)
  obtain ⟨hname, hvalue⟩ := part_cut pair
  simp only [Function.comp_apply, hname, hvalue, List.tail_cons, decodeText_encodeText]
  rfl

end Query

import Mathlib.Data.Char
import Mathlib.Data.List.Basic
import Mathlib.Order.Basic

/-!
# UTF-8

A text as bytes, and bytes as text. Bytes are naturals below 256, a text is its characters.

* `encode`: the bytes of a text.
* `scan`: the decoder of the Encoding Standard, one byte at a time. Whatever is not the encoding of
  a character reads as U+FFFD, and a byte that cannot continue a character starts the next one.
* `decode`: the same, with a byte order mark in front left out.
* `scan_encode`, `decode_encode`: text reads back as it was written.
-/

namespace Utf8

/-- The bytes of a text. -/
def encode (text : List Char) : List ℕ :=
  text.flatMap fun c => (String.utf8EncodeChar c).map UInt8.toNat

/-- What stands for bytes that are no character. -/
def replacement : Char := '\uFFFD'

/-- A character of which some bytes are read: its code point so far, how many bytes it lacks, and
the bounds of the next one. -/
structure Pending where
  code : ℕ
  needed : ℕ
  lower : ℕ
  upper : ℕ

/-- What a first byte is: a whole character, or the start of one. -/
def start (b : ℕ) : Char ⊕ Pending :=
  if b ≤ 0x7F then .inl (Char.ofNat b)
  else if 0xC2 ≤ b ∧ b ≤ 0xDF then .inr ⟨b - 0xC0, 1, 0x80, 0xBF⟩
  -- no overlong forms, and no surrogates
  else if 0xE0 ≤ b ∧ b ≤ 0xEF then
    .inr ⟨b - 0xE0, 2, if b = 0xE0 then 0xA0 else 0x80, if b = 0xED then 0x9F else 0xBF⟩
  -- and nothing past U+10FFFF
  else if 0xF0 ≤ b ∧ b ≤ 0xF4 then
    .inr ⟨b - 0xF0, 3, if b = 0xF0 then 0x90 else 0x80, if b = 0xF4 then 0x8F else 0xBF⟩
  else .inl replacement

/-- Read bytes, within a character or between two. -/
def scan : Option Pending → List ℕ → List Char
  | none, [] => []
  | some _, [] => [replacement]
  | none, b :: bs =>
    match start b with
    | .inl c => c :: scan none bs
    | .inr p => scan (some p) bs
  -- inside a character, this byte continues it or begins another
  | some p, b :: bs =>
    if p.lower ≤ b ∧ b ≤ p.upper then
      if p.needed ≤ 1 then Char.ofNat (p.code * 64 + (b - 0x80)) :: scan none bs
      else scan (some ⟨p.code * 64 + (b - 0x80), p.needed - 1, 0x80, 0xBF⟩) bs
    else
      -- a cut character is one replacement, and the byte is read again
      replacement ::
        match start b with
        | .inl c => c :: scan none bs
        | .inr p => scan (some p) bs

/-- `TextDecoder.decode`: a byte order mark is not part of the text. -/
def decode (bytes : List ℕ) : List Char :=
  match scan none bytes with
  | '\uFEFF' :: text => text
  | text => text

/-! ### Reading a character back -/

theorem encode_cons (c : Char) (text : List Char) :
    encode (c :: text) = (String.utf8EncodeChar c).map UInt8.toNat ++ encode text := rfl

theorem scan_inl {b : ℕ} {c : Char} (h : start b = .inl c) (bs : List ℕ) :
    scan none (b :: bs) = c :: scan none bs := by
  show (match start b with
    | .inl c => c :: scan none bs
    | .inr p => scan (some p) bs) = _
  rw [h]

theorem scan_inr {b : ℕ} {p : Pending} (h : start b = .inr p) (bs : List ℕ) :
    scan none (b :: bs) = scan (some p) bs := by
  show (match start b with
    | .inl c => c :: scan none bs
    | .inr p => scan (some p) bs) = _
  rw [h]

/-- The first of two bytes. -/
theorem start_two {b : ℕ} (h : 0xC2 ≤ b) (h' : b ≤ 0xDF) :
    start b = .inr ⟨b - 0xC0, 1, 0x80, 0xBF⟩ := by
  rw [start, if_neg (by omega), if_pos ⟨h, h'⟩]

/-- The first of three bytes. -/
theorem start_three {b : ℕ} (h : 0xE0 ≤ b) (h' : b ≤ 0xEF) : start b =
    .inr ⟨b - 0xE0, 2, if b = 0xE0 then 0xA0 else 0x80, if b = 0xED then 0x9F else 0xBF⟩ := by
  rw [start, if_neg (by omega), if_neg (by omega), if_pos ⟨h, h'⟩]

/-- The first of four bytes. -/
theorem start_four {b : ℕ} (h : 0xF0 ≤ b) (h' : b ≤ 0xF4) : start b =
    .inr ⟨b - 0xF0, 3, if b = 0xF0 then 0x90 else 0x80, if b = 0xF4 then 0x8F else 0xBF⟩ := by
  rw [start, if_neg (by omega), if_neg (by omega), if_neg (by omega), if_pos ⟨h, h'⟩]

/-- A byte in between is taken. -/
theorem scan_more {p : Pending} {b : ℕ} (hlower : p.lower ≤ b) (hupper : b ≤ p.upper)
    (hneeded : 1 < p.needed) (bs : List ℕ) : scan (some p) (b :: bs) =
      scan (some ⟨p.code * 64 + (b - 0x80), p.needed - 1, 0x80, 0xBF⟩) bs := by
  rw [scan, if_pos ⟨hlower, hupper⟩, if_neg (not_le.mpr hneeded)]

/-- The last byte makes the character. -/
theorem scan_last {p : Pending} {b : ℕ} (hlower : p.lower ≤ b) (hupper : b ≤ p.upper)
    (hneeded : p.needed = 1) {c : Char} (hc : p.code * 64 + (b - 0x80) = c.toNat) (bs : List ℕ) :
    scan (some p) (b :: bs) = c :: scan none bs := by
  rw [scan, if_pos ⟨hlower, hupper⟩, if_pos hneeded.le, hc, Char.ofNat_toNat]

/-- A character is no surrogate and none past the last. -/
theorem toNat_bounds (c : Char) : c.toNat < 0xD800 ∨ 0xDFFF < c.toNat ∧ c.toNat < 0x110000 :=
  c.valid

/-- **A character reads back as it was written**, whatever follows. -/
theorem scan_utf8EncodeChar (c : Char) (bs : List ℕ) :
    scan none ((String.utf8EncodeChar c).map UInt8.toNat ++ bs) = c :: scan none bs := by
  have hbounds := toNat_bounds c
  have hbyte : ∀ n, (UInt8.ofNat n).toNat = n % 256 := fun n => UInt8.toNat_ofNat'
  have hval : c.val.toNat = c.toNat := rfl
  unfold String.utf8EncodeChar
  rw [hval]
  dsimp only
  generalize hn : c.toNat = n at hbounds
  -- by the number of its bytes
  split
  · next h1 =>
    simp only [List.map_cons, List.map_nil, List.cons_append, List.nil_append, hbyte]
    have hmod : n % 256 = n := by omega
    rw [hmod]
    refine scan_inl ?_ bs
    rw [start, if_pos h1, ← hn, Char.ofNat_toNat]
  split
  · next h1 h2 =>
    simp only [List.map_cons, List.map_nil, List.cons_append, List.nil_append, hbyte]
    rw [scan_inr (start_two (by omega) (by omega))]
    refine scan_last (by dsimp only; omega) (by dsimp only; omega) rfl ?_ bs
    rw [hn]
    dsimp only
    omega
  split
  · next h1 h2 h3 =>
    simp only [List.map_cons, List.map_nil, List.cons_append, List.nil_append, hbyte]
    rw [scan_inr (start_three (by omega) (by omega))]
    rw [scan_more (by dsimp only; split <;> omega) (by dsimp only; split <;> omega)
      Nat.one_lt_two]
    refine scan_last (by dsimp only; omega) (by dsimp only; omega) rfl ?_ bs
    rw [hn]
    dsimp only
    omega
  · next h1 h2 h3 =>
    simp only [List.map_cons, List.map_nil, List.cons_append, List.nil_append, hbyte]
    rw [scan_inr (start_four (by omega) (by omega))]
    rw [scan_more (by dsimp only; split <;> omega) (by dsimp only; split <;> omega)
      (show 1 < 3 by decide)]
    rw [scan_more (by dsimp only; omega) (by dsimp only; omega) Nat.one_lt_two]
    refine scan_last (by dsimp only; omega) (by dsimp only; omega) rfl ?_ bs
    rw [hn]
    dsimp only
    omega

/-- **Text reads back as it was written**, whatever follows. -/
theorem scan_encode (text : List Char) (bs : List ℕ) :
    scan none (encode text ++ bs) = text ++ scan none bs := by
  induction text with
  | nil => rfl
  | cons c text ih => rw [encode_cons, List.append_assoc, scan_utf8EncodeChar, ih, List.cons_append]

theorem scan_encode_self (text : List Char) : scan none (encode text) = text := by
  have h := scan_encode text []
  rw [List.append_nil] at h
  rw [h]
  exact List.append_nil text

/-- No two texts have the same bytes. -/
theorem encode_injective : Function.Injective encode := by
  intro text text' h
  rw [← scan_encode_self text, h, scan_encode_self]

/-- Text that starts with no byte order mark decodes to itself. -/
theorem decode_encode {text : List Char} (h : text.head? ≠ some '\uFEFF') :
    decode (encode text) = text := by
  rw [decode, scan_encode_self]
  split
  · exact absurd rfl h
  · rfl

theorem encode_append (text text' : List Char) :
    encode (text ++ text') = encode text ++ encode text' := List.flatMap_append

/-- An ASCII byte is a character of the text. -/
theorem mem_of_mem_encode {text : List Char} {b : ℕ} (h : b ∈ encode text) (hb : b < 0x80) :
    Char.ofNat b ∈ text := by
  obtain ⟨c, hc, hmem⟩ := List.mem_flatMap.mp h
  obtain ⟨u, hu, rfl⟩ := List.mem_map.mp hmem
  have hbyte : ∀ n, (UInt8.ofNat n).toNat = n % 256 := fun n => UInt8.toNat_ofNat'
  have hval : c.val.toNat = c.toNat := rfl
  suffices hcode : u.toNat = c.toNat by
    rw [hcode, Char.ofNat_toNat]
    exact hc
  unfold String.utf8EncodeChar at hu
  rw [hval] at hu
  dsimp only at hu
  -- every byte of a longer character has its high bit set
  split at hu
  · rw [List.mem_singleton.mp hu, hbyte]
    omega
  split at hu
  · simp only [List.mem_cons, List.not_mem_nil, or_false] at hu
    rcases hu with rfl | rfl <;> rw [hbyte] at hb <;> omega
  split at hu
  · simp only [List.mem_cons, List.not_mem_nil, or_false] at hu
    rcases hu with rfl | rfl | rfl <;> rw [hbyte] at hb <;> omega
  · simp only [List.mem_cons, List.not_mem_nil, or_false] at hu
    rcases hu with rfl | rfl | rfl | rfl <;> rw [hbyte] at hb <;> omega

/-- Every byte of a text is one. -/
theorem lt_of_mem_encode {text : List Char} {b : ℕ} (h : b ∈ encode text) : b < 256 := by
  obtain ⟨c, -, hb⟩ := List.mem_flatMap.mp h
  obtain ⟨u, -, rfl⟩ := List.mem_map.mp hb
  exact u.toNat_lt

end Utf8

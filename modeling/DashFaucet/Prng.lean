import DashFaucet.Data.Word

/-!
# The seeded generator

Salts and targets of a challenge come from its token through `prng` (`cap.ts`): FNV-1a over the code
units of the seed, then xorshift32. The clients compute the same strings on unsigned words, with the
multiplication by the FNV prime written as shifts.

* `Solver`: the clients' formulation.
* `fnvRound_eq`, `xorshift32_eq`: one round of each agrees with it.
* `emit_eq`: and so does the emission loop.
* `prng_solver`: the two generators are one.
-/

namespace DashFaucet

/-- The code units of a string, as `charCodeAt` reads them. -/
def charCodes (s : String) : List UInt16 :=
  s.toList.flatMap fun c =>
    if c.toNat < 0x10000 then [UInt16.ofNat c.toNat]
    else
      [UInt16.ofNat (0xd800 + (c.toNat - 0x10000) / 0x400),
        UInt16.ofNat (0xdc00 + (c.toNat - 0x10000) % 0x400)]

/-- One round of FNV-1a. -/
def fnvRound (state : ℤ) (code : UInt16) : ℤ :=
  let state := Word.unsigned (Word.xor state code.toNat)
  Word.unsigned (Word.imul state 0x01000193)

/-- One step of xorshift32. -/
def xorshift32 (state : ℤ) : ℤ :=
  let state := Word.unsigned (Word.xor state (Word.shiftLeft state 13))
  let state := Word.unsigned (Word.xor state (Word.unsignedShiftRight state 17))
  Word.unsigned (Word.xor state (Word.shiftLeft state 5))

/-- The loop that writes one state after the other until there are `length` digits. -/
def emit (length : ℕ) (state : ℤ) (out : List Char) : List Char :=
  if out.length < length then
    let state := xorshift32 state
    emit length state (out ++ (toString16 state).leftpad 8 '0')
  else out
termination_by length - out.length
decreasing_by
  rw [List.length_append, List.length_leftpad]
  omega

/-- cap.js' seeded PRNG. -/
def prng (seed : List UInt16) (length : ℕ) : String :=
  String.ofList ((emit length (seed.foldl fnvRound 0x811c9dc5) []).take length)

/-! ### The clients' formulation -/

namespace Solver

/-- The FNV round written as five shifts plus an add. -/
def fnvRound (hash : BitVec 32) (code : UInt16) : BitVec 32 :=
  let hash := hash ^^^ BitVec.ofNat 32 code.toNat
  hash + hash <<< 1 + hash <<< 4 + hash <<< 7 + hash <<< 8 + hash <<< 24

def xorshift32 (state : BitVec 32) : BitVec 32 :=
  let state := state ^^^ (state <<< 13)
  let state := state ^^^ (state >>> 17)
  state ^^^ (state <<< 5)

/-- The next `rounds` states, eight digits each. -/
def digits : ℕ → BitVec 32 → List Char
  | 0, _ => []
  | rounds + 1, state => hexDigits 8 (xorshift32 state).toNat ++ digits rounds (xorshift32 state)

/-- Eight digits a round until there are enough. -/
def prng (seed : List UInt16) (length : ℕ) : String :=
  let hash := seed.foldl fnvRound 0x811c9dc5#32
  String.ofList ((digits ((length + 7) / 8) hash).take length)

theorem length_digits (rounds : ℕ) (state : BitVec 32) :
    (digits rounds state).length = 8 * rounds := by
  induction rounds generalizing state with
  | zero => rfl
  | succ rounds ih =>
    rw [digits, List.length_append, length_hexDigits, ih]
    omega

theorem digits_mem {rounds : ℕ} {state : BitVec 32} {c : Char} (h : c ∈ digits rounds state) :
    c ∈ "0123456789abcdef".toList := by
  induction rounds generalizing state with
  | zero => exact absurd h List.not_mem_nil
  | succ rounds ih =>
    rw [digits, List.mem_append] at h
    obtain h | h := h
    · exact hexDigits_mem h
    · exact ih h

/-- More rounds only add digits. -/
theorem digits_prefix {m n : ℕ} (h : m ≤ n) (state : BitVec 32) :
    digits m state <+: digits n state := by
  induction m generalizing n state with
  | zero => exact List.nil_prefix
  | succ m ih =>
    obtain ⟨n, rfl⟩ := Nat.exists_eq_add_of_le' (Nat.le_of_add_left_le h)
    exact (List.prefix_append_right_inj _).mpr (ih (by omega) _)

end Solver

/-! ### Agreement -/

/-- The word and its five shifts add up to its product with the FNV prime. -/
theorem mul_prime (w : BitVec 32) :
    w * 0x01000193#32 = w + w <<< 1 + w <<< 4 + w <<< 7 + w <<< 8 + w <<< 24 := by
  have hprime : 0x01000193#32 = 1#32 + BitVec.twoPow 32 1 + BitVec.twoPow 32 4 +
      BitVec.twoPow 32 7 + BitVec.twoPow 32 8 + BitVec.twoPow 32 24 := by decide
  simp only [hprime, mul_add, BitVec.mul_one, BitVec.shiftLeft_eq_mul_twoPow]

/-- **The FNV round agrees.** -/
theorem fnvRound_eq (hash : BitVec 32) (code : UInt16) :
    fnvRound hash.toNat code = ((Solver.fnvRound hash code).toNat : ℤ) := by
  have hxor : Word.bits (Word.unsigned (Word.xor hash.toNat code.toNat)) =
      hash ^^^ BitVec.ofNat 32 code.toNat := by
    rw [Word.unsigned_eq, Word.bits_toNat, Word.bits_xor, Word.bits_toNat, Word.bits_natCast]
  have hprime : Word.bits 0x01000193 = 0x01000193#32 := BitVec.ofInt_ofNat 32 _
  show Word.unsigned (Word.imul _ 0x01000193) = _
  rw [Word.unsigned_eq, Word.bits_imul, hxor, hprime, mul_prime]
  rfl

theorem xorshift32_eq (state : BitVec 32) :
    xorshift32 state.toNat = ((Solver.xorshift32 state).toNat : ℤ) := by
  simp only [xorshift32, Solver.xorshift32, Word.unsigned_eq, Word.bits_xor, Word.bits_shiftLeft,
    Word.bits_unsignedShiftRight, Word.bits_toNat, Nat.reduceMod]

theorem foldl_fnvRound (seed : List UInt16) (hash : BitVec 32) :
    seed.foldl fnvRound hash.toNat = ((seed.foldl Solver.fnvRound hash).toNat : ℤ) := by
  induction seed generalizing hash with
  | nil => rfl
  | cons code seed ih => rw [List.foldl_cons, List.foldl_cons, fnvRound_eq, ih]

/-- A state has eight digits at most, so what is written of it are its digits. -/
theorem leftpad_state (state : BitVec 32) :
    (toString16 state.toNat).leftpad 8 '0' = hexDigits 8 state.toNat :=
  leftpad_toString16 (by decide) state.isLt

/-- **The emission loop** adds the digits of as many states as it takes to have enough. -/
theorem emit_eq (length : ℕ) (state : BitVec 32) (out : List Char) :
    emit length state.toNat out =
      out ++ Solver.digits ((length - out.length + 7) / 8) state := by
  induction hrounds : (length - out.length + 7) / 8 generalizing state out with
  | zero =>
    rw [emit, if_neg (by omega), Solver.digits, List.append_nil]
  | succ rounds ih =>
    rw [emit, if_pos (by omega)]
    dsimp only
    rw [xorshift32_eq, leftpad_state, ih, List.append_assoc, Solver.digits]
    rw [List.length_append, length_hexDigits]
    omega

theorem prng_eq (seed : List UInt16) (length : ℕ) : prng seed length = Solver.prng seed length := by
  have hseed : seed.foldl fnvRound 0x811c9dc5 =
      ((seed.foldl Solver.fnvRound 0x811c9dc5#32).toNat : ℤ) :=
    foldl_fnvRound seed 0x811c9dc5#32
  rw [prng, Solver.prng, hseed, emit_eq, List.nil_append, List.length_nil, Nat.sub_zero]

theorem toList_prng (seed : List UInt16) (length : ℕ) : (prng seed length).toList =
    (Solver.digits ((length + 7) / 8) (seed.foldl Solver.fnvRound 0x811c9dc5#32)).take length := by
  rw [prng_eq, Solver.prng, String.toList_ofList]

theorem length_prng (seed : List UInt16) (length : ℕ) : (prng seed length).length = length := by
  rw [← String.length_toList, toList_prng, List.length_take, Solver.length_digits]
  omega

/-- **The generator is the clients'**, on every seed. It gives exactly as many lower-case digits as
it is asked for, and a shorter string is the start of a longer one. -/
theorem prng_solver (seed : List UInt16) :
    (∀ length, prng seed length = Solver.prng seed length) ∧
    (∀ length, (prng seed length).length = length ∧
      ∀ c ∈ (prng seed length).toList, c ∈ "0123456789abcdef".toList) ∧
    ∀ m n, m ≤ n → (prng seed m).toList <+: (prng seed n).toList := by
  refine ⟨prng_eq seed, fun length => ⟨length_prng seed length, fun c hc => ?_⟩, fun m n h => ?_⟩
  · rw [toList_prng] at hc
    exact Solver.digits_mem (List.mem_of_mem_take hc)
  · rw [toList_prng, toList_prng]
    -- both are cut from the digits of the longer run
    have hrounds : (m + 7) / 8 ≤ (n + 7) / 8 := by omega
    obtain ⟨rest, hrest⟩ :=
      Solver.digits_prefix hrounds (seed.foldl Solver.fnvRound 0x811c9dc5#32)
    have henough : m ≤ (Solver.digits ((m + 7) / 8)
        (seed.foldl Solver.fnvRound 0x811c9dc5#32)).length := by
      rw [Solver.length_digits]
      omega
    have hcut := @List.take_append_of_le_length _ _ rest _ henough
    rw [← hrest, ← hcut]
    exact List.take_prefix_take_left h

/-- The salt and the target of a challenge that a live server issued. -/
theorem prng_solver_live :
    prng (charCodes "b987380d8edbb0448190cd10094bc26769dc7bdaef08c2d89e1") 32 =
      "956fc0cbc3a458705de5f885bc50161f" ∧
    (prng (charCodes "b987380d8edbb0448190cd10094bc26769dc7bdaef08c2d89e1d") 4).toList <+:
      (prng (charCodes "b987380d8edbb0448190cd10094bc26769dc7bdaef08c2d89e1d") 8).toList ∧
    prng (charCodes "b987380d8edbb0448190cd10094bc26769dc7bdaef08c2d89e1d") 4 = "7a4f" := by
  obtain ⟨hsalt, -, -⟩ :=
    prng_solver (charCodes "b987380d8edbb0448190cd10094bc26769dc7bdaef08c2d89e1")
  obtain ⟨htarget, -, hprefix⟩ :=
    prng_solver (charCodes "b987380d8edbb0448190cd10094bc26769dc7bdaef08c2d89e1d")
  refine ⟨?_, hprefix 4 8 (by decide), ?_⟩
  · rw [hsalt]
    decide +kernel
  · rw [htarget]
    decide +kernel

end DashFaucet

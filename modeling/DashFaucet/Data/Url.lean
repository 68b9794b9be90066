import DashFaucet.Data.Positional
import DashFaucet.Data.Text

/-!
# Where an https URL leads

The URL parser of the WHATWG, as far as it says which host and port an `https` URL leads to: the
host parser with its IPv4 parser, and ports. Hosts in brackets, percent-encoded or international
ones are not in it.

* `Url.ipv4Number`: a part of an IPv4 host is decimal, octal after a zero, or hexadecimal.
* `digits_decimal`: a number without a leading zero is written in one way.
* `parseIpv4_four`: the address of four parts.
* `parseIpv4_decimal_iff`: when it is the one that the parts say in decimal.
* `httpsTarget_eq`: the target of an URL with a host of four numbers and a port.
-/

namespace Url

open Positional

/-- The value of a hexadecimal digit. -/
def digit? (c : Char) : Option ℕ :=
  if c.isDigit then some (c.toNat - '0'.toNat)
  else if 'a' ≤ c ∧ c ≤ 'f' then some (c.toNat - 'a'.toNat + 10)
  else if 'A' ≤ c ∧ c ≤ 'F' then some (c.toNat - 'A'.toNat + 10)
  else none

/-- The number a text is in a base, if it is one. -/
def number (base : ℕ) (text : List Char) : Option ℕ := do
  let digits ← text.mapM digit?
  if digits.all (· < base) then some (value base digits) else none

/-- The IPv4 number parser. -/
def ipv4Number : List Char → Option ℕ
  | [] => none
  | '0' :: 'x' :: rest => number 16 rest
  | '0' :: 'X' :: rest => number 16 rest
  | '0' :: c :: rest => number 8 (c :: rest)
  | text => number 10 text

/-- The parts of a host, without an empty one at the end. -/
def ipv4Parts (host : List Char) : List (List Char) :=
  let parts := host.splitOn '.'
  if parts.getLast? = some [] ∧ 1 < parts.length then parts.dropLast else parts

/-- The ends-in-a-number checker. -/
def endsInNumber (host : List Char) : Bool :=
  match (ipv4Parts host).getLast? with
  | none => false
  | some part => Text.isDecimal part || (ipv4Number part).isSome

/-- The IPv4 parser. -/
def parseIpv4 (host : List Char) : Option ℕ :=
  if 4 < (ipv4Parts host).length then none
  else do
    let numbers ← (ipv4Parts host).mapM ipv4Number
    let others := numbers.dropLast
    let last := numbers.getLastD 0
    if others.any (· > 255) || decide (last ≥ 256 ^ (5 - numbers.length)) then none
    else some (last + (others.zipIdx.map fun entry => entry.1 * 256 ^ (3 - entry.2)).sum)

inductive Host where
  | ipv4 (address : ℕ)
  | domain (name : List Char)
  deriving DecidableEq

def parseHost (host : List Char) : Option Host :=
  if host = [] then none
  else if endsInNumber host then (parseIpv4 host).map .ipv4
  else some (.domain host)

/-- A port, or else the one of the scheme. -/
def parsePort (text : List Char) : Option ℕ :=
  if text = [] then some 443
  else if Text.isDecimal text ∧ Text.decimal text ≤ 65535 then some (Text.decimal text)
  else none

/-- The host and the port of an `https` URL, or `none` where the parser fails. -/
def httpsTarget (url : List Char) : Option (Host × ℕ) :=
  if "https://".toList.isPrefixOf url then
    let authority := (url.drop 8).takeWhile fun c => !(['/', '\\', '?', '#'].contains c)
    let hostPort := authority.rtakeWhile (· ≠ '@')
    let (host, port) := (Text.cut ':' hostPort).getD (hostPort, [])
    match parseHost host, parsePort port with
    | some host, some port => some (host, port)
    | _, _ => none
  else none

/-! ### Decimal and octal parts -/

/-- A decimal digit, and its value. -/
theorem digit?_of_isDigit {c : Char} (h : c.isDigit = true) :
    digit? c = some (c.toNat - '0'.toNat) := if_pos h

theorem sub_lt_of_isDigit {c : Char} (h : c.isDigit = true) : c.toNat - '0'.toNat < 10 := by
  rw [Char.isDigit, Bool.and_eq_true, decide_eq_true_eq, decide_eq_true_eq] at h
  have hle : c.toNat ≤ '9'.toNat := h.2
  have hnine : '9'.toNat = 57 := rfl
  have hzero : '0'.toNat = 48 := rfl
  omega

theorem mapM_digit? {text : List Char} (h : ∀ c ∈ text, c.isDigit = true) :
    text.mapM digit? = some (text.map fun c => c.toNat - '0'.toNat) :=
  mapM_eq_some_map_iff.mpr fun c hc => digit?_of_isDigit (h c hc)

theorem decimal_eq_value (text : List Char) :
    Text.decimal text = value 10 (text.map fun c => c.toNat - '0'.toNat) := by
  rw [Text.decimal, Text.digitsValue, value, List.foldl_map]
  congr 1
  funext n c
  rw [Nat.mul_comm]

/-- Decimal digits are a number in the base ten. -/
theorem number_ten {text : List Char} (h : ∀ c ∈ text, c.isDigit = true) :
    number 10 text = some (Text.decimal text) := by
  rw [number, mapM_digit? h, decimal_eq_value]
  refine if_pos (List.all_eq_true.mpr fun d hd => ?_)
  obtain ⟨c, hc, rfl⟩ := List.mem_map.mp hd
  exact decide_eq_true (sub_lt_of_isDigit (h c hc))

/-- A part that begins with a zero and is worth more than its last digit can be is read as
something else than it says, or not at all. -/
def Octal (part : List Char) : Prop := part.head? = some '0' ∧ 8 ≤ Text.decimal part

instance (part : List Char) : Decidable (Octal part) := instDecidableAnd

theorem value_singleton (b d : ℕ) : value b [d] = d := by
  rw [value, List.foldl_cons, List.foldl_nil, Nat.zero_mul, Nat.zero_add]

theorem value_pair (b d e : ℕ) : value b [d, e] = d * b + e := by
  rw [← List.singleton_append, value_append, value_singleton, value_singleton,
    List.length_singleton, Nat.pow_one]

/-- Two digits are the same number in the bases eight and ten only when they are less than eight. -/
theorem value_eight_iff {ds : List ℕ} (hlen : ds.length ≤ 2) :
    (if ds.all (· < 8) then some (value 8 ds) else none) = some (value 10 ds) ↔
      value 10 ds < 8 := by
  match ds, hlen with
  | [], _ => exact iff_of_true rfl (by decide)
  | [d], _ =>
    rw [value_singleton, value_singleton]
    by_cases hd : d < 8
    · exact iff_of_true (if_pos (by simp [hd])) hd
    · rw [if_neg (by simp [hd])]
      exact iff_of_false (by simp) hd
  | [d, e], _ =>
    rw [value_pair, value_pair]
    by_cases hds : d < 8 ∧ e < 8
    · rw [if_pos (by simp [hds]), Option.some_inj]
      omega
    · rw [if_neg (by simpa using hds)]
      refine iff_of_false (by simp) ?_
      omega

/-- A part that begins with a zero and goes on is read in the base eight. -/
theorem ipv4Number_zero {c : Char} {rest : List Char} (hc : c.isDigit = true) :
    ipv4Number ('0' :: c :: rest) = number 8 (c :: rest) := by
  unfold ipv4Number
  split
  · next heq => cases heq
  · next heq =>
    cases heq
    exact absurd hc (by decide)
  · next heq =>
    cases heq
    exact absurd hc (by decide)
  · next heq =>
    cases heq
    rfl
  · next hother =>
    exact absurd rfl (hother c rest)

theorem ipv4Number_of_ne_zero {c : Char} {rest : List Char} (hc : c ≠ '0') :
    ipv4Number (c :: rest) = number 10 (c :: rest) := by
  unfold ipv4Number
  split
  · next heq => cases heq
  · next heq => exact absurd (List.cons.inj heq).1 hc
  · next heq => exact absurd (List.cons.inj heq).1 hc
  · next heq => exact absurd (List.cons.inj heq).1 hc
  · rfl

theorem decimal_zero_cons (rest : List Char) :
    Text.decimal ('0' :: rest) = Text.decimal rest := rfl

/-- **A part is read as the decimal number that it says**, unless it is octal. -/
theorem ipv4Number_eq_decimal_iff {part : List Char} (hne : part ≠ [])
    (hdigits : ∀ c ∈ part, c.isDigit = true) (hlen : part.length ≤ 3) :
    ipv4Number part = some (Text.decimal part) ↔ ¬Octal part := by
  have hten := number_ten hdigits
  cases part with
  | nil => exact absurd rfl hne
  | cons c rest =>
    -- only a leading zero changes the base
    by_cases hc : c = '0'
    · subst hc
      obtain ⟨-, hrest⟩ := List.forall_mem_cons.mp hdigits
      have hoctal : ¬Octal ('0' :: rest) ↔ Text.decimal rest < 8 := by
        rw [Octal, decimal_zero_cons, ← Nat.not_le]
        exact not_congr (and_iff_right rfl)
      rw [hoctal]
      cases rest with
      | nil => exact iff_of_true rfl (by decide)
      | cons d rest =>
        rw [ipv4Number_zero (hrest d List.mem_cons_self), number, mapM_digit? hrest,
          decimal_zero_cons, decimal_eq_value]
        refine value_eight_iff ?_
        rw [List.length_map]
        exact Nat.le_of_succ_le_succ hlen
    · refine iff_of_true ?_ fun hoctal => hc (Option.some.inj hoctal.1)
      rw [ipv4Number_of_ne_zero hc, hten]

/-! ### Hosts of four parts -/

variable {parts : List (List Char)}

/-- A run of decimal digits that is a part of a host or a port: not empty, and no separator. -/
structure IsRun (text : List Char) : Prop where
  ne_nil : text ≠ []
  isDigit : ∀ c ∈ text, c.isDigit = true

theorem IsRun.notMem {text : List Char} (h : IsRun text) {c : Char} (hc : c.isDigit = false) :
    c ∉ text := fun hmem => by
  rw [h.isDigit c hmem] at hc
  cases hc

theorem IsRun.isDecimal {text : List Char} (h : IsRun text) : Text.isDecimal text = true := by
  rw [Text.isDecimal, List.all_eq_true.mpr h.isDigit, Bool.and_true, Bool.not_eq_true']
  exact List.isEmpty_eq_false_iff.mpr h.ne_nil

theorem digitChar_sub {c : Char} (h : c.isDigit = true) :
    Nat.digitChar (c.toNat - '0'.toNat) = c := by
  have hlt := sub_lt_of_isDigit h
  rw [Char.isDigit, Bool.and_eq_true, decide_eq_true_eq, decide_eq_true_eq] at h
  have hle : '0'.toNat ≤ c.toNat := h.1
  have hwrite : ∀ d < 10, Nat.digitChar d = Char.ofNat (d + '0'.toNat) := by decide
  rw [hwrite _ hlt, Nat.sub_add_cancel hle, Char.ofNat_toNat]

/-- **A number without a leading zero** is written in one way. -/
theorem digits_decimal {text : List Char} (h : IsRun text) (hhead : text.head? ≠ some '0') :
    (digits 10 (Text.decimal text)).map Nat.digitChar = text := by
  have hread : ∀ c ∈ text, Nat.digitChar (c.toNat - '0'.toNat) = c := fun c hc =>
    digitChar_sub (h.isDigit c hc)
  have hlt : ∀ d ∈ text.map fun c => c.toNat - '0'.toNat, d < 10 := by
    intro d hd
    obtain ⟨c, hc, rfl⟩ := List.mem_map.mp hd
    exact sub_lt_of_isDigit (h.isDigit c hc)
  rw [decimal_eq_value, digits_value (by decide) hlt]
  cases text with
  | nil => rfl
  | cons c text =>
    -- no leading zero, so no digit is dropped
    have hfirst : c.toNat - '0'.toNat ≠ 0 := by
      intro hzero
      have hc := hread c List.mem_cons_self
      rw [hzero] at hc
      exact hhead (congrArg some hc.symm)
    obtain ⟨hc, htext⟩ := List.forall_mem_cons.mp hread
    rw [List.map_cons, List.dropWhile_cons, if_neg fun h => hfirst (of_decide_eq_true h),
      List.map_cons, hc, List.map_map]
    exact congrArg (c :: ·) ((List.map_congr_left htext).trans (List.map_id _))

theorem ipv4Parts_intercalate (hne : parts ≠ []) (hruns : ∀ part ∈ parts, IsRun part) :
    ipv4Parts (['.'].intercalate parts) = parts := by
  rw [ipv4Parts, List.splitOn_intercalate '.' (fun part hpart =>
    (hruns part hpart).notMem (by decide)) hne]
  refine if_neg fun hlast => ?_
  exact (hruns [] (List.mem_of_getLast? hlast.1)).ne_nil rfl

theorem length_of_mapM {α β : Type} {f : α → Option β} {as : List α} {bs : List β}
    (h : as.mapM f = some bs) : bs.length = as.length := by
  induction as generalizing bs with
  | nil =>
    cases h
    rfl
  | cons a as ih =>
    rw [List.mapM_cons] at h
    obtain ⟨b, -, h⟩ := Option.bind_eq_some_iff.mp h
    obtain ⟨bs, hbs, h⟩ := Option.bind_eq_some_iff.mp h
    cases h
    rw [List.length_cons, List.length_cons, ih hbs]

/-- **The address of four parts.** -/
theorem parseIpv4_four (hlen : parts.length = 4) (hruns : ∀ part ∈ parts, IsRun part)
    {address : ℕ} : parseIpv4 (['.'].intercalate parts) = some address ↔
      ∃ numbers, parts.mapM ipv4Number = some numbers ∧ numbers.length = 4 ∧
        (∀ n ∈ numbers, n < 256) ∧ address = value 256 numbers := by
  have hne : parts ≠ [] := by
    rintro rfl
    cases hlen
  -- four parts are one byte each
  rw [parseIpv4, ipv4Parts_intercalate hne hruns, if_neg (by omega)]
  cases hnumbers : parts.mapM ipv4Number with
  | none =>
    refine iff_of_false (by rintro ⟨⟩) ?_
    rintro ⟨numbers, heq, -⟩
    cases heq
  | some numbers =>
    have hfour : numbers.length = 4 := (length_of_mapM hnumbers).trans hlen
    match numbers, hfour with
    | [a, b, c, d], _ =>
      have hsum : d + ((([a, b, c].zipIdx).map fun entry => entry.1 * 256 ^ (3 - entry.2)).sum) =
          value 256 [a, b, c, d] := by
        show d + (a * 256 ^ 3 + (b * 256 ^ 2 + (c * 256 ^ 1 + 0))) =
          (((0 * 256 + a) * 256 + b) * 256 + c) * 256 + d
        omega
      show (if ([a, b, c].any (· > 255) || decide (d ≥ 256 ^ 1)) = true then none
        else some (d + ((([a, b, c].zipIdx).map fun entry => entry.1 * 256 ^ (3 - entry.2)).sum))) =
          some address ↔ _
      rw [hsum]
      constructor
      · intro h
        split at h
        · cases h
        next hle =>
          refine ⟨_, rfl, rfl, ?_, (Option.some.inj h).symm⟩
          simpa [not_or, Nat.lt_succ_iff, and_assoc] using hle
      · rintro ⟨numbers, heq, -, hlt, rfl⟩
        cases heq
        refine if_neg ?_
        simpa [Nat.lt_succ_iff, and_assoc] using hlt

/-- **The address is the one that the parts say** in decimal, unless one of them is octal. -/
theorem parseIpv4_decimal_iff (hlen : parts.length = 4) (hruns : ∀ part ∈ parts, IsRun part)
    (hshort : ∀ part ∈ parts, part.length ≤ 3) (hlt : ∀ part ∈ parts, Text.decimal part < 256) :
    parseIpv4 (['.'].intercalate parts) = some (value 256 (parts.map Text.decimal)) ↔
      ∀ part ∈ parts, ¬Octal part := by
  have hmap : ∀ n ∈ parts.map Text.decimal, n < 256 := List.forall_mem_map.mpr hlt
  rw [parseIpv4_four hlen hruns]
  calc (∃ numbers, parts.mapM ipv4Number = some numbers ∧ numbers.length = 4 ∧
        (∀ n ∈ numbers, n < 256) ∧ value 256 (parts.map Text.decimal) = value 256 numbers)
      ↔ parts.mapM ipv4Number = some (parts.map Text.decimal) := by
        constructor
        · rintro ⟨numbers, hnumbers, hfour, hbytes, heq⟩
          rw [hnumbers, value_inj (by decide) ?_ hmap hbytes heq]
          rw [List.length_map, hlen, hfour]
        · exact fun h => ⟨_, h, by rw [List.length_map, hlen], hmap, rfl⟩
    _ ↔ ∀ part ∈ parts, ipv4Number part = some (Text.decimal part) := mapM_eq_some_map_iff
    _ ↔ ∀ part ∈ parts, ¬Octal part := forall₂_congr fun part hpart =>
        ipv4Number_eq_decimal_iff (hruns part hpart).ne_nil (hruns part hpart).isDigit
          (hshort part hpart)

/-- A host of numbers is read as an address. -/
theorem parseHost_intercalate (hlen : parts.length = 4) (hruns : ∀ part ∈ parts, IsRun part) :
    parseHost (['.'].intercalate parts) = (parseIpv4 (['.'].intercalate parts)).map .ipv4 := by
  have hne : parts ≠ [] := by
    rintro rfl
    cases hlen
  have hparts := ipv4Parts_intercalate hne hruns
  have hhost : ['.'].intercalate parts ≠ [] := by
    intro hnil
    rw [hnil] at hparts
    rw [← hparts] at hlen
    exact absurd hlen (by decide)
  have hends : endsInNumber (['.'].intercalate parts) = true := by
    rw [endsInNumber, hparts, List.getLast?_eq_some_getLast hne]
    dsimp only
    rw [(hruns _ (List.getLast_mem hne)).isDecimal, Bool.true_or]
  rw [parseHost, if_neg hhost, if_pos hends]

/-- The characters of a host of numbers and its port. -/
theorem mem_hostPort (hruns : ∀ part ∈ parts, IsRun part) {port : List Char} (hport : IsRun port)
    {c : Char} (hc : c ∈ ['.'].intercalate parts ++ ':' :: port) :
    c = '.' ∨ c = ':' ∨ c.isDigit = true := by
  rcases List.mem_append.mp hc with hc | hc
  · rcases Text.mem_intercalate hc with hdot | ⟨part, hpart, hc⟩
    · exact .inl hdot
    · exact .inr (.inr ((hruns part hpart).isDigit c hc))
  · rcases List.mem_cons.mp hc with hcolon | hc
    · exact .inr (.inl hcolon)
    · exact .inr (.inr (hport.isDigit c hc))

theorem colon_notMem_host (hruns : ∀ part ∈ parts, IsRun part) :
    ':' ∉ ['.'].intercalate parts := by
  intro hc
  rcases Text.mem_intercalate hc with hdot | ⟨part, hpart, hc⟩
  · exact absurd hdot (by decide)
  · exact (hruns part hpart).notMem (by decide) hc

/-- The authority ends where the path begins. -/
theorem takeWhile_authority {authority path : List Char}
    (hauthority : ∀ c ∈ authority, (!(['/', '\\', '?', '#'].contains c)) = true)
    (hpath : path = [] ∨ path.head? = some '/') :
    (authority ++ path).takeWhile (fun c => !(['/', '\\', '?', '#'].contains c)) = authority := by
  rw [List.takeWhile_append_of_pos hauthority]
  rcases hpath with rfl | hslash
  · exact List.append_nil _
  · cases path with
    | nil => cases hslash
    | cons c path =>
      rw [Option.some.inj hslash, List.takeWhile_cons_of_neg (by decide), List.append_nil]

/-- **The target of an URL** with a host of four numbers and a port, whatever path follows. -/
theorem httpsTarget_eq (hlen : parts.length = 4) (hruns : ∀ part ∈ parts, IsRun part)
    {port : List Char} (hport : IsRun port) (hle : Text.decimal port ≤ 65535)
    {path : List Char} (hpath : path = [] ∨ path.head? = some '/') :
    httpsTarget ("https://".toList ++ (['.'].intercalate parts ++ ':' :: port ++ path)) =
      (parseIpv4 (['.'].intercalate parts)).map fun address =>
        (.ipv4 address, Text.decimal port) := by
  -- nothing in the authority ends it, and there are no credentials in it
  have hapart : ∀ c ∈ ['.'].intercalate parts ++ ':' :: port,
      (!(['/', '\\', '?', '#'].contains c)) = true ∧ decide (c ≠ '@') = true := by
    intro c hc
    have hother : ∀ d : Char, d.isDigit = false → d ≠ '.' → d ≠ ':' → c ≠ d := by
      rintro d hd hdot hcolon rfl
      rcases mem_hostPort hruns hport hc with h | h | h
      · exact hdot h
      · exact hcolon h
      · rw [h] at hd
        cases hd
    simp [hother '/' (by decide) (by decide) (by decide),
      hother '\\' (by decide) (by decide) (by decide),
      hother '?' (by decide) (by decide) (by decide),
      hother '#' (by decide) (by decide) (by decide),
      hother '@' (by decide) (by decide) (by decide)]
  have hrtake : (['.'].intercalate parts ++ ':' :: port).rtakeWhile (· ≠ '@') =
      ['.'].intercalate parts ++ ':' :: port :=
    List.rtakeWhile_eq_self_iff.mpr fun c hc => (hapart c hc).2
  have hparsed : parsePort port = some (Text.decimal port) := by
    rw [parsePort, if_neg hport.ne_nil, if_pos ⟨hport.isDecimal, hle⟩]
  rw [httpsTarget, if_pos (List.isPrefixOf_iff_prefix.mpr (List.prefix_append _ _)),
    show (8 : ℕ) = "https://".toList.length from rfl, List.drop_left,
    takeWhile_authority (fun c hc => (hapart c hc).1) hpath]
  dsimp only
  rw [hrtake, Text.cut_append (colon_notMem_host hruns), Option.getD_some]
  dsimp only
  rw [parseHost_intercalate hlen hruns, hparsed]
  cases parseIpv4 (['.'].intercalate parts) with
  | none => rfl
  | some address => rfl

end Url

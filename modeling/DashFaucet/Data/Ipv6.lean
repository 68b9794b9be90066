import DashFaucet.Data.Url

/-!
# IPv6 addresses in text

The spellings of RFC 4291: groups in hexadecimal, `::` once for groups of zeros, the last two groups
as an IPv4 address, and a zone behind all that.

* `Ipv6.Spelling`: a spelling, with its `text` and the `address` that it is of.
* `network_eq_iff`: the first 48 bits are the first three groups.
* `Spelling.takeWhile_text`: the zone is what is behind the first `%`.
-/

namespace Ipv6

open Positional

/-- A group: up to four hexadecimal digits, in upper or lower case. -/
structure Hextet where
  text : List Char
  ne_nil : text ≠ []
  length_le : text.length ≤ 4
  isDigit : ∀ c ∈ text, (Url.digit? c).isSome = true

/-- The number that hexadecimal digits stand for. -/
def hexValue (text : List Char) : ℕ := value 16 (text.filterMap Url.digit?)

def Hextet.value (hextet : Hextet) : ℕ := hexValue hextet.text

/-- An IPv4 address in decimal. -/
structure Quad where
  parts : List (List Char)
  length_eq : parts.length = 4
  isRun : ∀ part ∈ parts, Url.IsRun part
  length_le : ∀ part ∈ parts, part.length ≤ 3
  lt : ∀ part ∈ parts, Text.decimal part < 256

def Quad.text (quad : Quad) : List Char := ['.'].intercalate quad.parts

/-- The two groups that it stands for. -/
def Quad.groups (quad : Quad) : List ℕ :=
  let octets := quad.parts.map Text.decimal
  [value 256 (octets.take 2), value 256 (octets.drop 2)]

/-- A spelling of an address: the groups, those behind `::` if it is there, the address of IPv4 that
may be the last two groups, and a zone. `::` is for one group of zeros at least. -/
structure Spelling where
  head : List Hextet
  tail : Option (List Hextet)
  quad : Option Quad
  zone : Option (List Char)
  length_eq : tail = none → head.length + 2 * quad.toList.length = 8
  length_le : ∀ groups, tail = some groups →
    head.length + groups.length + 2 * quad.toList.length ≤ 7

namespace Spelling

variable (s : Spelling)

/-- How many groups are spelled out. -/
def spelled : ℕ := s.head.length + (s.tail.getD []).length + 2 * s.quad.toList.length

/-- The groups of the address. -/
def groups : List ℕ :=
  s.head.map Hextet.value ++ List.replicate (8 - s.spelled) 0 ++
    (s.tail.getD []).map Hextet.value ++ s.quad.toList.flatMap Quad.groups

/-- The address, of 128 bits. -/
def address : ℕ := value 65536 s.groups

/-- The first 48 bits of the address. -/
def network : ℕ := s.address / 2 ^ 80

/-- What is put down behind `::`, or without it behind the groups. -/
def last : List (List Char) := s.quad.toList.map Quad.text

/-- The spelling without the zone. -/
def body : List Char :=
  match s.tail with
  | none => [':'].intercalate (s.head.map Hextet.text ++ s.last)
  | some tail => [':'].intercalate (s.head.map Hextet.text) ++ ':' :: ':' ::
      [':'].intercalate (tail.map Hextet.text ++ s.last)

def text : List Char :=
  match s.zone with
  | none => s.body
  | some zone => s.body ++ '%' :: zone

end Spelling

/-! ### Groups -/

theorem lt_of_digit? {c : Char} {d : ℕ} (h : Url.digit? c = some d) : d < 16 := by
  have hle : ∀ {c d : Char}, c ≤ d → c.toNat ≤ d.toNat := fun hcd => hcd
  rw [Url.digit?] at h
  split at h
  next hdigit =>
    rw [← Option.some.inj h]
    exact (Url.sub_lt_of_isDigit hdigit).trans (by decide)
  · split at h
    next hlower =>
      have hc : c.toNat ≤ 102 := hle hlower.2
      have ha : 'a'.toNat = 97 := rfl
      have hd := Option.some.inj h
      omega
    · split at h
      next hupper =>
        have hc : c.toNat ≤ 70 := hle hupper.2
        have ha : 'A'.toNat = 65 := rfl
        have hd := Option.some.inj h
        omega
      · cases h

theorem Hextet.value_lt (hextet : Hextet) : hextet.value < 65536 := by
  have hdigits : ∀ d ∈ hextet.text.filterMap Url.digit?, d < 16 := fun d hd => by
    obtain ⟨c, -, hc⟩ := List.mem_filterMap.mp hd
    exact lt_of_digit? hc
  calc hextet.value < 16 ^ (hextet.text.filterMap Url.digit?).length :=
        Positional.value_lt (by decide) hdigits
    _ ≤ 16 ^ 4 := Nat.pow_le_pow_right (by decide)
        ((List.length_filterMap_le _ _).trans hextet.length_le)

theorem Quad.groups_lt (quad : Quad) : ∀ group ∈ quad.groups, group < 65536 := by
  have hlt : ∀ octet ∈ quad.parts.map Text.decimal, octet < 256 := List.forall_mem_map.mpr quad.lt
  have hlen : (quad.parts.map Text.decimal).length = 4 := by
    rw [List.length_map, quad.length_eq]
  -- two octets are less than 256 times 256
  have hpair : ∀ octets : List ℕ, octets.length = 2 → (∀ octet ∈ octets, octet < 256) →
      Positional.value 256 octets < 65536 := fun octets hlen hlt => by
    have hvalue := Positional.value_lt (by decide) hlt
    rwa [hlen] at hvalue
  have htake := hpair ((quad.parts.map Text.decimal).take 2) (by rw [List.length_take, hlen]; rfl)
    fun octet hmem => hlt octet (List.mem_of_mem_take hmem)
  have hdrop := hpair ((quad.parts.map Text.decimal).drop 2) (by rw [List.length_drop, hlen])
    fun octet hmem => hlt octet (List.mem_of_mem_drop hmem)
  exact List.forall_mem_cons.mpr ⟨htake, List.forall_mem_singleton.mpr hdrop⟩

namespace Spelling

variable {s t : Spelling}

theorem spelled_le (s : Spelling) : s.spelled ≤ 8 := by
  rw [spelled]
  cases htail : s.tail with
  | none =>
    have heq := s.length_eq htail
    rw [Option.getD_none, List.length_nil]
    omega
  | some tail =>
    have hle := s.length_le tail htail
    rw [Option.getD_some]
    omega

theorem length_quad_groups (s : Spelling) :
    (s.quad.toList.flatMap Quad.groups).length = 2 * s.quad.toList.length := by
  cases s.quad with
  | none => rfl
  | some quad => rfl

theorem length_groups (s : Spelling) : s.groups.length = 8 := by
  have hle := s.spelled_le
  have hspelled : s.spelled = s.head.length + (s.tail.getD []).length +
      2 * s.quad.toList.length := rfl
  rw [groups, List.length_append, List.length_append, List.length_append, List.length_map,
    List.length_replicate, List.length_map, length_quad_groups]
  omega

theorem groups_lt (s : Spelling) : ∀ group ∈ s.groups, group < 65536 := by
  intro group hmem
  rw [groups, List.mem_append, List.mem_append, List.mem_append] at hmem
  rcases hmem with ((hmem | hmem) | hmem) | hmem
  · obtain ⟨hextet, -, rfl⟩ := List.mem_map.mp hmem
    exact hextet.value_lt
  · rw [(List.mem_replicate.mp hmem).2]
    decide
  · obtain ⟨hextet, -, rfl⟩ := List.mem_map.mp hmem
    exact hextet.value_lt
  · obtain ⟨quad, -, hgroup⟩ := List.mem_flatMap.mp hmem
    exact quad.groups_lt group hgroup

theorem network_eq (s : Spelling) : s.network = value 65536 (s.groups.take 3) := by
  have hlen : (s.groups.drop 3).length = 5 := by rw [List.length_drop, s.length_groups]
  have hlt : ∀ group ∈ s.groups.drop 3, group < 65536 := fun group hmem =>
    s.groups_lt group (List.mem_of_mem_drop hmem)
  have hdiv : value 65536 (s.groups.take 3 ++ s.groups.drop 3) / 65536 ^ (s.groups.drop 3).length =
      value 65536 (s.groups.take 3) := value_append_div (by decide) hlt
  rw [List.take_append_drop, hlen] at hdiv
  exact hdiv

/-- **The first 48 bits are the first three groups.** -/
theorem network_eq_iff : s.network = t.network ↔ s.groups.take 3 = t.groups.take 3 := by
  rw [network_eq, network_eq]
  constructor
  · refine value_inj (by decide) ?_
      (fun group hmem => s.groups_lt group (List.mem_of_mem_take hmem))
      fun group hmem => t.groups_lt group (List.mem_of_mem_take hmem)
    rw [List.length_take, List.length_take, s.length_groups, t.length_groups]
  · exact congrArg _

end Spelling

/-! ### Texts -/

/-- A part of a body between colons. -/
structure IsPart (text : List Char) : Prop where
  ne_nil : text ≠ []
  colon : ':' ∉ text
  percent : '%' ∉ text

theorem Hextet.isPart (hextet : Hextet) : IsPart hextet.text := by
  have hnot : ∀ {c : Char}, Url.digit? c = none → c ∉ hextet.text := fun hc hmem => by
    have hsome := hextet.isDigit _ hmem
    rw [hc] at hsome
    cases hsome
  exact ⟨hextet.ne_nil, hnot (by decide), hnot (by decide)⟩

theorem Quad.isPart (quad : Quad) : IsPart quad.text := by
  have hnot : ∀ {c : Char}, c.isDigit = false → c ≠ '.' → c ∉ quad.text := fun hc hdot hmem => by
    rcases Text.mem_intercalate hmem with heq | ⟨part, hpart, hmem⟩
    · exact hdot heq
    · exact (quad.isRun part hpart).notMem hc hmem
  refine ⟨fun hnil => ?_, hnot (by decide) (by decide), hnot (by decide) (by decide)⟩
  -- four parts have three points between them
  match hparts : quad.parts, quad.length_eq with
  | part :: part' :: parts, _ =>
    rw [Quad.text, hparts, List.intercalate_cons_cons] at hnil
    exact absurd (List.append_eq_nil_iff.mp (List.append_eq_nil_iff.mp hnil).1).2 (by decide)

namespace Spelling

theorem isPart_head (s : Spelling) : ∀ part ∈ s.head.map Hextet.text, IsPart part :=
  List.forall_mem_map.mpr fun hextet _ => hextet.isPart

theorem isPart_last (s : Spelling) : ∀ part ∈ s.last, IsPart part :=
  List.forall_mem_map.mpr fun quad _ => quad.isPart

theorem percent_notMem_body (s : Spelling) : '%' ∉ s.body := by
  have hparts : ∀ parts : List (List Char), (∀ part ∈ parts, IsPart part) →
      '%' ∉ [':'].intercalate parts := fun parts hparts hmem => by
    rcases Text.mem_intercalate hmem with heq | ⟨part, hpart, hmem⟩
    · exact absurd heq (by decide)
    · exact (hparts part hpart).percent hmem
  rw [body]
  cases s.tail with
  | none => exact hparts _ (List.forall_mem_append.mpr ⟨s.isPart_head, s.isPart_last⟩)
  | some tail =>
    have htail : ∀ part ∈ tail.map Hextet.text, IsPart part :=
      List.forall_mem_map.mpr fun hextet _ => hextet.isPart
    have hlast := hparts _ (List.forall_mem_append.mpr ⟨htail, s.isPart_last⟩)
    simp only [List.mem_append, List.mem_cons, not_or]
    exact ⟨hparts _ s.isPart_head, by decide, by decide, hlast⟩

/-- **The zone is what is behind the first `%`.** -/
theorem takeWhile_text (s : Spelling) : s.text.takeWhile (· ≠ '%') = s.body := by
  have hall : ∀ c ∈ s.body, decide (c ≠ '%') = true := fun c hc =>
    decide_eq_true fun heq => s.percent_notMem_body (heq ▸ hc)
  rw [text]
  cases s.zone with
  | none => exact List.takeWhile_eq_self_iff.mpr hall
  | some zone =>
    show (s.body ++ '%' :: zone).takeWhile _ = _
    rw [List.takeWhile_append_of_pos hall, List.takeWhile_cons_of_neg (by decide), List.append_nil]

end Spelling

end Ipv6

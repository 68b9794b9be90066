import DashFaucet.Chain.Sampling
import DashFaucet.Data.Reader
import DashFaucet.Data.Url

/-!
# The origins of evonodes

An address is checked as it reads in decimal, and used as the URL parser reads it. The two agree
unless one of the dotted parts is octal.

* `ipv4Port_spec`: the shape of what the regular expression accepts.
* `evonodeOrigin_eq_some_iff`: which addresses have an origin.
* `isPublicIpv4_iff`: public is outside of the special blocks.
* `denotesChecked_iff`: when an address is used as it is checked.
* `plainList_of_unpadded`: without leading zeros all of a list is.
* `sound_origins_iff`, `sound_exec`: and the lists of a directory, in every run.
-/

namespace DashFaucet

open Positional

namespace Evonodes

/-! ### What is accepted -/

variable {text rest run port : List Char} {parts : List (List Char)} {max : ℕ}

theorem digitRun_eq_some (h : digitRun max text = some (run, rest)) :
    text = run ++ rest ∧ Url.IsRun run ∧ run.length ≤ max := by
  simp only [digitRun] at h
  split at h
  next hlen =>
    cases h
    refine ⟨?_, ⟨List.ne_nil_of_length_pos hlen.1, fun c hc => ?_⟩, hlen.2⟩
    · nth_rewrite 1 [← List.takeWhile_append_dropWhile (p := Char.isDigit) (l := text)]
      congr 1
      nth_rewrite 3 [← List.takeWhile_append_dropWhile (p := Char.isDigit) (l := text)]
      rw [List.drop_left]
    · exact List.mem_takeWhile_imp hc
  · cases h

theorem after_eq_some {c : Char} (h : after c text = some rest) : text = c :: rest := by
  cases text with
  | nil => cases h
  | cons d text =>
    rw [after] at h
    split at h
    next hd =>
      cases h
      rw [hd]
    · cases h

/-- **The shape of an address** that the regular expression accepts. -/
theorem ipv4Port_spec (h : ipv4Port text = some (parts, port)) :
    parts.length = 4 ∧ (∀ part ∈ parts, Url.IsRun part ∧ part.length ≤ 3) ∧ Url.IsRun port ∧
      text = ['.'].intercalate parts ++ ':' :: port := by
  obtain ⟨⟨a, rest⟩, ha, h⟩ := Option.bind_eq_some_iff.mp h
  obtain ⟨rest, hdotA, h⟩ := Option.bind_eq_some_iff.mp h
  obtain ⟨⟨b, rest⟩, hb, h⟩ := Option.bind_eq_some_iff.mp h
  obtain ⟨rest, hdotB, h⟩ := Option.bind_eq_some_iff.mp h
  obtain ⟨⟨c, rest⟩, hc, h⟩ := Option.bind_eq_some_iff.mp h
  obtain ⟨rest, hdotC, h⟩ := Option.bind_eq_some_iff.mp h
  obtain ⟨⟨d, rest⟩, hd, h⟩ := Option.bind_eq_some_iff.mp h
  obtain ⟨rest, hcolon, h⟩ := Option.bind_eq_some_iff.mp h
  obtain ⟨⟨port, rest⟩, hport, h⟩ := Option.bind_eq_some_iff.mp h
  dsimp only at *
  split at h
  next hend =>
    cases h
    -- four runs with dots, a colon and a last run, with nothing behind
    obtain ⟨htext, hrunA, hleA⟩ := digitRun_eq_some ha
    obtain ⟨hafterA, hrunB, hleB⟩ := digitRun_eq_some hb
    obtain ⟨hafterB, hrunC, hleC⟩ := digitRun_eq_some hc
    obtain ⟨hafterC, hrunD, hleD⟩ := digitRun_eq_some hd
    obtain ⟨hlast, hrunPort, -⟩ := digitRun_eq_some hport
    refine ⟨rfl, ?_, hrunPort, ?_⟩
    · simp only [List.forall_mem_cons]
      exact ⟨⟨hrunA, hleA⟩, ⟨hrunB, hleB⟩, ⟨hrunC, hleC⟩, ⟨hrunD, hleD⟩, fun _ hp => nomatch hp⟩
    · rw [htext, after_eq_some hdotA, hafterA, after_eq_some hdotB, hafterB, after_eq_some hdotC,
        hafterC, after_eq_some hcolon, hlast, hend]
      simp [List.intercalate_cons_cons]
  · cases h

/-- The dotted parts of an address, and its port. -/
def written (address : String) : List (List Char) × List Char :=
  (ipv4Port address.toList).getD ([], [])

/-- The decimal numbers of an address, and its port: what is checked. -/
def numbers (address : String) : List ℕ × ℕ :=
  ((written address).1.map Text.decimal, Text.decimal (written address).2)

/-- An address that passes the checks. -/
structure Accepted (address : String) : Prop where
  isSome : (ipv4Port address.toList).isSome = true
  le : ∀ octet ∈ (numbers address).1, octet ≤ 255
  port_pos : 1 ≤ (numbers address).2
  port_le : (numbers address).2 ≤ 65535
  isPublic : isPublicIpv4 (numbers address).1 = true

/-- **The addresses that have an origin.** -/
theorem evonodeOrigin_eq_some_iff {address origin : String} :
    evonodeOrigin address = some origin ↔ Accepted address ∧ origin = "https://" ++ address := by
  cases h : ipv4Port address.toList with
  | none =>
    rw [evonodeOrigin, h]
    refine iff_of_false (by rintro ⟨⟩) fun hacc => ?_
    have hsome := hacc.1.isSome
    rw [h] at hsome
    cases hsome
  | some found =>
    obtain ⟨parts, port⟩ := found
    have hnumbers : numbers address = (parts.map Text.decimal, Text.decimal port) := by
      rw [numbers, written, h, Option.getD_some]
    simp only [evonodeOrigin, h]
    constructor
    · intro horigin
      split at horigin
      · cases horigin
      next hrange =>
        split at horigin
        -- four numbers in range and an address that is public
        next hpublic =>
          cases horigin
          rw [Bool.or_eq_true, Bool.or_eq_true, List.any_eq_true, decide_eq_true_eq,
            decide_eq_true_eq] at hrange
          refine ⟨⟨by rw [h]; rfl, ?_, ?_, ?_, ?_⟩, rfl⟩ <;> rw [hnumbers]
          · intro octet hmem
            by_contra hgt
            exact hrange (.inl (.inl ⟨octet, hmem, decide_eq_true (Nat.lt_of_not_le hgt)⟩))
          · by_contra hlt
            exact hrange (.inl (.inr (Nat.lt_of_not_le hlt)))
          · by_contra hgt
            exact hrange (.inr (Nat.lt_of_not_le hgt))
          · exact hpublic
        · cases horigin
    · rintro ⟨hacc, rfl⟩
      obtain ⟨-, hle, hpos, hport, hpublic⟩ := hacc
      rw [hnumbers] at hle hpos hport hpublic
      have hrange : ¬((parts.map Text.decimal).any (fun o => decide (o > 255)) ||
          decide (Text.decimal port < 1) || decide (Text.decimal port > 65535)) = true := by
        rw [Bool.or_eq_true, Bool.or_eq_true, List.any_eq_true, decide_eq_true_eq,
          decide_eq_true_eq]
        rintro ((⟨octet, hmem, hgt⟩ | hlt) | hgt)
        · exact absurd (hle octet hmem) (Nat.not_le_of_lt (of_decide_eq_true hgt))
        · exact absurd hpos (Nat.not_le_of_lt hlt)
        · exact absurd hport (Nat.not_le_of_lt hgt)
      rw [if_neg hrange, if_pos hpublic]

/-! ### Public addresses -/

/-- The special blocks of IPv4: the octets of the first address, and the length of the prefix. -/
def specialBlocks : List (List ℕ × ℕ) :=
  [([0, 0, 0, 0], 8), ([10, 0, 0, 0], 8), ([127, 0, 0, 0], 8), ([224, 0, 0, 0], 4),
    ([240, 0, 0, 0], 4), ([100, 64, 0, 0], 10), ([169, 254, 0, 0], 16), ([172, 16, 0, 0], 12),
    ([192, 168, 0, 0], 16), ([192, 0, 0, 0], 24), ([192, 0, 2, 0], 24), ([198, 18, 0, 0], 15),
    ([198, 51, 100, 0], 24), ([203, 0, 113, 0], 24)]

/-- An address begins as a block does. -/
def InBlock (block : List ℕ × ℕ) (address : ℕ) : Prop :=
  address / 2 ^ (32 - block.2) = value 256 block.1 / 2 ^ (32 - block.2)

theorem value_four (b c d e f : ℕ) : value b [c, d, e, f] = ((c * b + d) * b + e) * b + f := by
  simp [value]

/-- Public is outside of the special blocks. -/
theorem isPublicIpv4_iff {a b c d : ℕ} (ha : a < 256) (hb : b < 256) (hc : c < 256) (hd : d < 256) :
    isPublicIpv4 [a, b, c, d] = true ↔
      ∀ block ∈ specialBlocks, ¬InBlock block (value 256 [a, b, c, d]) := by
  -- how an address begins
  have h4 : value 256 [a, b, c, d] / 2 ^ 28 = a / 16 := by rw [value_four]; omega
  have h8 : value 256 [a, b, c, d] / 2 ^ 24 = a := by rw [value_four]; omega
  have h10 : value 256 [a, b, c, d] / 2 ^ 22 = (a * 256 + b) / 64 := by rw [value_four]; omega
  have h12 : value 256 [a, b, c, d] / 2 ^ 20 = (a * 256 + b) / 16 := by rw [value_four]; omega
  have h15 : value 256 [a, b, c, d] / 2 ^ 17 = (a * 256 + b) / 2 := by rw [value_four]; omega
  have h16 : value 256 [a, b, c, d] / 2 ^ 16 = a * 256 + b := by rw [value_four]; omega
  have h24 : value 256 [a, b, c, d] / 2 ^ 8 = (a * 256 + b) * 256 + c := by rw [value_four]; omega
  simp only [specialBlocks, List.forall_mem_cons, InBlock, Nat.reduceSub, h4, h8, h10, h12, h15,
    h16, h24, List.not_mem_nil, false_implies, implies_true, and_true]
  -- the checks of the code, one by one
  have hhigh : a ≥ 224 ↔ a / 16 = 14 ∨ a / 16 = 15 := by omega
  have hshared : a = 100 ∧ b ≥ 64 ∧ b ≤ 127 ↔ (a * 256 + b) / 64 = 401 := by omega
  have hlink : a = 169 ∧ b = 254 ↔ a * 256 + b = 43518 := by omega
  have hprivate : a = 172 ∧ b ≥ 16 ∧ b ≤ 31 ↔ (a * 256 + b) / 16 = 2753 := by omega
  have hprivate' : a = 192 ∧ b = 168 ↔ a * 256 + b = 49320 := by omega
  have hdocs : a = 192 ∧ b = 0 ∧ (c = 0 ∨ c = 2) ↔
      (a * 256 + b) * 256 + c = 12582912 ∨ (a * 256 + b) * 256 + c = 12582914 := by omega
  have hbench : a = 198 ∧ (b = 18 ∨ b = 19) ↔ (a * 256 + b) / 2 = 25353 := by omega
  have hdocs' : a = 198 ∧ b = 51 ∧ c = 100 ↔ (a * 256 + b) * 256 + c = 12989284 := by omega
  have hdocs'' : a = 203 ∧ b = 0 ∧ c = 113 ↔ (a * 256 + b) * 256 + c = 13303921 := by omega
  simp only [isPublicIpv4, List.getD_cons_zero, List.getD_cons_succ, Bool.not_eq_true',
    Bool.eq_false_iff, Ne, Bool.or_eq_true, Bool.and_eq_true, decide_eq_true_eq, beq_iff_eq,
    hhigh, hshared, hlink, hprivate, hprivate', hdocs, hbench, hdocs', hdocs'', not_or, and_assoc]
  exact Iff.rfl

/-! ### What the URL leads to -/

variable {address origin : String} {addresses : List String}

/-- No dotted part of an address is octal. -/
def Plain (address : String) : Prop := ∀ part ∈ (written address).1, ¬Url.Octal part

instance (address : String) : Decidable (Plain address) := List.decidableBAll _ _

/-- The URLs of an origin lead to the host and the port that are checked: four octets, in no special
block. -/
structure DenotesChecked (address origin : String) : Prop where
  target : ∀ path : List Char, path = [] ∨ path.head? = some '/' →
    Url.httpsTarget (origin.toList ++ path) =
      some (.ipv4 (value 256 (numbers address).1), (numbers address).2)
  length : (numbers address).1.length = 4
  lt : ∀ octet ∈ (numbers address).1, octet < 256
  outside : ∀ block ∈ specialBlocks, ¬InBlock block (value 256 (numbers address).1)
  port_pos : 1 ≤ (numbers address).2
  port_le : (numbers address).2 ≤ 65535

/-- What passes the checks is well formed. -/
theorem Accepted.spec (h : Accepted address) :
    (written address).1.length = 4 ∧
      (∀ part ∈ (written address).1, Url.IsRun part ∧ part.length ≤ 3) ∧
      Url.IsRun (written address).2 ∧
      address.toList = ['.'].intercalate (written address).1 ++ ':' :: (written address).2 := by
  obtain ⟨found, hfound⟩ := Option.isSome_iff_exists.mp h.isSome
  have hwritten : written address = found := by rw [written, hfound, Option.getD_some]
  rw [hwritten]
  exact ipv4Port_spec hfound

theorem Accepted.length (h : Accepted address) : (numbers address).1.length = 4 := by
  rw [numbers, List.length_map]
  exact h.spec.1

theorem Accepted.lt (h : Accepted address) : ∀ octet ∈ (numbers address).1, octet < 256 :=
  fun octet hmem => Nat.lt_succ_of_le (h.le octet hmem)

theorem Accepted.outside (h : Accepted address) :
    ∀ block ∈ specialBlocks, ¬InBlock block (value 256 (numbers address).1) := by
  have hlen := h.length
  have hlt := h.lt
  have hpublic := h.isPublic
  match hnumbers : (numbers address).1, hlen with
  | [a, b, c, d], _ =>
    rw [hnumbers] at hlt hpublic
    simp only [List.forall_mem_cons] at hlt
    exact (isPublicIpv4_iff hlt.1 hlt.2.1 hlt.2.2.1 hlt.2.2.2.1).mp hpublic

/-- **Where the URLs of an accepted address lead**, whatever path follows. -/
theorem httpsTarget_origin (h : Accepted address) {path : List Char}
    (hpath : path = [] ∨ path.head? = some '/') :
    Url.httpsTarget (("https://" ++ address).toList ++ path) =
      (Url.parseIpv4 (['.'].intercalate (written address).1)).map fun host =>
        (.ipv4 host, (numbers address).2) := by
  obtain ⟨hlen, hparts, hport, htext⟩ := h.spec
  rw [String.toList_append, htext, List.append_assoc]
  exact Url.httpsTarget_eq hlen (fun part hpart => (hparts part hpart).1) hport h.port_le hpath

/-- **An address is used as it is checked** unless one of its parts is octal. -/
theorem denotesChecked_iff (horigin : evonodeOrigin address = some origin) :
    DenotesChecked address origin ↔ Plain address := by
  obtain ⟨hacc, rfl⟩ := evonodeOrigin_eq_some_iff.mp horigin
  obtain ⟨hlen, hparts, -, -⟩ := hacc.spec
  have hdecimal : Url.parseIpv4 (['.'].intercalate (written address).1) =
      some (value 256 (numbers address).1) ↔ Plain address :=
    Url.parseIpv4_decimal_iff hlen (fun part hpart => (hparts part hpart).1)
      (fun part hpart => (hparts part hpart).2)
      fun part hpart => hacc.lt _ (List.mem_map_of_mem hpart)
  rw [← hdecimal]
  constructor
  · intro hdenotes
    have htarget := hdenotes.target [] (.inl rfl)
    rw [httpsTarget_origin hacc (.inl rfl)] at htarget
    obtain ⟨host, hhost, heq⟩ := Option.map_eq_some_iff.mp htarget
    rw [hhost, Url.Host.ipv4.inj (Prod.mk.inj heq).1]
  · intro hhost
    refine ⟨fun path hpath => ?_, hacc.length, hacc.lt, hacc.outside, hacc.port_pos, hacc.port_le⟩
    rw [httpsTarget_origin hacc hpath, hhost, Option.map_some]

/-! ### Lists of origins -/

/-- Addresses that are used as they are checked, each of them spelled in one way. -/
structure PlainList (addresses : List String) : Prop where
  plain : ∀ address ∈ addresses, Accepted address → Plain address
  once : ∀ address ∈ addresses, ∀ address' ∈ addresses, Accepted address → Accepted address' →
    numbers address = numbers address' → address = address'

/-- Origins that lead where they were checked to lead, each of them to a target of its own. -/
structure Sound (kept : List String) : Prop where
  checked : ∀ origin ∈ kept, ∃ address,
    evonodeOrigin address = some origin ∧ DenotesChecked address origin
  apart : ∀ origin ∈ kept, ∀ origin' ∈ kept, origin ≠ origin' →
    Url.httpsTarget origin.toList ≠ Url.httpsTarget origin'.toList

theorem mem_origins : origin ∈ origins addresses ↔
    ∃ address ∈ addresses, evonodeOrigin address = some origin := by
  rw [origins, List.mem_eraseDups, List.mem_filterMap]

theorem origin_inj {address' : String} (h : "https://" ++ address = "https://" ++ address') :
    address = address' := by
  have hlist := congrArg String.toList h
  rw [String.toList_append, String.toList_append] at hlist
  exact String.toList_inj.mp (List.append_cancel_left hlist)

theorem DenotesChecked.target_nil (h : DenotesChecked address origin) :
    Url.httpsTarget origin.toList =
      some (.ipv4 (value 256 (numbers address).1), (numbers address).2) := by
  have htarget := h.target [] (.inl rfl)
  rwa [List.append_nil] at htarget

/-- Targets are the same where the numbers are. -/
theorem DenotesChecked.target_inj {address' origin' : String} (h : DenotesChecked address origin)
    (h' : DenotesChecked address' origin')
    (htarget : Url.httpsTarget origin.toList = Url.httpsTarget origin'.toList) :
    numbers address = numbers address' := by
  rw [h.target_nil, h'.target_nil, Option.some_inj] at htarget
  obtain ⟨hhost, hport⟩ := Prod.mk.inj htarget
  refine Prod.ext (value_inj (by decide) ?_ h.lt h'.lt (Url.Host.ipv4.inj hhost)) hport
  rw [h.length, h'.length]

/-- **The origins of a list are sound** exactly if its addresses are plain. -/
theorem sound_origins_iff : Sound (origins addresses) ↔ PlainList addresses := by
  constructor
  · -- an origin stands for one address only, so what holds of the origins holds of those
    intro hsound
    have hdenotes : ∀ address ∈ addresses, Accepted address →
        "https://" ++ address ∈ origins addresses ∧
          DenotesChecked address ("https://" ++ address) := by
      intro address hmem hacc
      have hkept := mem_origins.mpr ⟨address, hmem, evonodeOrigin_eq_some_iff.mpr ⟨hacc, rfl⟩⟩
      obtain ⟨address', horigin', hdenotes⟩ := hsound.checked _ hkept
      rw [← origin_inj (evonodeOrigin_eq_some_iff.mp horigin').2] at hdenotes
      exact ⟨hkept, hdenotes⟩
    refine ⟨fun address hmem hacc => ?_, fun address hmem address' hmem' hacc hacc' heq => ?_⟩
    · exact (denotesChecked_iff (evonodeOrigin_eq_some_iff.mpr ⟨hacc, rfl⟩)).mp
        (hdenotes address hmem hacc).2
    · obtain ⟨hkept, hchecked⟩ := hdenotes address hmem hacc
      obtain ⟨hkept', hchecked'⟩ := hdenotes address' hmem' hacc'
      by_contra hne
      refine hsound.apart _ hkept _ hkept' (fun horigin => hne (origin_inj horigin)) ?_
      rw [hchecked.target_nil, hchecked'.target_nil, heq]
  · intro hplain
    have hchecked : ∀ origin ∈ origins addresses, ∃ address ∈ addresses,
        evonodeOrigin address = some origin ∧ DenotesChecked address origin := by
      intro origin hmem
      obtain ⟨address, hmem, horigin⟩ := mem_origins.mp hmem
      exact ⟨address, hmem, horigin, (denotesChecked_iff horigin).mpr
        (hplain.plain address hmem (evonodeOrigin_eq_some_iff.mp horigin).1)⟩
    refine ⟨fun origin hmem => ?_, fun origin hmem origin' hmem' hne htarget => hne ?_⟩
    · obtain ⟨address, -, h⟩ := hchecked origin hmem
      exact ⟨address, h⟩
    · obtain ⟨address, hlisted, horigin, hdenotes⟩ := hchecked origin hmem
      obtain ⟨address', hlisted', horigin', hdenotes'⟩ := hchecked origin' hmem'
      obtain ⟨hacc, rfl⟩ := evonodeOrigin_eq_some_iff.mp horigin
      obtain ⟨hacc', rfl⟩ := evonodeOrigin_eq_some_iff.mp horigin'
      rw [hplain.once _ hlisted _ hlisted' hacc hacc' (hdenotes.target_inj hdenotes' htarget)]

/-- No number in an address begins with a zero. -/
def Unpadded (address : String) : Prop :=
  ∀ part ∈ (written address).2 :: (written address).1, part.head? ≠ some '0'

instance (address : String) : Decidable (Unpadded address) := List.decidableBAll _ _

/-- Without leading zeros an address is the text of its numbers. -/
theorem Unpadded.written_eq (h : Unpadded address) (hacc : Accepted address) :
    written address =
      ((numbers address).1.map fun n => (digits 10 n).map Nat.digitChar,
        (digits 10 (numbers address).2).map Nat.digitChar) := by
  obtain ⟨-, hparts, hport, -⟩ := hacc.spec
  obtain ⟨hheadPort, hheads⟩ := List.forall_mem_cons.mp h
  have hwrite : ∀ part ∈ (written address).1,
      (digits 10 (Text.decimal part)).map Nat.digitChar = part := fun part hpart =>
    Url.digits_decimal (hparts part hpart).1 (hheads part hpart)
  rw [numbers]
  dsimp only
  rw [Url.digits_decimal hport hheadPort, List.map_map]
  exact Prod.ext ((List.map_congr_left hwrite).trans (List.map_id _)).symm rfl

/-- **A list without leading zeros is plain.** -/
theorem plainList_of_unpadded (h : ∀ address ∈ addresses, Unpadded address) :
    PlainList addresses where
  plain address hmem _ part hpart hoctal :=
    h address hmem part (List.mem_cons_of_mem _ hpart) hoctal.1
  once address hmem address' hmem' hacc hacc' heq := by
    obtain ⟨-, -, -, htext⟩ := hacc.spec
    obtain ⟨-, -, -, htext'⟩ := hacc'.spec
    have hwritten : written address = written address' := by
      rw [(h address hmem).written_eq hacc, (h address' hmem').written_eq hacc', heq]
    rw [hwritten, ← htext'] at htext
    exact String.toList_inj.mp htext

/-- The lists that are compiled in are plain. -/
theorem plainList_bootstrap (network : NetworkName) : PlainList (bootstrap network) := by
  refine plainList_of_unpadded ?_
  cases network <;> decide +kernel

end Evonodes

/-! ### Runs of the directory -/

namespace EvonodeDirectory

open Evonodes

variable {string : Json → Except String String} {network : NetworkName} {event : Event}
  {directory directory' : EvonodeDirectory}

/-- The addresses that a reply lists. -/
def listed (string : Json → Except String String) (parse : Json → Except String (List Json))
    (reply : Except String Json) : Except String (List String) := do
  let body ← reply
  let found ← parse body
  found.mapM string

/-- The event is discovery, and one of its two replies lists the addresses. -/
def Lists (string : Json → Except String String) (network : NetworkName)
    (addresses : List String) : Event → Prop
  | .discovered replies _ =>
    listed string parseQuorumService (replies (sources network).1) = .ok addresses ∨
      listed string parseExplorer (replies (sources network).2) = .ok addresses
  | _ => False

theorem ok_of_toOption {α ε : Type} {x : Except ε α} {a : α} (h : x.toOption = some a) :
    x = .ok a := by
  cases x with
  | ok b => rw [Option.some.inj h]
  | error e => cases h

theorem attempt_eq_ok {parse : Json → Except String (List Json)} {reply : Except String Json}
    {found : List String} (h : attempt string parse reply = .ok found) :
    ∃ addresses, listed string parse reply = .ok addresses ∧ found = origins addresses := by
  obtain ⟨body, hbody, h⟩ := Except.of_bind_ok h
  obtain ⟨items, hitems, h⟩ := Except.of_bind_ok h
  obtain ⟨addresses, haddresses, h⟩ := Except.of_bind_ok h
  dsimp only at h
  split at h
  · cases h
  · cases h
    refine ⟨addresses, ?_, rfl⟩
    rw [listed, hbody]
    show (parse body).bind _ = _
    rw [hitems]
    exact haddresses

/-- What discovery leaves: the list as it was, or the origins of a list that it read. -/
theorem stored_discovered (replies : String → Except String Json) (now : ℕ) :
    (directory.discovered string replies now).network = directory.network ∧
      ((directory.discovered string replies now).stored = directory.stored ∨
        ∃ addresses, Lists string directory.network addresses (.discovered replies now) ∧
          (directory.discovered string replies now).stored = origins addresses) := by
  have hrelist : ∀ found, (directory.relist found).stored = found := fun found => Heap.read_alloc
  simp only [discovered]
  split
  next name found heq =>
    refine ⟨rfl, .inr ?_⟩
    -- the first of the two sources that listed anything
    obtain ⟨source, hmem, hsource⟩ := List.exists_of_findSome?_eq_some heq
    obtain ⟨found', hfound, hpair⟩ := Option.map_eq_some_iff.mp hsource
    obtain ⟨-, rfl⟩ := Prod.mk.inj hpair
    obtain ⟨addresses, hlisted, rfl⟩ := attempt_eq_ok (ok_of_toOption hfound)
    refine ⟨addresses, ?_, hrelist _⟩
    rcases List.mem_cons.mp hmem with rfl | hmem
    · exact .inl hlisted
    · rw [List.mem_singleton.mp hmem] at hlisted
      exact .inr hlisted
  · exact ⟨rfl, .inl rfl⟩

/-- **What an event leaves**: the list as it was, or the origins of a list that it read. -/
theorem stored_step (h : directory.step string event = some directory') :
    directory'.network = directory.network ∧
      (directory'.stored = directory.stored ∨
        ∃ addresses, Lists string directory.network addresses event ∧
          directory'.stored = origins addresses) := by
  have hrefresh : ∀ now, (directory.refresh now).network = directory.network := fun now => by
    rw [refresh]
    split <;> rfl
  cases event with
  | sample asked now n draw =>
    cases h
    exact ⟨hrefresh asked, .inl (sample_stored asked now n draw)⟩
  | bench origin now =>
    cases h
    exact ⟨rfl, .inl rfl⟩
  | refresh now =>
    cases h
    exact ⟨hrefresh now, .inl (@refresh_spec directory now now).1⟩
  -- only a discovery that was asked for changes the list
  | discovered replies now =>
    rw [step] at h
    split at h
    · cases h
      exact stored_discovered replies now
    · cases h

/-- **In every run on plain lists** the origins stay sound. -/
theorem sound_exec {events : List Event} (hsound : Sound directory.stored)
    (hplain : ∀ event ∈ events, ∀ addresses, Lists string directory.network addresses event →
      PlainList addresses)
    (h : directory.exec string events = some directory') : Sound directory'.stored := by
  induction events generalizing directory with
  | nil =>
    cases h
    exact hsound
  | cons event events ih =>
    obtain ⟨next, hstep, h⟩ := Option.bind_eq_some_iff.mp h
    obtain ⟨hnow, hlater⟩ := List.forall_mem_cons.mp hplain
    obtain ⟨hnetwork, hstored⟩ := stored_step hstep
    refine ih ?_ (hnetwork ▸ hlater) h
    rcases hstored with heq | ⟨addresses, hlists, heq⟩
    · rwa [heq]
    · rw [heq]
      exact sound_origins_iff.mpr (hnow addresses hlists)

/-- **When evonodes are reached as they were checked.** An accepted address leads to the public host
and the port that were checked exactly if it is plain; the origins of a list do, and to different
targets, exactly if the list is plain; and so does every list that a directory has, in every run in
which the lists that it reads are plain. -/
theorem kept_origins_sound_iff (address origin : String) (addresses : List String)
    (string : Json → Except String String) (network : NetworkName) (events : List Event)
    (directory : EvonodeDirectory) :
    (evonodeOrigin address = some origin → (DenotesChecked address origin ↔ Plain address)) ∧
      (Sound (origins addresses) ↔ PlainList addresses) ∧
      ((∀ event ∈ events, ∀ found, Lists string network found event → PlainList found) →
        (init network).exec string events = some directory → Sound directory.stored) :=
  ⟨denotesChecked_iff, sound_origins_iff, fun hplain =>
    sound_exec (sound_origins_iff.mpr (plainList_bootstrap network)) hplain⟩

/-- A plain address leads where it was checked to lead, and with both services down the directory
keeps the list that is compiled in. -/
theorem kept_origins_sound_iff_offline :
    DenotesChecked "68.67.122.10:1443" "https://68.67.122.10:1443" ∧
      ∃ directory, (init .testnet).exec (fun _ => .error "TypeError")
          [.refresh 0, .discovered (fun _ => .error "offline") 5] = some directory ∧
        Sound directory.stored := by
  obtain ⟨haddress, -, hrun⟩ := kept_origins_sound_iff "68.67.122.10:1443"
    "https://68.67.122.10:1443" [] (fun _ => .error "TypeError") .testnet
    [.refresh 0, .discovered (fun _ => .error "offline") 5] _
  refine ⟨(haddress (by decide)).mpr (by decide), _, rfl, ?_⟩
  refine hrun (fun event hmem addresses hlists => ?_) rfl
  rcases List.mem_cons.mp hmem with rfl | hmem
  · cases hlists
  · rw [List.mem_singleton.mp hmem] at hlists
    rcases hlists with hlists | hlists <;> cases hlists

/-- The entries of a quorum service that lists these addresses. -/
def enabled (addresses : List String) : Json :=
  .obj [("data", .arr (addresses.map fun address => .obj
    [("status", .str "ENABLED"), ("versionCheck", .str "success"),
      ("addresses", .obj [("platform_https", .arr [.str address])])]))]

/-- `String` of a text. -/
def textOf : Json → Except String String
  | .str s => .ok s
  | _ => .error "TypeError"

/-- Ten spellings of one node. -/
def spellings : List String :=
  ["1.2.3.4:443", "01.2.3.4:443", "001.2.3.4:443", "1.02.3.4:443", "1.002.3.4:443", "1.2.03.4:443",
    "1.2.003.4:443", "1.2.3.04:443", "1.2.3.004:443", "1.2.3.4:0443"]

/-- **An accepted address can lead to a private one**, or nowhere; and a list of one node alone can
pass for ten of them. -/
theorem octal_origins :
    (evonodeOrigin "012.1.2.3:443" = some "https://012.1.2.3:443" ∧
        Url.httpsTarget "https://012.1.2.3:443".toList =
          some (.ipv4 (value 256 [10, 1, 2, 3]), 443) ∧
        InBlock ([10, 0, 0, 0], 8) (value 256 [10, 1, 2, 3])) ∧
      (evonodeOrigin "09.1.2.3:443" = some "https://09.1.2.3:443" ∧
        Url.httpsTarget "https://09.1.2.3:443".toList = none) ∧
      (∃ directory, (init .testnet).exec textOf
          [.refresh 0, .discovered (fun _ => .ok (enabled spellings)) 0] = some directory ∧
        directory.stored = spellings.map ("https://" ++ ·) ∧ directory.stored.Nodup ∧
        ∀ origin ∈ directory.stored, Url.httpsTarget origin.toList =
          some (.ipv4 (value 256 [1, 2, 3, 4]), 443)) ∧
      ¬(∀ address origin, evonodeOrigin address = some origin → DenotesChecked address origin) ∧
      ¬∀ addresses, Sound (origins addresses) := by
  -- a leading zero makes 10 out of 012
  have hprivate : Url.httpsTarget "https://012.1.2.3:443".toList =
      some (.ipv4 (value 256 [10, 1, 2, 3]), 443) := by decide
  refine ⟨⟨by decide, hprivate, rfl⟩, ⟨by decide, by decide⟩, ⟨_, rfl, ?_, ?_, ?_⟩, ?_, ?_⟩
  · decide
  · decide
  · decide
  · intro hall
    have hdenotes := hall "012.1.2.3:443" "https://012.1.2.3:443" (by decide)
    have htarget := hdenotes.target_nil
    rw [hprivate] at htarget
    exact absurd htarget (by decide)
  · intro hall
    exact (hall ["1.2.3.4:443", "01.2.3.4:443"]).apart "https://1.2.3.4:443" (by decide)
      "https://01.2.3.4:443" (by decide) (by decide) (by decide)

end EvonodeDirectory

end DashFaucet

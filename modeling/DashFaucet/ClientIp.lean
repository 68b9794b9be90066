import DashFaucet.Data.Ipv6

/-!
# The address of a client

What the rate limits count by: `normalizeIp` (`http.ts`) cuts an IPv6 address to its first 48 bits,
as it is written. Two spellings of one network can be written differently there.

* `expanded_body`: the groups of a spelling, as they are taken from its text.
* `normalizeIp_text`: the bucket of a spelling.
* `normalizeIp_iff`: when the buckets are the networks; and a bucket is its own bucket.
-/

namespace DashFaucet

open Ipv6

/-- The groups of an address, with `::` expanded. -/
def expanded (addr : List Char) : List (List Char) :=
  match Text.splitDouble ':' addr with
  | [before, behind] =>
    let head := if before = [] then [] else before.splitOn ':'
    let tail := if behind = [] then [] else behind.splitOn ':'
    head ++ List.replicate (8 - head.length - tail.length) ['0'] ++ tail
  | _ => addr.splitOn ':'

/-- A network by its first three groups. -/
def bucket (front : List (List Char)) : List Char := [':'].intercalate front ++ "::/48".toList

/-- An address for rate limiting: IPv4 as it is, and IPv6 by its first 48 bits. -/
def normalizeIp (ip : List Char) : List Char :=
  if ':' ∈ ip then
    let groups := expanded (ip.takeWhile (· ≠ '%'))
    -- not something we recognise: it is used as it is
    if groups.length ≠ 8 then ip
    else bucket ((groups.take 3).map fun g => if g = [] then ['0'] else g)
  else ip

/-! ### Groups -/

variable {head tail parts front : List (List Char)} {addr : List Char}

theorem splitOn_parts (h : ∀ part ∈ parts, IsPart part) :
    (if [':'].intercalate parts = [] then [] else ([':'].intercalate parts).splitOn ':') =
      parts := by
  cases parts with
  | nil => rfl
  | cons part parts =>
    have hne : [':'].intercalate (part :: parts) ≠ [] := by
      obtain ⟨c, text, htext⟩ := List.exists_cons_of_ne_nil (h part List.mem_cons_self).ne_nil
      rw [htext, List.intercalate_cons_cons_left]
      exact List.cons_ne_nil _ _
    rw [if_neg hne, List.splitOn_intercalate ':' (fun part hpart => (h part hpart).colon)
      (List.cons_ne_nil _ _)]

/-- **Groups around `::`** are filled up to eight with zeros. -/
theorem expanded_double (hhead : ∀ part ∈ head, IsPart part) (htail : ∀ part ∈ tail, IsPart part) :
    expanded ([':'].intercalate head ++ ':' :: ':' :: [':'].intercalate tail) =
      head ++ List.replicate (8 - head.length - tail.length) ['0'] ++ tail := by
  have hsplit : Text.splitDouble ':' ([':'].intercalate head ++ ':' :: ':' ::
      [':'].intercalate tail) = [[':'].intercalate head, [':'].intercalate tail] := by
    have hlast := Text.splitDouble_intercalate (c := ':')
      (fun part hpart => ⟨(htail part hpart).ne_nil, (htail part hpart).colon⟩) []
    rw [List.append_nil] at hlast
    rw [Text.splitDouble_intercalate fun part hpart =>
      ⟨(hhead part hpart).ne_nil, (hhead part hpart).colon⟩, Text.splitDouble_double, hlast]
    show [[':'].intercalate head ++ [], [':'].intercalate tail ++ []] = _
    rw [List.append_nil, List.append_nil]
  rw [expanded, hsplit]
  dsimp only
  rw [splitOn_parts hhead, splitOn_parts htail]

/-- Groups without `::` are as they are. -/
theorem expanded_single (hne : parts ≠ []) (hparts : ∀ part ∈ parts, IsPart part) :
    expanded ([':'].intercalate parts) = parts := by
  have hsplit := Text.splitDouble_intercalate (c := ':')
    (fun part hpart => ⟨(hparts part hpart).ne_nil, (hparts part hpart).colon⟩) []
  rw [List.append_nil] at hsplit
  rw [expanded, hsplit]
  exact List.splitOn_intercalate ':' (fun part hpart => (hparts part hpart).colon) hne

theorem expanded_of_notMem (h : ':' ∉ addr) : expanded addr = [addr] := by
  have hsplit : Text.splitDouble ':' (addr ++ []) = _ := Text.splitDouble_append h
  rw [List.append_nil] at hsplit
  rw [expanded, hsplit]
  exact List.splitOn_eq_singleton h

/-- Groups have no colons in them, and nothing that is not in the address. -/
theorem mem_expanded (h : parts = expanded addr) :
    ∀ part ∈ parts, ∀ c ∈ part, c ≠ ':' ∧ (c ∈ addr ∨ c = '0') := by
  subst h
  have hhalf : ∀ half ∈ Text.splitDouble ':' addr,
      ∀ part ∈ (if half = [] then [] else half.splitOn ':'), ∀ c ∈ part,
        c ≠ ':' ∧ (c ∈ addr ∨ c = '0') := by
    intro half hmem part hpart c hc
    split at hpart
    · cases hpart
    · obtain ⟨hin, hne⟩ := Text.mem_of_mem_splitOn hpart c hc
      exact ⟨hne, .inl (Text.mem_of_mem_splitDouble hmem c hin)⟩
  intro part hpart c hc
  -- a part is of the front, of the zeros between, or of the back
  rw [expanded] at hpart
  split at hpart
  next before behind hsplit =>
    rw [hsplit] at hhalf
    rw [List.mem_append, List.mem_append] at hpart
    rcases hpart with (hpart | hpart) | hpart
    · exact hhalf before List.mem_cons_self part hpart c hc
    · rw [(List.mem_replicate.mp hpart).2, List.mem_singleton] at hc
      rw [hc]
      exact ⟨by decide, .inr rfl⟩
    · exact hhalf behind (List.mem_cons_of_mem _ List.mem_cons_self) part hpart c hc
  · obtain ⟨hin, hne⟩ := Text.mem_of_mem_splitOn hpart c hc
    exact ⟨hne, .inl hin⟩

/-! ### Buckets -/

theorem percent_notMem_bucket (hfront : ∀ part ∈ front, IsPart part) : '%' ∉ bucket front := by
  intro hmem
  rcases List.mem_append.mp hmem with hmem | hmem
  · rcases Text.mem_intercalate hmem with heq | ⟨part, hpart, hmem⟩
    · exact absurd heq (by decide)
    · exact (hfront part hpart).percent hmem
  · exact absurd hmem (by decide)

theorem takeWhile_bucket (hfront : ∀ part ∈ front, IsPart part) :
    (bucket front).takeWhile (· ≠ '%') = bucket front :=
  List.takeWhile_eq_self_iff.mpr fun _ hc =>
    decide_eq_true fun heq => percent_notMem_bucket hfront (heq ▸ hc)

/-- What a bucket is put together from. -/
theorem splitOn_bucket (hne : front ≠ []) (hfront : ∀ part ∈ front, IsPart part) :
    (bucket front).splitOn ':' = front ++ [[], "/48".toList] := by
  have hlast : "::/48".toList = ':' :: ':' :: "/48".toList := by decide
  rw [bucket, hlast, List.splitOn_append_cons_self,
    List.splitOn_intercalate ':' (fun part hpart => (hfront part hpart).colon) hne]
  rfl

/-- **A bucket is its own bucket.** -/
theorem normalizeIp_bucket (hlen : front.length = 3) (hfront : ∀ part ∈ front, IsPart part) :
    normalizeIp (bucket front) = bucket front := by
  have hcolon : ':' ∈ bucket front := List.mem_append_right _ (by decide)
  have hlast : ∀ part ∈ ["/48".toList], IsPart part :=
    List.forall_mem_singleton.mpr ⟨by decide, by decide, by decide⟩
  have hexpanded : expanded (bucket front) =
      front ++ List.replicate (8 - front.length - 1) ['0'] ++ ["/48".toList] := by
    have hdouble := expanded_double hfront hlast
    rw [List.intercalate_singleton] at hdouble
    exact hdouble
  have hmap : ∀ part ∈ front, (if part = [] then ['0'] else part) = part := fun part hpart =>
    if_neg (hfront part hpart).ne_nil
  rw [normalizeIp, if_pos hcolon, takeWhile_bucket hfront, hexpanded, hlen]
  rw [if_neg (by simp [hlen]), List.append_assoc, List.take_left' hlen, List.map_congr_left hmap,
    List.map_id']

/-- **Idempotence**, of any text at all. -/
theorem normalizeIp_normalizeIp (ip : List Char) :
    normalizeIp (normalizeIp ip) = normalizeIp ip := by
  by_cases hcolon : ':' ∈ ip
  · by_cases hlen : (expanded (ip.takeWhile (· ≠ '%'))).length = 8
    · have hnormal : normalizeIp ip = bucket (((expanded (ip.takeWhile (· ≠ '%'))).take 3).map
          fun g => if g = [] then ['0'] else g) := by
        rw [normalizeIp, if_pos hcolon, if_neg (not_not.mpr hlen)]
      rw [hnormal]
      -- a bucket of three groups without a colon is one already
      refine normalizeIp_bucket ?_ (List.forall_mem_map.mpr fun part hpart => ?_)
      · rw [List.length_map, List.length_take, hlen]
        rfl
      · have hchars := mem_expanded rfl part (List.mem_of_mem_take hpart)
        split
        · exact ⟨by decide, by decide, by decide⟩
        next hne =>
          refine ⟨hne, fun hmem => (hchars _ hmem).1 rfl, fun hmem => ?_⟩
          rcases (hchars _ hmem).2 with hin | hzero
          · exact absurd (List.mem_takeWhile_imp hin) (by decide)
          · exact absurd hzero (by decide)
    · have hnormal : normalizeIp ip = ip := by
        rw [normalizeIp, if_pos hcolon, if_pos hlen]
      rw [hnormal, hnormal]
  · have hnormal : normalizeIp ip = ip := by
      rw [normalizeIp, if_neg hcolon]
    rw [hnormal, hnormal]

/-! ### Spellings -/

variable {s t : Spelling}

/-- What a spelling writes for the groups, the zeros of `::` among them. An address of IPv4 at the
end counts as one of them. -/
def pieces (s : Spelling) : List (List Char) :=
  match s.tail with
  | none => s.head.map Hextet.text ++ s.last
  | some tail => s.head.map Hextet.text ++
      List.replicate (8 - s.head.length - (tail.length + s.last.length)) ['0'] ++
      (tail.map Hextet.text ++ s.last)

theorem isPart_tail (tail : List Hextet) (s : Spelling) :
    ∀ part ∈ tail.map Hextet.text ++ s.last, IsPart part :=
  List.forall_mem_append.mpr ⟨List.forall_mem_map.mpr fun hextet _ => hextet.isPart, s.isPart_last⟩

theorem isPart_pieces (s : Spelling) : ∀ part ∈ pieces s, IsPart part := by
  rw [pieces]
  cases s.tail with
  | none => exact isPart_tail s.head s
  | some tail =>
    refine List.forall_mem_append.mpr ⟨List.forall_mem_append.mpr ⟨s.isPart_head, ?_⟩,
      isPart_tail tail s⟩
    intro part hmem
    rw [(List.mem_replicate.mp hmem).2]
    exact ⟨by decide, by decide, by decide⟩

theorem length_last (s : Spelling) : s.last.length = s.quad.toList.length := List.length_map _

/-- There are eight of them, or seven if an address of IPv4 stands for two groups without `::`. -/
theorem length_pieces (s : Spelling) :
    (pieces s).length = 8 ∨ (s.tail = none ∧ (pieces s).length = 7) := by
  have hquad : s.quad.toList.length ≤ 1 := Option.length_toList_le
  have hlast := length_last s
  rw [pieces]
  cases htail : s.tail with
  | none =>
    have heq := s.length_eq htail
    dsimp only
    rw [List.length_append, List.length_map]
    rcases Nat.le_one_iff_eq_zero_or_eq_one.mp hquad with hnone | hone
    · exact .inl (by omega)
    · exact .inr ⟨rfl, by omega⟩
  | some tail =>
    have hle := s.length_le tail htail
    dsimp only
    rw [List.length_append, List.length_append, List.length_append, List.length_map,
      List.length_map, List.length_replicate]
    omega

/-- **The groups that are taken from a text** are those that it writes. -/
theorem expanded_body (s : Spelling) : expanded s.body = pieces s := by
  have hlen := length_pieces s
  rw [pieces] at hlen ⊢
  rw [Spelling.body]
  cases htail : s.tail with
  | none =>
    rw [htail] at hlen
    refine expanded_single ?_ (isPart_tail s.head s)
    rintro hnil
    dsimp only at hlen
    rw [hnil] at hlen
    rcases hlen with hlen | ⟨-, hlen⟩ <;> cases hlen
  | some tail =>
    have hdouble := expanded_double s.isPart_head (isPart_tail tail s)
    rwa [List.length_map, List.length_append, List.length_map] at hdouble

theorem colon_mem_text (s : Spelling) : ':' ∈ s.text := by
  have hbody : ':' ∈ s.body := by
    by_contra hnot
    have hone := congrArg List.length ((expanded_body s).symm.trans (expanded_of_notMem hnot))
    rcases length_pieces s with hlen | ⟨-, hlen⟩
    · rw [hlen] at hone
      cases hone
    · rw [hlen] at hone
      cases hone
  rw [← s.takeWhile_text] at hbody
  exact (List.takeWhile_prefix _).subset hbody

/-- **The bucket of a spelling**: of eight groups the first three, as they are written, or else the
text itself. -/
theorem normalizeIp_text (s : Spelling) : normalizeIp s.text =
    if (pieces s).length = 8 then bucket ((pieces s).take 3) else s.text := by
  rw [normalizeIp, if_pos (colon_mem_text s), s.takeWhile_text, expanded_body]
  by_cases hlen : (pieces s).length = 8
  · have hmap : ∀ part ∈ (pieces s).take 3, (if part = [] then ['0'] else part) = part :=
      fun part hpart => if_neg (isPart_pieces s part (List.mem_of_mem_take hpart)).ne_nil
    rw [if_neg (not_not.mpr hlen), if_pos hlen, List.map_congr_left hmap, List.map_id']
  · rw [if_pos hlen, if_neg hlen]

/-- What a spelling is counted by: its first three groups as it writes them, or all of it. -/
def written (s : Spelling) : List (List Char) :=
  if (pieces s).length = 8 then (pieces s).take 3 else [s.text]

theorem isPart_front (s : Spelling) : ∀ part ∈ (pieces s).take 3, IsPart part := fun part hpart =>
  isPart_pieces s part (List.mem_of_mem_take hpart)

theorem length_front (h : (pieces s).length = 8) : ((pieces s).take 3).length = 3 := by
  rw [List.length_take, h]
  rfl

theorem front_ne_nil (h : (pieces s).length = 8) : (pieces s).take 3 ≠ [] := by
  rw [← List.length_pos_iff, length_front h]
  decide

theorem front_ne_singleton (h : (pieces s).length = 8) (text : List Char) :
    (pieces s).take 3 ≠ [text] := by
  intro heq
  have hcount := (length_front h).symm.trans (congrArg List.length heq)
  cases hcount

theorem splitOn_body (h : (pieces s).length = 7) : s.body.splitOn ':' = pieces s := by
  rcases length_pieces s with hlen | ⟨htail, -⟩
  · rw [h] at hlen
    cases hlen
  have hbody : s.body = [':'].intercalate (pieces s) := by rw [Spelling.body, pieces, htail]
  rw [hbody]
  exact List.splitOn_intercalate ':' (fun part hpart => (isPart_pieces s part hpart).colon)
    (List.ne_nil_of_length_pos (by omega))

/-- A text of seven groups is no bucket. -/
theorem bucket_ne_text (hs : (pieces s).length = 8) (ht : (pieces t).length = 7) :
    bucket ((pieces s).take 3) ≠ t.text := by
  intro heq
  have hbody := congrArg (List.takeWhile (· ≠ '%')) heq
  rw [takeWhile_bucket (isPart_front s), t.takeWhile_text] at hbody
  have hsplit := congrArg (List.splitOn ':') hbody
  rw [splitOn_bucket (front_ne_nil hs) (isPart_front s), splitOn_body ht] at hsplit
  have hcount := congrArg List.length hsplit
  rw [List.length_append, length_front hs, ht] at hcount
  cases hcount

theorem bucket_inj (hs : (pieces s).length = 8) (ht : (pieces t).length = 8)
    (h : bucket ((pieces s).take 3) = bucket ((pieces t).take 3)) :
    (pieces s).take 3 = (pieces t).take 3 := by
  have hsplit := congrArg (List.splitOn ':') h
  rw [splitOn_bucket (front_ne_nil hs) (isPart_front s),
    splitOn_bucket (front_ne_nil ht) (isPart_front t)] at hsplit
  exact List.append_cancel_right hsplit

/-- **Buckets are the same** exactly if what is written is. -/
theorem same_bucket_iff : normalizeIp s.text = normalizeIp t.text ↔ written s = written t := by
  rw [normalizeIp_text, normalizeIp_text, written, written]
  rcases length_pieces s with hs | ⟨-, hs⟩ <;> rcases length_pieces t with ht | ⟨-, ht⟩
  · rw [if_pos hs, if_pos ht, if_pos hs, if_pos ht]
    exact ⟨bucket_inj hs ht, congrArg bucket⟩
  · rw [if_pos hs, if_neg (by omega), if_pos hs, if_neg (by omega)]
    exact iff_of_false (bucket_ne_text hs ht) (front_ne_singleton hs t.text)
  · rw [if_neg (by omega), if_pos ht, if_neg (by omega), if_pos ht]
    exact iff_of_false (bucket_ne_text ht hs).symm (front_ne_singleton ht s.text).symm
  · rw [if_neg (by omega), if_neg (by omega), if_neg (by omega), if_neg (by omega)]
    exact ⟨fun heq => by rw [heq], fun heq => List.singleton_inj.mp heq⟩

/-! ### Networks -/

/-- Behind `::` there are four groups at least and an address of IPv4, which counts as one group:
the groups are taken to be one place further back than they are. -/
def Shifted (s : Spelling) : Prop := s.quad ≠ none ∧ 4 ≤ (s.tail.getD []).length

theorem map_hexValue (hextets : List Hextet) :
    (hextets.map Hextet.text).map hexValue = hextets.map Hextet.value := List.map_map

/-- The groups of a spelling with `::`, and what it writes for them. -/
theorem groups_of_tail {tail : List Hextet} (htail : s.tail = some tail) :
    s.groups = s.head.map Hextet.value ++
        List.replicate (8 - (s.head.length + tail.length + 2 * s.quad.toList.length)) 0 ++
        (tail.map Hextet.value ++ s.quad.toList.flatMap Quad.groups) ∧
      (pieces s).map hexValue = s.head.map Hextet.value ++
        List.replicate (8 - (s.head.length + tail.length + s.quad.toList.length)) 0 ++
        (tail.map Hextet.value ++ s.last.map hexValue) := by
  have hzero : hexValue ['0'] = 0 := by decide
  constructor
  · rw [Spelling.groups, Spelling.spelled, htail, Option.getD_some, List.append_assoc]
  · have hpieces : pieces s = s.head.map Hextet.text ++
        List.replicate (8 - s.head.length - (tail.length + s.last.length)) ['0'] ++
        (tail.map Hextet.text ++ s.last) := by rw [pieces, htail]
    rw [hpieces, List.map_append, List.map_append, List.map_append, map_hexValue, map_hexValue,
      List.map_replicate, hzero, length_last, Nat.sub_sub, ← Nat.add_assoc]

/-- **What is written of the first three groups**, if it is not shifted. -/
theorem take_groups (h : ¬Shifted s) : s.groups.take 3 = ((pieces s).take 3).map hexValue := by
  cases htail : s.tail with
  | none =>
    -- six groups are hexadecimal at least
    have hlen := s.length_eq htail
    have hquad : s.quad.toList.length ≤ 1 := Option.length_toList_le
    have hhead : 3 ≤ s.head.length := by omega
    rw [Spelling.groups, pieces, htail, List.append_assoc, List.append_assoc,
      List.take_append_of_le_length (by rwa [List.length_map]),
      List.take_append_of_le_length (by rwa [List.length_map]), List.map_take, map_hexValue]
  | some tail =>
    have hle := s.length_le tail htail
    obtain ⟨hgroups, hpieces⟩ := groups_of_tail htail
    rw [List.map_take, hgroups, hpieces]
    cases hquad : s.quad with
    | none =>
      -- all groups are hexadecimal
      rw [Spelling.last, hquad]
      rfl
    | some quad =>
      -- the zeros reach to the third group, and one more of them changes nothing
      have hcount : s.quad.toList.length = 1 := by rw [hquad]; rfl
      have hshort : tail.length ≤ 3 := by
        by_contra hlong
        refine h ⟨by rw [hquad]; exact Option.some_ne_none quad, ?_⟩
        rw [htail, Option.getD_some]
        omega
      obtain ⟨k, hk⟩ : ∃ k, 8 - (s.head.length + tail.length + 2 * 1) = k := ⟨_, rfl⟩
      have hfill : 8 - (s.head.length + tail.length + 1) = k + 1 := by omega
      have hthree : 3 ≤ (s.head.map Hextet.value ++ List.replicate k 0).length := by
        rw [List.length_append, List.length_map, List.length_replicate]
        omega
      have hsplit : ∀ others, s.head.map Hextet.value ++ List.replicate (k + 1) 0 ++ others =
          s.head.map Hextet.value ++ List.replicate k 0 ++ 0 :: others := fun others => by
        rw [List.replicate_succ', List.append_assoc, List.append_assoc, List.append_assoc]
        rfl
      rw [← hquad, hcount, hk, hfill, hsplit, List.take_append_of_le_length hthree,
        List.take_append_of_le_length hthree]

/-- What is written alike is of one network, if it is not shifted. -/
theorem network_eq_of_written (hs : ¬Shifted s) (ht : ¬Shifted t) (h : written s = written t) :
    s.network = t.network := by
  have hfront : (pieces s).take 3 = (pieces t).take 3 := by
    rw [written, written] at h
    rcases length_pieces s with hslen | ⟨-, hslen⟩ <;>
      rcases length_pieces t with htlen | ⟨-, htlen⟩
    · rwa [if_pos hslen, if_pos htlen] at h
    · rw [if_pos hslen, if_neg (by omega)] at h
      exact absurd h (front_ne_singleton hslen t.text)
    · rw [if_neg (by omega), if_pos htlen] at h
      exact absurd h.symm (front_ne_singleton htlen s.text)
    · -- texts that are the same have the same groups
      rw [if_neg (by omega), if_neg (by omega), List.singleton_inj] at h
      rw [← expanded_body, ← expanded_body, ← s.takeWhile_text, ← t.takeWhile_text, h]
  rw [Spelling.network_eq_iff, take_groups hs, take_groups ht, hfront]

/-- Two spellings of one network that write it alike, or of two networks that do not. Where nothing
is shifted the latter cannot be. -/
structure Regular (s t : Spelling) : Prop where
  alike : s.network = t.network → written s = written t
  apart : s.network ≠ t.network → Shifted s ∨ Shifted t → written s ≠ written t

/-- In hexadecimal alone, what matters is how the first three groups are written. -/
theorem regular_iff (hs : s.quad = none) (ht : t.quad = none) : Regular s t ↔
    (s.network = t.network → (pieces s).take 3 = (pieces t).take 3) := by
  -- without a quad every piece stands for one group
  have height : ∀ {s : Spelling}, s.quad = none →
      ¬Shifted s ∧ written s = (pieces s).take 3 := fun {s} hquad => by
    refine ⟨fun hshifted => hshifted.1 hquad, if_pos ?_⟩
    have hlast : s.last.length = 0 := by rw [length_last, hquad]; rfl
    rcases length_pieces s with hlen | ⟨htail, hlen⟩
    · exact hlen
    · have heq := s.length_eq htail
      rw [hquad] at heq
      rw [pieces, htail] at hlen
      dsimp only at hlen
      rw [List.length_append, List.length_map, hlast] at hlen
      change s.head.length + 0 = 8 at heq
      omega
  obtain ⟨hs, hswritten⟩ := height hs
  obtain ⟨ht, htwritten⟩ := height ht
  rw [← hswritten, ← htwritten]
  refine ⟨fun hregular => hregular.alike, fun h => ⟨h, fun _ hshifted => ?_⟩⟩
  exact absurd hshifted (not_or.mpr ⟨hs, ht⟩)

/-- **When the buckets are the networks.** Two spellings get one bucket exactly if they are of one
network, unless the network is written in two ways, or shifted groups are read as those of another
one; in hexadecimal alone, unless the first three groups are written in two ways. A bucket is its
own bucket, whatever the text is. -/
theorem normalizeIp_iff (s t : Spelling) (ip : List Char) :
    ((normalizeIp s.text = normalizeIp t.text ↔ s.network = t.network) ↔ Regular s t) ∧
      (s.quad = none → t.quad = none →
        (Regular s t ↔ (s.network = t.network → (pieces s).take 3 = (pieces t).take 3))) ∧
      normalizeIp (normalizeIp ip) = normalizeIp ip := by
  refine ⟨?_, regular_iff, normalizeIp_normalizeIp ip⟩
  rw [same_bucket_iff]
  constructor
  · exact fun hiff => ⟨hiff.mpr, fun hne _ heq => hne (hiff.mp heq)⟩
  · intro hregular
    refine ⟨fun heq => ?_, hregular.alike⟩
    by_contra hne
    by_cases hshifted : Shifted s ∨ Shifted t
    · exact hregular.apart hne hshifted heq
    · rw [not_or] at hshifted
      exact hne (network_eq_of_written hshifted.1 hshifted.2 heq)

def hextet (text : String) (h : text.toList ≠ [] ∧ text.toList.length ≤ 4 ∧
    text.toList.all (fun c => (Url.digit? c).isSome) = true) : Hextet :=
  ⟨text.toList, h.1, h.2.1, List.all_eq_true.mp h.2.2⟩

/-- `2001:x::1`. -/
def documentation (x : Hextet) : Spelling where
  head := [hextet "2001" (by decide), x]
  tail := some [hextet "1" (by decide)]
  quad := none
  zone := none
  length_eq := nofun
  length_le := by
    rintro _ ⟨⟩
    exact show 2 + 1 + 2 * 0 ≤ 7 by decide

/-- `::1:x:3:4:5:1.2.3.4`. -/
def mixed (x : Hextet) : Spelling where
  head := []
  tail := some [hextet "1" (by decide), x, hextet "3" (by decide), hextet "4" (by decide),
    hextet "5" (by decide)]
  quad := some ⟨["1".toList, "2".toList, "3".toList, "4".toList], rfl, by
    simp only [List.forall_mem_cons]
    exact ⟨⟨by decide, List.all_eq_true.mp (by decide)⟩,
      ⟨by decide, List.all_eq_true.mp (by decide)⟩, ⟨by decide, List.all_eq_true.mp (by decide)⟩,
      ⟨by decide, List.all_eq_true.mp (by decide)⟩, fun _ h => nomatch h⟩, by decide, by decide⟩
  zone := none
  length_eq := nofun
  length_le := by
    rintro _ ⟨⟩
    exact show 0 + 5 + 2 * 1 ≤ 7 by decide

/-- **One network has many buckets**, and two networks can have one. -/
theorem normalizeIp_spellings :
    (∃ s t : Spelling, s.text = "2001:DB8::1".toList ∧ t.text = "2001:db8::1".toList ∧
        s.address = t.address ∧ normalizeIp s.text = "2001:DB8:0::/48".toList ∧
        normalizeIp t.text = "2001:db8:0::/48".toList) ∧
      (∃ s t : Spelling, s.text = "2001:0db8::1".toList ∧ t.text = "2001:db8::1".toList ∧
        s.address = t.address ∧ normalizeIp s.text = "2001:0db8:0::/48".toList ∧
        normalizeIp t.text = "2001:db8:0::/48".toList) ∧
      (∃ s t : Spelling, s.text = "::1:2:3:4:5:1.2.3.4".toList ∧
        t.text = "::1:9:3:4:5:1.2.3.4".toList ∧ s.network ≠ t.network ∧
        normalizeIp s.text = normalizeIp t.text) ∧
      ¬∀ s t : Spelling, normalizeIp s.text = normalizeIp t.text ↔ s.network = t.network := by
  let upper := documentation (hextet "DB8" (by decide))
  let lower := documentation (hextet "db8" (by decide))
  let padded := documentation (hextet "0db8" (by decide))
  let two := mixed (hextet "2" (by decide))
  let nine := mixed (hextet "9" (by decide))
  refine ⟨⟨upper, lower, ?_⟩, ⟨padded, lower, ?_⟩, ⟨two, nine, ?_⟩, fun hall => ?_⟩
  · decide
  · decide
  · decide
  · have hsame := (hall upper lower).mpr (by decide)
    exact absurd hsame (by decide)

end DashFaucet

import DashFaucet.Chain.HostileBytes
import DashFaucet.Chain.Relays

/-!
# The tip and one liar

The tip decides which explorer is too far behind to be asked for coins. Configured providers count
individually, sampled evonodes by one vote. Whatever number a single evonode reports, the vote stays
within the lag allowance above the configured providers or below what another evonode reported. But
a height need not be a number: what an evonode answers can read as NaN, and a NaN that becomes the
vote becomes the tip, which nobody is behind.

* `exists_mem_erase_of_median`: the lower median of two or more values is at most one of the others.
* `ChainClient.Withstands`: the bounds of the tip, and which source is refused.
* `ChainClient.InNumbers`: when there are such bounds.
* `ChainClient.tipHeight_one_liar`: exactly then.
* `ChainClient.le_getUtxos_tip`: the tip is not below what everybody reports.
-/

namespace DashFaucet

open Async

/-! ### Order statistics -/

/-- **The lower median.** Of two or more values it is at most one of those that are left when any of
them is taken out. -/
theorem exists_mem_erase_of_median {α : Type} [DecidableEq α] {r : α → α → Prop} {l s : List α}
    (hperm : s.Perm l) (hsorted : s.Pairwise r) (hlen : 2 ≤ l.length) {m e : α} (hrefl : r m m)
    (hm : s[(s.length - 1) / 2]? = some m) (he : e ∈ l) : ∃ h ∈ l.erase e, r m h := by
  have hlength := hperm.length_eq
  obtain ⟨hmid, rfl⟩ := List.getElem?_eq_some_iff.mp hm
  obtain ⟨j, hj, rfl⟩ := List.getElem_of_mem (hperm.mem_iff.mpr he)
  have hleft : ∀ i (hi : i < s.length), i ≠ j → s[i] ∈ l.erase s[j] := by
    intro i hi hne
    rw [← (hperm.erase s[j]).mem_iff, (List.erase_getElem hj).mem_iff]
    exact List.mem_eraseIdx_iff_getElem.mpr ⟨i, hi, hne, rfl⟩
  by_cases hlast : j = s.length - 1
  · -- the largest is taken out: the median is not
    exact ⟨_, hleft _ hmid (by omega), hrefl⟩
  · refine ⟨_, hleft (s.length - 1) (by omega) (Ne.symm hlast), ?_⟩
    exact List.pairwise_iff_getElem.mp hsorted _ _ hmid (by omega) (by omega)

/-! ### The vote -/

namespace ChainClient

open JsNumber

/-- The heights reported by the evonodes among some providers, or by the configured ones. -/
def reported (evonode : Bool) (providers : List Provider) (statuses : List ProviderStatus) :
    List JsNumber :=
  (((providers.zip statuses).filterMap fun (p, s) => s.height.map fun h => (p, h)).filter
    fun a => a.1.isEvonode == evonode).map Prod.snd

/-- The vote of the evonodes. -/
def vote (sort : Sorting) (trusted sampled : List JsNumber) : List JsNumber :=
  match sampled with
  | [] => []
  | [only] =>
    if trusted.length > 0 then [JsNumber.min only (maximum trusted + maxLagBlocks)] else [only]
  | _ => ((sort.sort sampled)[((sort.sort sampled).length - 1) / 2]?).toList

theorem vote_two {sort : Sorting} {trusted sampled : List JsNumber} (h : 2 ≤ sampled.length) :
    vote sort trusted sampled =
      ((sort.sort sampled)[((sort.sort sampled).length - 1) / 2]?).toList := by
  rcases sampled with _ | ⟨a, _ | ⟨b, l⟩⟩
  · cases h
  · exact absurd h (by simp)
  · rfl

/-- The greatest of the candidates, if there are any. -/
def highest (candidates : List JsNumber) : Option JsNumber :=
  if candidates.length > 0 then some (maximum candidates) else none

variable {cc : ChainClient} {providers : List Provider} {statuses : List ProviderStatus}
  {trusted sampled : List JsNumber}

theorem tipHeight_eq : cc.tipHeight providers statuses =
    highest (reported false providers statuses ++
      vote cc.sort (reported false providers statuses) (reported true providers statuses)) := by
  have hconfigured : (fun a : Provider × JsNumber => a.1.isEvonode == false) =
      fun a => !a.1.isEvonode := funext fun a => beq_false _
  have hsampled : (fun a : Provider × JsNumber => a.1.isEvonode == true) =
      fun a => a.1.isEvonode := funext fun a => beq_true _
  rw [reported, reported, hconfigured, hsampled]
  rfl

/-- The tip of some configured heights and one vote, when all are numbers. -/
theorem highest_append_one {best v : Number} (hbest : maximum trusted = num best) :
    highest (trusted ++ [num v]) = some (num (max best v)) := by
  have hlen : (trusted ++ [num v]).length > 0 := by simp
  rw [highest, if_pos hlen, maximum, List.foldl_append, ← maximum, hbest]
  rfl

/-- The candidates of a tip that is a number are numbers. -/
theorem le_of_highest {candidates : List JsNumber} {t : Number}
    (h : highest candidates = some (num t)) : ∀ x ∈ candidates, x ≤ num t := by
  unfold highest at h
  split at h
  · exact (maximum_eq_num (Option.some.inj h)).1
  · cases h

/-- No evonode alone moved the tip, `others` being what the others reported: it is at least the
greatest configured height, and at most ten blocks above that, or the greatest of the others. A
configured source at the greatest configured height is refused only if another evonode is further
above it. -/
def Withstands (cc : ChainClient) (tip : Option JsNumber) (trusted others : List JsNumber) : Prop :=
  ∃ best top t : Number, maximum trusted = num best ∧ maximum others = num top ∧
    tip = some (num t) ∧ best ≤ t ∧ t ≤ max (best + Number.ofInt 10) top ∧
    ∀ p s, s.ok = true → s.height = some (num best) → cc.ineligible (num t) p s ≠ none →
      ∃ h : Number, num h ∈ others ∧ best + Number.ofInt 10 < h

/-- All heights that come to count are numbers: the configured ones, those of the evonodes other
than `e`, and the one that becomes the vote. Alone, `e` must not be ten blocks above the configured
heights where that sum is rounded up. -/
structure InNumbers (sort : Sorting) (trusted sampled : List JsNumber) (e : JsNumber) : Prop where
  configured : nan ∉ trusted
  others : nan ∉ sampled.erase e
  lone : sampled = [e] → e ≠ nan
  median : 2 ≤ sampled.length →
    (sort.sort sampled)[((sort.sort sampled).length - 1) / 2]? ≠ some nan
  unrounded : sampled = [e] → ∀ best, maximum trusted = num best →
    e ≤ num (best + Number.ofInt 10) ∨
      num best + maxLagBlocks ≤ num (best + Number.ofInt 10)

/-- A source refused at the tip is more than ten blocks behind it, exactly. -/
theorem lt_of_refused {best t : Number} {p : Provider} {s : ProviderStatus} (hok : s.ok = true)
    (hheight : s.height = some (num best)) (h : cc.ineligible (num t) p s ≠ none) :
    best + Number.ofInt 10 < t := by
  refine add_lt_of_lt_sub (k := 10) (by decide) ?_
  by_contra hnot
  refine h ?_
  unfold ineligible
  rw [hok, hheight]
  exact if_neg hnot

/-- Bounds of the tip are all it takes to withstand. -/
theorem withstands_of_le {others : List JsNumber} {best top t : Number}
    (hbest : maximum trusted = num best) (htop : maximum others = num top) (hle : best ≤ t)
    (hbound : t ≤ max (best + Number.ofInt 10) top) :
    cc.Withstands (some (num t)) trusted others := by
  refine ⟨best, top, t, hbest, htop, rfl, hle, hbound, fun p s hok hheight hrefused => ?_⟩
  have hlt := lt_of_refused hok hheight hrefused
  -- beyond the allowance, so another evonode put it there
  have habove : best + Number.ofInt 10 < top :=
    hlt.trans_le ((le_max_iff.mp hbound).resolve_left (not_le_of_gt hlt))
  refine ⟨top, (maximum_eq_num htop).2.resolve_left ?_, habove⟩
  rintro rfl
  exact not_lt_bot habove

theorem maxLagBlocks_eq : maxLagBlocks = ofRat 10 := rfl

/-- The lag allowance above a number is a number. -/
theorem exists_best_add (best : Number) : ∃ c, num best + maxLagBlocks = num c := by
  rw [maxLagBlocks_eq]
  exact exists_num (ne_nan_of_le (JsNumber.add_le_add_right (JsNumber.refl best) 10)).1

theorem le_add_ten (n : Number) : n ≤ n + Number.ofInt 10 := by
  rcases n with _ | _ | x
  · exact bot_le
  · exact le_top
  · refine WithBot.coe_le_coe.mpr (WithTop.coe_le_coe.mpr ?_)
    simp

/-- The vote of two or more evonodes is one of the heights, and when it is a number at most what an
evonode other than `e` reported. -/
theorem median_le {sort : Sorting} {e m : JsNumber} {top : Number} (he : e ∈ sampled)
    (hlen : 2 ≤ sampled.length)
    (hm : (sort.sort sampled)[((sort.sort sampled).length - 1) / 2]? = some m) (hnum : m ≠ nan)
    (hothers : nan ∉ sampled.erase e) (htop : maximum (sampled.erase e) = num top) :
    m ≤ num top := by
  have hle := (maximum_eq_num htop).1
  have hmem : m ∈ sampled := (sort.perm sampled).subset (List.mem_of_getElem? hm)
  by_cases hnan : e = nan
  · -- the liar is no number and so not the vote
    exact hle m ((List.mem_erase_of_ne (hnan ▸ hnum)).mpr hmem)
  · have hnone : nan ∉ sampled := fun h => hothers ((List.mem_erase_of_ne (Ne.symm hnan)).mpr h)
    obtain ⟨n, rfl⟩ := exists_num hnum
    obtain ⟨h, hh, hmh⟩ := exists_mem_erase_of_median (sort.perm sampled) (sort.sorted _ hnone)
      hlen (JsNumber.refl n) hm he
    exact JsNumber.trans hmh (hle h hh)

/-- A tip that withstands `e` was made of numbers. -/
theorem inNumbers_of_withstands {e : JsNumber} (hpos : trusted.length > 0)
    (h : cc.Withstands (highest (trusted ++ vote cc.sort trusted sampled)) trusted
      (sampled.erase e)) : InNumbers cc.sort trusted sampled e := by
  obtain ⟨best, top, t, hbest, htop, htip, -, hbound, -⟩ := h
  -- the tip is a number above every vote, so no vote is NaN
  have hvote : ∀ v ∈ vote cc.sort trusted sampled, v ≤ num t :=
    fun v hv => le_of_highest htip v (List.mem_append_right _ hv)
  refine ⟨fun h => ?_, fun h => ?_, ?_, fun hlen hmedian => ?_, ?_⟩
  · exact (maximum_eq_num hbest).1 nan h
  · exact (maximum_eq_num htop).1 nan h
  · -- a lone NaN is the vote
    rintro rfl rfl
    rw [vote, if_pos hpos] at hvote
    exact hvote _ List.mem_cons_self
  · rw [vote_two hlen, hmedian] at hvote
    exact hvote nan List.mem_cons_self
  · -- under a lone height the rounded sum is below the exact one
    rintro rfl best' hbest'
    cases hbest.symm.trans hbest'
    obtain ⟨c, hc⟩ := exists_best_add best
    rw [List.erase_cons_head] at htop
    cases htop
    rw [vote, if_pos hpos, hbest, hc] at hvote
    have hmin := hvote _ List.mem_cons_self
    rw [hc]
    have hne : e ≠ nan := fun hnan => by
      rw [hnan] at hmin
      exact hmin
    obtain ⟨e', rfl⟩ := exists_num hne
    have hle : min e' c ≤ best + Number.ofInt 10 := by
      rw [max_bot_right] at hbound
      exact le_trans (α := Number) hmin hbound
    exact min_le_iff.mp hle

/-- Numbers make a tip that withstands `e`. -/
theorem withstands_of_inNumbers {e : JsNumber} (hpos : trusted.length > 0) (he : e ∈ sampled)
    (h : InNumbers cc.sort trusted sampled e) :
    cc.Withstands (highest (trusted ++ vote cc.sort trusted sampled)) trusted
      (sampled.erase e) := by
  obtain ⟨best, hbest⟩ := exists_maximum fun x hx hnan => h.configured (hnan ▸ hx)
  obtain ⟨top, htop⟩ := exists_maximum fun x hx hnan => h.others (hnan ▸ hx)
  -- whatever the vote is, it is a number within the bounds
  suffices hvote : ∃ v : Number, vote cc.sort trusted sampled = [num v] ∧
      v ≤ max (best + Number.ofInt 10) top by
    obtain ⟨v, hv, hle⟩ := hvote
    rw [hv, highest_append_one hbest]
    exact withstands_of_le hbest htop (le_max_left _ _)
      (max_le ((le_add_ten best).trans (le_max_left _ _)) hle)
  by_cases hlen : 2 ≤ sampled.length
  · obtain ⟨m, hm⟩ : ∃ m, (cc.sort.sort sampled)[((cc.sort.sort sampled).length - 1) / 2]? =
        some m := by
      have hlength := (cc.sort.perm sampled).length_eq
      exact ⟨_, List.getElem?_eq_getElem (by omega)⟩
    have hne : m ≠ nan := fun hnan => h.median hlen (hnan ▸ hm)
    have hle := median_le he hlen hm hne h.others htop
    obtain ⟨v, rfl⟩ := exists_num hne
    refine ⟨v, by rw [vote_two hlen, hm]; rfl, le_max_of_le_right hle⟩
  · -- the lone evonode is the liar
    have hlone : sampled = [e] := by
      rcases sampled with _ | ⟨a, _ | ⟨b, l⟩⟩
      · cases he
      · rw [List.mem_singleton.mp he]
      · exact absurd (by simp) hlen
    obtain ⟨e', rfl⟩ := exists_num (h.lone hlone)
    obtain ⟨c, hc⟩ := exists_best_add best
    refine ⟨min e' c, by rw [hlone, vote, if_pos hpos, hbest, hc]; rfl, le_max_of_le_left ?_⟩
    have hbound := h.unrounded hlone best hbest
    rw [hc] at hbound
    exact min_le_iff.mpr hbound

/-- **One lying evonode and the tip.** Take any heights of the configured providers, any heights of
the sampled evonodes, and any one of these, `e`, with whatever for a height. The tip withstands `e`
exactly if every height that comes to count is a number, and ten blocks above the configured heights
are not rounded up under a lone `e`. -/
theorem tipHeight_one_liar (cc : ChainClient) (htrusted : reported false providers statuses ≠ [])
    {e : JsNumber} (he : e ∈ reported true providers statuses) :
    cc.Withstands (cc.tipHeight providers statuses) (reported false providers statuses)
        ((reported true providers statuses).erase e) ↔
      InNumbers cc.sort (reported false providers statuses) (reported true providers statuses)
        e := by
  rw [tipHeight_eq]
  generalize reported false providers statuses = trusted at htrusted ⊢
  generalize reported true providers statuses = sampled at he ⊢
  have hpos : trusted.length > 0 := List.length_pos_iff.mpr htrusted
  exact ⟨inNumbers_of_withstands hpos, withstands_of_inNumbers hpos he⟩

/-- Three evonodes, one of them far off: the explorer at 1000 is still read. -/
theorem tipHeight_one_liar_three :
    let cc : ChainClient := ⟨[], [], true, some, .insertion⟩
    let insight := Provider.configured .insight "insight"
    let status : ProviderStatus := ⟨"insight", true, some 1000, none⟩
    let providers := [insight, .evonode "a", .evonode "b", .evonode "c"]
    let statuses : List ProviderStatus := [status, ⟨"dapi:a", true, some 1001, none⟩,
      ⟨"dapi:b", true, some 999999, none⟩, ⟨"dapi:c", true, some 1000, none⟩]
    ∃ tip : Number, cc.tipHeight providers statuses = some (num tip) ∧
      Number.ofInt 1000 ≤ tip ∧ tip ≤ Number.ofInt 1010 ∧
      cc.ineligible (num tip) insight status = none := by
  intro cc insight status providers statuses
  have hsampled : reported true providers statuses = [1001, 999999, 1000] := by decide +kernel
  have hsorted : cc.sort.sort [1001, 999999, 1000] = [1000, 1001, 999999] := by decide +kernel
  have htrusted : reported false providers statuses = [1000] := by decide +kernel
  have hne : reported false providers statuses ≠ [] := by decide
  have hmem : (999999 : JsNumber) ∈ reported true providers statuses := by
    rw [hsampled]
    decide
  -- no height here is NaN, and that is all the tip needs
  have hiff := tipHeight_one_liar cc hne hmem
  rw [hsampled, htrusted] at hiff
  have hothers : ([1001, 999999, 1000] : List JsNumber).erase 999999 = [1001, 1000] := by
    decide +kernel
  have hlone : ([1001, 999999, 1000] : List JsNumber) ≠ [999999] := by decide +kernel
  obtain ⟨best, top, tip, hbest, htop, htip, hle, hbound, hrefused⟩ := hiff.mpr
    ⟨by decide, by rw [hothers]; decide, fun h => absurd h hlone,
      fun _ => by rw [hsorted]; decide, fun h => absurd h hlone⟩
  rw [hothers] at htop hrefused
  cases hbest
  cases htop
  refine ⟨tip, htip, hle, hbound.trans (by decide +kernel), ?_⟩
  by_contra hnot
  obtain ⟨h, hh, hlt⟩ := hrefused insight status rfl rfl hnot
  rcases hh with _ | ⟨_, _ | ⟨_, hh⟩⟩
  · exact absurd hlt (by decide +kernel)
  · exact absurd hlt (by decide +kernel)
  · cases hh

/-- **A lone evonode whose height is NaN** makes that the tip, and nobody is behind it. -/
theorem tipHeight_of_weightless :
    let cc : ChainClient := ⟨[(.insight, "insight")], [], true, some, .insertion⟩
    let statuses height : List ProviderStatus :=
      [⟨"insight", true, some 1000, none⟩, ⟨"dapi:a", true, some height, none⟩]
    (∀ provider : DapiProvider, provider.getHeight (fun _ => "")
        (fun _ => .ok (Dapi.heightReply (8 :: Dapi.weightless))) = .ok .nan) ∧
      cc.tipHeight [.configured .insight "insight", .evonode "a"] (statuses (ofDouble .nan)) =
        some nan ∧
      (∀ p s h, s.ok = true → s.height = some h → cc.ineligible nan p s = none) ∧
      ¬cc.Withstands (cc.tipHeight [.configured .insight "insight", .evonode "a"]
        (statuses (ofDouble .nan))) [1000] [] := by
  intro cc statuses
  have htip : cc.tipHeight [.configured .insight "insight", .evonode "a"]
      (statuses (ofDouble .nan)) = some nan := by decide +kernel
  refine ⟨Dapi.getHeight_weightless, htip, fun p s h hok hheight => ?_, ?_⟩
  · unfold ineligible
    rw [hok, hheight]
    exact if_neg id
  · -- the tip is no number, and nothing bounds it
    rw [htip]
    rintro ⟨best, top, t, -, -, hnum, -⟩
    cases hnum

/-! ### A floor -/

/-- The vote of evonodes that all report a height from `t` on is one, if the configured providers do
too. -/
theorem le_vote {sort : Sorting} {t : JsNumber} (hdouble : t.IsDouble)
    (htrusted : ∀ h ∈ trusted, t ≤ h) (hsampled : ∀ h ∈ sampled, t ≤ h) :
    ∀ v ∈ vote sort trusted sampled, t ≤ v := by
  intro v hv
  unfold vote at hv
  split at hv
  · cases hv
  · next only =>
    have honly := hsampled only List.mem_cons_self
    split at hv
    · next hpos =>
      rw [List.mem_singleton.mp hv]
      have hbest := le_maximum (List.length_pos_iff.mp hpos) htrusted
      exact le_min_of_le honly (hdouble.le_add hbest (q := 10) (by norm_num))
    · rwa [List.mem_singleton.mp hv]
  · have hmem := List.mem_of_getElem? (Option.mem_toList.mp hv)
    exact hsampled v ((sort.perm sampled).subset hmem)

theorem le_tipHeight {t tip : JsNumber} (hdouble : t.IsDouble)
    (h : ∀ s ∈ statuses, ∀ h, s.height = some h → t ≤ h)
    (htip : cc.tipHeight providers statuses = some tip) : t ≤ tip := by
  have hreported : ∀ evonode, ∀ h ∈ reported evonode providers statuses, t ≤ h := by
    intro evonode height hheight
    obtain ⟨a, ha, rfl⟩ := List.mem_map.mp hheight
    obtain ⟨⟨p, s⟩, hs, heq⟩ := List.mem_filterMap.mp (List.mem_of_mem_filter ha)
    obtain ⟨b, hb, rfl⟩ := Option.map_eq_some_iff.mp heq
    exact h s (List.of_mem_zip hs).2 b hb
  rw [tipHeight_eq, highest] at htip
  split at htip
  · next hpos =>
    cases htip
    refine le_maximum (List.length_pos_iff.mp hpos) fun x hx => ?_
    rcases List.mem_append.mp hx with hmem | hmem
    · exact hreported false x hmem
    · exact le_vote hdouble (hreported false) (hreported true) x hmem
  · cases htip

section Floor

variable {σ : Type} {cc : ChainClient} {es : List Answered} {t : JsNumber}

theorem le_heights {ps : List Provider} {statuses : List ProviderStatus}
    (hes : ∀ ps (a : ℕ → Except String JsNumber), ⟨.heights ps, a⟩ ∈ es →
      ∀ i h, a i = .ok h → t ≤ h)
    (h : Transcript (cc.heights ps : Net σ _) es (.ok statuses)) :
    ∀ s ∈ statuses, ∀ h, s.height = some h → t ≤ h := by
  obtain ⟨es₁, r₁, h₁, hrest⟩ := transcript_bind.mp h
  obtain ⟨a, rfl, rfl⟩ := transcript_ask.mp h₁
  obtain ⟨es₂, rfl, h₂⟩ := hrest
  obtain ⟨-, hr⟩ := transcript_pure.mp h₂
  cases hr
  intro s hs height heq
  obtain ⟨⟨p, i⟩, -, rfl⟩ := List.mem_map.mp hs
  dsimp only at heq
  split at heq
  · next ha =>
    cases heq
    exact hes ps a List.mem_cons_self i height ha
  · cases heq

/-- **A floor under the tip.** Where nobody reports a height below a double, the tip is not below
it. -/
theorem le_getUtxos_tip {address : String} {snapshot : UtxoSnapshot} (hdouble : t.IsDouble)
    (hes : ∀ ps (a : ℕ → Except String JsNumber), ⟨.heights ps, a⟩ ∈ es →
      ∀ i h, a i = .ok h → t ≤ h)
    (h : Transcript (cc.getUtxos address : Net σ _) es (.ok snapshot)) :
    t ≤ snapshot.tipHeight := by
  obtain ⟨es₁, r₁, h₁, hrest⟩ := transcript_bind.mp h
  rcases r₁ with e | ⟨providers, statuses⟩
  · exact absurd hrest.2 (by simp)
  obtain ⟨es₂, rfl, h₂⟩ := hrest
  -- every height in the statuses is an answer of one of the two rounds
  have hstatuses : ∀ s ∈ statuses, ∀ h, s.height = some h → t ≤ h := by
    obtain ⟨es₃, r₃, -, hrest⟩ := transcript_bind.mp h₁
    cases r₃ with
    | error e => exact absurd hrest.2 (by simp)
    | ok active =>
      obtain ⟨es₄, rfl, h₄⟩ := hrest
      obtain ⟨es₅, r₅, h₅, hrest⟩ := transcript_bind.mp h₄
      cases r₅ with
      | error e => exact absurd hrest.2 (by simp)
      | ok first =>
        obtain ⟨es₆, rfl, h₆⟩ := hrest
        have hfirst := le_heights (fun ps a ha => hes ps a (by simp [ha])) h₅
        dsimp only at h₆
        split at h₆
        -- a core answered in the first round
        · obtain ⟨-, hr⟩ := transcript_pure.mp h₆
          cases hr
          exact hfirst
        -- none did: the evonodes are asked too
        · obtain ⟨es₇, r₇, h₇, hrest⟩ := transcript_bind.mp h₆
          cases r₇ with
          | error e => exact absurd hrest.2 (by simp)
          | ok more =>
            obtain ⟨es₈, rfl, h₈⟩ := hrest
            obtain ⟨-, hr⟩ := transcript_pure.mp h₈
            cases hr
            have hmore := le_heights (fun ps a ha => hes ps a (by simp [ha])) h₇
            intro s hs
            exact (List.mem_append.mp hs).elim (hfirst s) (hmore s)
  dsimp only at h₂
  split at h₂
  · obtain ⟨-, hr⟩ := transcript_throw.mp h₂
    cases hr
  · next tip htip =>
    obtain ⟨es₃, r₃, h₃, hrest⟩ := transcript_bind.mp h₂
    rcases r₃ with e | ⟨p, utxos⟩
    · exact absurd hrest.2 (by simp)
    · obtain ⟨es₄, rfl, h₄⟩ := hrest
      obtain ⟨-, hr⟩ := transcript_pure.mp h₄
      cases hr
      exact le_tipHeight hdouble hstatuses htip

end Floor

end ChainClient

end DashFaucet

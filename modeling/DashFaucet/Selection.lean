import Mathlib.Algebra.Order.Group.Nat
import Mathlib.Data.List.Find
import DashFaucet.Data.Largest
import DashFaucet.Spends

/-!
# What coin selection picks

`selectInputs` answers with a smallest coin that pays alone, or with the fewest confirmed coins
that pay together; and its two errors say which of the other coins would have paid
(`DashTx.Selects`, `selectInputs_optimal`). `selectMergeInputs` fills its budget of inputs with the
fewest large coins that reach the target (`selectMergeInputs_spec`).

A front part of the coins in descending order is worth most among the selections of its size
(`Largest.weight_le_take`), so only front parts have to be tried. What is required of a selection
depends on its size alone, in any way: no fee has to grow with it.
-/

namespace DashFaucet

open Async List

/-! ### Coins in order -/

theorem descendingSats_perm (coins : List Utxo) : descendingSats coins ~ coins :=
  List.perm_insertionSort _ _

theorem descendingSats_pairwise (coins : List Utxo) :
    (descendingSats coins).Pairwise fun u v => v.satoshis ≤ u.satoshis :=
  List.pairwise_insertionSort (fun u v : Utxo => v.satoshis ≤ u.satoshis) coins

theorem ascendingSats_perm (coins : List Utxo) : ascendingSats coins ~ coins :=
  List.perm_insertionSort _ _

theorem ascendingSats_pairwise (coins : List Utxo) :
    (ascendingSats coins).Pairwise fun u v => u.satoshis ≤ v.satoshis :=
  List.pairwise_insertionSort (fun u v : Utxo => u.satoshis ≤ v.satoshis) coins

namespace DashTx

variable {d : DashTx} {required : ℕ → ℕ} {coins picked result S : List Utxo}

/-! ### The largest coins first -/

/-- What is taken is the first front part that covers what its size requires. -/
theorem largestFirst_some (picked : List Utxo)
    (h : largestFirst required coins picked (sumSats picked) = some result) :
    ∃ k < coins.length, result = picked ++ coins.take (k + 1) ∧
      required result.length ≤ sumSats result ∧
      ∀ j < k, sumSats (picked ++ coins.take (j + 1)) < required (picked.length + (j + 1)) := by
  -- along the coins: this one is enough, or it is one more of those picked
  induction coins generalizing picked with
  | nil => cases h
  | cons u us ih =>
    have hsum : sumSats picked + u.satoshis = sumSats (picked ++ [u]) := by
      rw [sumSats_append]
      rfl
    simp only [largestFirst] at h
    rw [hsum] at h
    split at h
    · next hcovers =>
      cases h
      exact ⟨0, Nat.zero_lt_succ _, rfl, hcovers, fun j hj => absurd hj (Nat.not_lt_zero j)⟩
    · next hshort =>
      obtain ⟨k, hk, rfl, hcovers, hleast⟩ := ih (picked ++ [u]) h
      refine ⟨k + 1, Nat.succ_lt_succ hk, by simp, hcovers, fun j hj => ?_⟩
      rcases j with _ | j
      · rw [List.length_append] at hshort
        exact not_le.mp hshort
      · have hj := hleast j (Nat.lt_of_succ_lt_succ hj)
        rw [List.length_append, List.append_assoc] at hj
        rw [List.take_succ_cons]
        have hlen : picked.length + (j + 1 + 1) = picked.length + [u].length + (j + 1) := by
          rw [List.length_singleton]
          omega
        rw [hlen]
        exact hj

/-- Nothing is taken when no front part covers what its size requires. -/
theorem largestFirst_none (picked : List Utxo)
    (h : largestFirst required coins picked (sumSats picked) = none) :
    ∀ k < coins.length, sumSats (picked ++ coins.take (k + 1)) <
      required (picked.length + (k + 1)) := by
  -- no coin was ever enough
  induction coins generalizing picked with
  | nil => exact fun k hk => absurd hk (Nat.not_lt_zero k)
  | cons u us ih =>
    have hsum : sumSats picked + u.satoshis = sumSats (picked ++ [u]) := by
      rw [sumSats_append]
      rfl
    simp only [largestFirst] at h
    rw [hsum] at h
    split at h
    · cases h
    · next hshort =>
      intro k hk
      rcases k with _ | k
      · rw [List.length_append] at hshort
        exact not_le.mp hshort
      · have hk := ih (picked ++ [u]) h k (Nat.lt_of_succ_lt_succ hk)
        rw [List.length_append, List.append_assoc] at hk
        rw [List.take_succ_cons]
        have hlen : picked.length + (k + 1 + 1) = picked.length + [u].length + (k + 1) := by
          rw [List.length_singleton]
          omega
        rw [hlen]
        exact hk

/-- What is taken is some of the coins, and covers what its size requires. -/
theorem largestFirst_picks (h : largestFirst required coins [] 0 = some result) :
    result <+ coins ∧ result ≠ [] ∧ required result.length ≤ sumSats result := by
  obtain ⟨k, hk, rfl, hcovers, -⟩ := largestFirst_some [] h
  rw [List.nil_append] at hcovers ⊢
  refine ⟨List.take_sublist _ _, fun hnil => ?_, hcovers⟩
  rcases List.take_eq_nil_iff.mp hnil with h | rfl
  · cases h
  · cases hk

section Sorted

variable (hcoins : coins.Pairwise fun u v => v.satoshis ≤ u.satoshis)

include hcoins

/-- No other selection of the coins covers what its size requires with fewer of them. -/
theorem length_le_of_largestFirst (h : largestFirst required coins [] 0 = some result)
    (hS : S <+~ coins) (hne : S ≠ []) (hcovers : required S.length ≤ sumSats S) :
    result.length ≤ S.length := by
  obtain ⟨k, hk, rfl, -, hleast⟩ := largestFirst_some [] h
  rw [List.nil_append, List.length_take_of_le hk]
  by_contra hlt
  have hpos := List.length_pos_iff.mpr hne
  have hless := hleast (S.length - 1) (by omega)
  have hbest := Largest.weight_le_take hcoins hS
  rw [List.nil_append, List.length_nil, Nat.zero_add, Nat.sub_add_cancel hpos] at hless
  exact absurd hcovers (not_le.mpr (lt_of_le_of_lt hbest hless))

/-- Nothing is taken when no selection of the coins covers what its size requires. -/
theorem not_covered_of_largestFirst (h : largestFirst required coins [] 0 = none)
    (hS : S <+~ coins) (hne : S ≠ []) : sumSats S < required S.length := by
  have hpos := List.length_pos_iff.mpr hne
  have hlen := hS.length_le
  have hless := largestFirst_none [] h (S.length - 1) (by omega)
  have hbest := Largest.weight_le_take hcoins hS
  rw [List.nil_append, List.length_nil, Nat.zero_add, Nat.sub_add_cancel hpos] at hless
  exact lt_of_le_of_lt hbest hless

end Sorted

/-! ### `selectInputs` -/

section Select

variable {utxos : List Utxo} {target outputs payload : ℕ}

/-- The coins `S` are worth `target` and the ceiling fee of a transaction that spends them. -/
def Covers (d : DashTx) (target outputs payload : ℕ) (S : List Utxo) : Prop :=
  target + d.feeCeiling S.length outputs payload ≤ sumSats S

instance : Decidable (d.Covers target outputs payload S) := inferInstanceAs (Decidable (_ ≤ _))

/-- A selection worth making: one coin, or several confirmed ones, that cover the target and the
ceiling fee of their number. -/
structure Admissible (d : DashTx) (utxos : List Utxo) (target outputs payload : ℕ)
    (S : List Utxo) : Prop where
  picked : S <+~ utxos
  covers : d.Covers target outputs payload S
  shape : S.length = 1 ∨ 2 ≤ S.length ∧ ∀ u ∈ S, u.height.isSome

theorem Admissible.ne_nil (h : d.Admissible utxos target outputs payload S) : S ≠ [] := by
  rintro rfl
  rcases h.shape with h | ⟨h, -⟩ <;> simp at h

theorem admissible_singleton {u : Utxo} :
    d.Admissible utxos target outputs payload [u] ↔
      u ∈ utxos ∧ d.Covers target outputs payload [u] :=
  ⟨fun h => ⟨h.picked.subset (List.mem_singleton_self u), h.covers⟩,
    fun ⟨hu, h⟩ => ⟨(List.singleton_sublist.mpr hu).subperm, h, .inl rfl⟩⟩

/-- What `selectInputs` answers, and why. -/
inductive Selects (d : DashTx) (utxos : List Utxo) (target outputs payload : ℕ) :
    Except Thrown (List Utxo) → Prop
  /-- A smallest of the coins that cover the target alone. -/
  | single {u : Utxo} (h : d.Admissible utxos target outputs payload [u])
      (hleast : ∀ v ∈ utxos, d.Covers target outputs payload [v] → u.satoshis ≤ v.satoshis) :
      Selects d utxos target outputs payload (.ok [u])
  /-- No coin covers it alone: as few confirmed coins as cover it together. -/
  | several {R : List Utxo} (hnone : ∀ v ∈ utxos, ¬d.Covers target outputs payload [v])
      (h : d.Admissible utxos target outputs payload R)
      (hleast : ∀ S, d.Admissible utxos target outputs payload S → R.length ≤ S.length) :
      Selects d utxos target outputs payload (.ok R)
  /-- Only with coins still confirming. -/
  | unconfirmed {S : List Utxo} {confirmed required : ℕ}
      (hnone : ∀ S, ¬d.Admissible utxos target outputs payload S) (hS : S <+~ utxos)
      (hne : S ≠ []) (hcovers : d.Covers target outputs payload S) :
      Selects d utxos target outputs payload (.error (.unconfirmedFunds confirmed required))
  /-- Not even with them. -/
  | insufficient {available required : ℕ}
      (hnone : ∀ S, S <+~ utxos → S ≠ [] → ¬d.Covers target outputs payload S) :
      Selects d utxos target outputs payload (.error (.insufficientFunds available required))

/-- What `selectInputs` requires of a selection is what covering the target takes. -/
theorem covers_iff (hne : S ≠ []) : d.Covers target outputs payload S ↔
    target + d.feeCeiling (max 1 S.length) outputs payload ≤ sumSats S := by
  rw [max_eq_right (List.length_pos_iff.mpr hne)]
  rfl

/-- **`selectInputs` answers as it says**: with the selection it prefers, or with the error that
tells what is missing. -/
theorem selectInputs_selects (d : DashTx) (utxos : List Utxo) (target outputs payload : ℕ) :
    d.Selects utxos target outputs payload (d.selectInputs utxos target outputs payload) := by
  have hasc := ascendingSats_perm utxos
  have hdesc : (ascendingSats utxos).reverse ~ utxos := (List.reverse_perm _).trans hasc
  have hsorted : (ascendingSats utxos).reverse.Pairwise fun u v => v.satoshis ≤ u.satoshis :=
    List.pairwise_reverse.mpr (ascendingSats_pairwise utxos)
  have hone : ∀ u, target + d.feeCeiling (max 1 1) outputs payload ≤ u.satoshis ↔
      d.Covers target outputs payload [u] := fun u => Iff.rfl
  unfold selectInputs
  dsimp only
  split
  · next single hfind =>
    -- the first that is large enough, in ascending order
    obtain ⟨hlarge, before, after, hsplit, hsmall⟩ := List.find?_eq_some_iff_append.mp hfind
    have hmem : single ∈ utxos := hasc.subset (List.mem_of_find?_eq_some hfind)
    have hcovers := (hone single).mp (of_decide_eq_true hlarge)
    refine .single (admissible_singleton.mpr ⟨hmem, hcovers⟩) fun v hv hv' => ?_
    have hv := hasc.symm.subset hv
    rw [hsplit] at hv
    rcases List.mem_append.mp hv with hv | hv
    · exact absurd ((hone v).mpr hv') (by simpa using hsmall v hv)
    -- what comes after it in ascending order is no smaller
    · rcases List.mem_cons.mp hv with rfl | hv
      · exact le_refl _
      · have hpair := ascendingSats_pairwise utxos
        rw [hsplit, List.pairwise_append] at hpair
        exact (List.pairwise_cons.mp hpair.2.1).1 v hv
  · next hfind =>
    have hnone : ∀ v ∈ utxos, ¬d.Covers target outputs payload [v] := by
      intro v hv hv'
      have hlarge := List.find?_eq_none.mp hfind v (hasc.symm.subset hv)
      exact hlarge (decide_eq_true ((hone v).mpr hv'))
    have hconfirmed := hsorted.filter (fun u : Utxo => u.height.isSome)
    -- a selection of several is one of the confirmed coins
    have hmixed : ∀ S, d.Admissible utxos target outputs payload S →
        S <+~ (ascendingSats utxos).reverse.filter fun u => u.height.isSome := by
      intro S hS
      rcases hS.shape with hlen | ⟨-, hall⟩
      · obtain ⟨u, rfl⟩ := List.length_eq_one_iff.mp hlen
        obtain ⟨hu, hcovers⟩ := admissible_singleton.mp hS
        exact absurd hcovers (hnone u hu)
      · have hsub := (hS.picked.trans hdesc.symm.subperm).filter fun u : Utxo => u.height.isSome
        rwa [List.filter_eq_self.mpr hall] at hsub
    split
    · next picked hpicked =>
      obtain ⟨hsub, hne, hcovers⟩ := largestFirst_picks hpicked
      have hpick : picked <+~ utxos :=
        (hsub.trans List.filter_sublist).subperm.trans hdesc.subperm
      have hcov := (covers_iff hne).mpr hcovers
      refine .several hnone ⟨hpick, hcov, ?_⟩ fun S hS => ?_
      · -- one coin alone does not cover the target
        by_cases hlen : picked.length = 1
        · exact .inl hlen
        · have hpos := List.length_pos_iff.mpr hne
          exact .inr ⟨by omega, fun u hu => (List.mem_filter.mp (hsub.subset hu)).2⟩
      · exact length_le_of_largestFirst hconfirmed hpicked (hmixed S hS) hS.ne_nil
          ((covers_iff hS.ne_nil).mp hS.covers)
    · next hpicked =>
      have hadm : ∀ S, ¬d.Admissible utxos target outputs payload S := by
        intro S hS
        have hless := not_covered_of_largestFirst hconfirmed hpicked (hmixed S hS) hS.ne_nil
        exact absurd ((covers_iff hS.ne_nil).mp hS.covers) (not_le.mpr hless)
      -- the unconfirmed coins decide which error it is
      split
      · next hall =>
        obtain ⟨R, hR⟩ := Option.isSome_iff_exists.mp hall
        obtain ⟨hsub, hne, hcovers⟩ := largestFirst_picks hR
        have hpick : R <+~ utxos := hsub.subperm.trans hdesc.subperm
        exact .unconfirmed hadm hpick hne ((covers_iff hne).mpr hcovers)
      · next hall =>
        refine .insufficient fun S hS hne hcovers => ?_
        have hR := Option.not_isSome_iff_eq_none.mp hall
        have hless := not_covered_of_largestFirst hsorted hR (hS.trans hdesc.symm.subperm) hne
        exact absurd ((covers_iff hne).mp hcovers) (not_le.mpr hless)

/-- What is selected covers the target and the ceiling fee of its size. -/
theorem covers_of_selectInputs {selected : List Utxo}
    (h : d.selectInputs utxos target outputs payload = .ok selected) :
    d.Covers target outputs payload selected := by
  have hselects := d.selectInputs_selects utxos target outputs payload
  rw [h] at hselects
  cases hselects with
  | single hadm => exact hadm.covers
  | several _ hadm _ => exact hadm.covers

end Select

/-! ### `selectMergeInputs` -/

section Merge

variable {target maxInputs size : ℕ}

/-- The `j` largest of the coins and the `size - j` smallest. -/
def ends (coins : List Utxo) (size j : ℕ) : List Utxo :=
  (descendingSats coins).take j ++ (descendingSats coins).drop (coins.length - (size - j))

/-- The value of the `k` largest coins. -/
def prefixSats (coins : List Utxo) (k : ℕ) : ℕ := sumSats ((descendingSats coins).take k)

theorem length_descendingSats (coins : List Utxo) : (descendingSats coins).length = coins.length :=
  (descendingSats_perm coins).length_eq

theorem length_ends {j : ℕ} (hj : j ≤ size) (hsize : size ≤ coins.length) :
    (ends coins size j).length = size := by
  rw [ends, List.length_append, List.length_take, List.length_drop, length_descendingSats]
  omega

theorem ends_subperm {j : ℕ} (hj : j ≤ size) (hsize : size ≤ coins.length) :
    ends coins size j <+~ coins := by
  -- the large coins end before the small ones begin
  have hcut : j ≤ coins.length - (size - j) := by omega
  have hsub : ends coins size j <+ descendingSats coins := by
    calc ends coins size j
        <+ (descendingSats coins).take (coins.length - (size - j)) ++
            (descendingSats coins).drop (coins.length - (size - j)) :=
          (List.take_sublist_take_left hcut).append_right _
      _ = descendingSats coins := List.take_append_drop _ _
  exact hsub.subperm.trans (descendingSats_perm coins).subperm

theorem ends_self : ends coins size size = (descendingSats coins).take size := by
  rw [ends, Nat.sub_self, Nat.sub_zero, ← length_descendingSats coins, List.drop_length,
    List.append_nil]

/-- The prefix sums of the source are the values of the largest coins. -/
theorem getD_prefixSums {k : ℕ} (hk : k ≤ coins.length) :
    (prefixSums (descendingSats coins)).getD k 0 = prefixSats coins k := by
  have hle : k ≤ ((descendingSats coins).map Utxo.satoshis).length := by
    rwa [List.length_map, length_descendingSats]
  rw [prefixSums, List.getD_eq_getElem?_getD, List.getElem?_scanl, if_pos hle, Option.getD_some,
    prefixSats, sumSats, ← List.map_take, List.sum_eq_foldl]

/-- **The two ends of the sorted coins, from prefix sums**: what is added up for `j` large coins is
their value and that of the small ones. -/
theorem prefixSats_ends {j : ℕ} (hj : j ≤ size) (hsize : size ≤ coins.length) :
    prefixSats coins j + prefixSats coins coins.length -
        prefixSats coins (coins.length - size + j) =
      sumSats (ends coins size j) := by
  have hall : prefixSats coins coins.length = sumSats (descendingSats coins) := by
    rw [prefixSats, ← length_descendingSats coins, List.take_length]
  have hcut : coins.length - size + j = coins.length - (size - j) := by omega
  have hsplit := congrArg sumSats
    (List.take_append_drop (coins.length - (size - j)) (descendingSats coins))
  rw [sumSats_append] at hsplit
  rw [hall, hcut, ends, sumSats_append, prefixSats, prefixSats, ← hsplit]
  omega

/-- The loop stops at the first number of large coins that reaches the target with small ones. -/
theorem selectMergeInputs_eq_find (d : DashTx) (coins : List Utxo) (target maxInputs : ℕ) :
    d.selectMergeInputs coins target maxInputs =
      (fun j => (ends coins (min maxInputs coins.length) j, decide
        (target + d.feeCeiling (min maxInputs coins.length) 1 ≤
          sumSats (ends coins (min maxInputs coins.length) j))))
        (((List.range (min maxInputs coins.length)).find? fun j =>
          target + d.feeCeiling (min maxInputs coins.length) 1 ≤
            sumSats (ends coins (min maxInputs coins.length) j)).getD
          (min maxInputs coins.length)) := by
  have hsize := Nat.min_le_right maxInputs coins.length
  simp only [selectMergeInputs, length_descendingSats]
  generalize min maxInputs coins.length = size at hsize ⊢
  -- the three prefix sums are the sum of both ends
  have hsum : ∀ j ≤ size, (prefixSums (descendingSats coins)).getD j 0 +
      (prefixSums (descendingSats coins)).getD coins.length 0 -
      (prefixSums (descendingSats coins)).getD (coins.length - size + j) 0 =
      sumSats (ends coins size j) := by
    intro j hj
    rw [getD_prefixSums (by omega), getD_prefixSums le_rfl, getD_prefixSums (by omega),
      prefixSats_ends hj hsize]
  have hloop : ((List.range size).find? fun j => decide (target + d.feeCeiling size 1 ≤
      (prefixSums (descendingSats coins)).getD j 0 +
        (prefixSums (descendingSats coins)).getD coins.length 0 -
        (prefixSums (descendingSats coins)).getD (coins.length - size + j) 0)) =
      (List.range size).find? fun j =>
        decide (target + d.feeCeiling size 1 ≤ sumSats (ends coins size j)) := by
    refine List.find?_congr fun j hj => ?_
    rw [hsum j (List.mem_range.mp hj).le]
  have hle : ((List.range size).find? fun j =>
      decide (target + d.feeCeiling size 1 ≤ sumSats (ends coins size j))).getD size ≤ size := by
    cases hfind : (List.range size).find? fun j =>
      decide (target + d.feeCeiling size 1 ≤ sumSats (ends coins size j)) with
    | none => exact le_rfl
    | some j => exact (List.mem_range.mp (List.mem_of_find?_eq_some hfind)).le
  rw [hloop, hsum _ hle]
  rfl

/-- The number of large coins taken: the least that reaches the target, or all the inputs. -/
theorem selectMergeInputs_eq (d : DashTx) (coins : List Utxo) (target maxInputs : ℕ) :
    ∃ j ≤ min maxInputs coins.length,
      d.selectMergeInputs coins target maxInputs =
        (ends coins (min maxInputs coins.length) j, decide
          (target + d.feeCeiling (min maxInputs coins.length) 1 ≤
            sumSats (ends coins (min maxInputs coins.length) j))) ∧
      (∀ i < j, sumSats (ends coins (min maxInputs coins.length) i) <
        target + d.feeCeiling (min maxInputs coins.length) 1) ∧
      (j < min maxInputs coins.length → target + d.feeCeiling (min maxInputs coins.length) 1 ≤
        sumSats (ends coins (min maxInputs coins.length) j)) := by
  rw [selectMergeInputs_eq_find]
  generalize min maxInputs coins.length = size
  -- the first count that reaches the goal, or all the largest
  cases hfind : (List.range size).find? fun j =>
    decide (target + d.feeCeiling size 1 ≤ sumSats (ends coins size j)) with
  | none =>
    refine ⟨size, le_refl _, rfl, fun i hi => ?_, fun h => absurd h (lt_irrefl _)⟩
    simpa using List.find?_eq_none.mp hfind i (List.mem_range.mpr hi)
  | some j =>
    obtain ⟨hreach, hj, hleast⟩ := List.find?_range_eq_some.mp hfind
    refine ⟨j, (List.mem_range.mp hj).le, rfl, fun i hi => ?_, fun _ => of_decide_eq_true hreach⟩
    simpa using hleast i hi

/-- A merge selects some of the coins. -/
theorem selectMergeInputs_subperm : (d.selectMergeInputs coins target maxInputs).1 <+~ coins := by
  obtain ⟨j, hj, heq, -⟩ := selectMergeInputs_eq d coins target maxInputs
  rw [heq]
  exact ends_subperm hj (Nat.min_le_right _ _)

/-- The budget is used up: `maxInputs` coins, or all there are. -/
theorem length_selectMergeInputs :
    (d.selectMergeInputs coins target maxInputs).1.length = min maxInputs coins.length := by
  obtain ⟨j, hj, heq, -⟩ := selectMergeInputs_eq d coins target maxInputs
  rw [heq]
  exact length_ends hj (Nat.min_le_right _ _)

/-- A selection that reaches the target covers it and the fee of its size. -/
theorem le_sum_of_reaches (h : (d.selectMergeInputs coins target maxInputs).2 = true) :
    target + d.feeCeiling (d.selectMergeInputs coins target maxInputs).1.length 1 ≤
      sumSats (d.selectMergeInputs coins target maxInputs).1 := by
  rw [length_selectMergeInputs]
  obtain ⟨j, -, heq, -⟩ := selectMergeInputs_eq d coins target maxInputs
  rw [heq] at h ⊢
  exact of_decide_eq_true h

/-- A selection reaches the target if any that many coins do. -/
theorem selectMergeInputs_reaches : (d.selectMergeInputs coins target maxInputs).2 = true ↔
    ∃ S, S <+~ coins ∧ S.length = min maxInputs coins.length ∧
      target + d.feeCeiling (min maxInputs coins.length) 1 ≤ sumSats S := by
  have hsize : min maxInputs coins.length ≤ coins.length := Nat.min_le_right _ _
  obtain ⟨j, hj, heq, -, hreach⟩ := selectMergeInputs_eq d coins target maxInputs
  rw [heq]
  generalize min maxInputs coins.length = size at hj hreach hsize ⊢
  rw [decide_eq_true_eq]
  constructor
  · intro h
    exact ⟨_, ends_subperm hj hsize, length_ends hj hsize, h⟩
  · rintro ⟨S, hS, hlen, hheavy⟩
    rcases hj.lt_or_eq with hlt | rfl
    · exact hreach hlt
    · -- the largest coins are worth as much as any others
      have hsort := (descendingSats_perm coins).symm
      rw [ends_self]
      exact (Largest.exists_heavy_iff (descendingSats_pairwise coins)
        (hsize.trans hsort.length_eq.le)).mp ⟨S, hS.trans hsort.subperm, hlen, hheavy⟩

/-- **`selectMergeInputs` fills its budget with the fewest large coins that reach the target.** The
result is `size` of the coins, the `j` largest and the `size - j` smallest; it is said to reach the
target exactly if some `size` coins do; then `j` is least, and otherwise the `size` largest are
taken. -/
theorem selectMergeInputs_spec (d : DashTx) (coins : List Utxo) (target maxInputs : ℕ) :
    let size := min maxInputs coins.length
    let result := d.selectMergeInputs coins target maxInputs
    result.1.length = size ∧ result.1 <+~ coins ∧
    (result.2 = true ↔
      ∃ S, S <+~ coins ∧ S.length = size ∧ target + d.feeCeiling size 1 ≤ sumSats S) ∧
    ∃ j ≤ size, result.1 = ends coins size j ∧
      (result.2 = true →
        (∀ i < j, sumSats (ends coins size i) < target + d.feeCeiling size 1) ∧
        target + d.feeCeiling size 1 ≤ sumSats result.1) ∧
      (result.2 = false → result.1 = (descendingSats coins).take size) := by
  intro size result
  obtain ⟨j, hj, heq, hleast, hreach⟩ := selectMergeInputs_eq d coins target maxInputs
  have hinputs : result.1 = ends coins size j := congrArg Prod.fst heq
  have hreaches : result.2 = decide (target + d.feeCeiling size 1 ≤ sumSats (ends coins size j)) :=
    congrArg Prod.snd heq
  refine ⟨length_selectMergeInputs, selectMergeInputs_subperm, selectMergeInputs_reaches,
    j, hj, hinputs, fun h => ?_, fun h => ?_⟩
  · rw [hinputs]
    rw [hreaches] at h
    exact ⟨hleast, of_decide_eq_true h⟩
  · rw [hinputs]
    rw [hreaches] at h
    -- the loop ran to its end, so all are from the large end
    rcases hj.lt_or_eq with hlt | rfl
    · exact absurd (hreach hlt) (of_decide_eq_false h)
    · exact ends_self

end Merge

end DashTx

end DashFaucet

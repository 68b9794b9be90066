import Mathlib.Algebra.Order.BigOperators.Group.List
import Mathlib.Data.List.Perm.Subperm

/-!
# The heaviest elements of a list

Elements carry a weight in an ordered commutative monoid. In a list ordered by weight, heaviest
first, a front part weighs at least as much as any other choice of that many elements
(`Largest.weight_le_take`). So when what a choice has to weigh depends on its size alone, some
choice of `k` elements is heavy enough exactly if the first `k` are (`Largest.exists_heavy_iff`).
-/

namespace Largest

open List

variable {α M : Type*} [AddCommMonoid M] {f : α → M}

/-- The total weight of a list. -/
def weight (f : α → M) (l : List α) : M := (l.map f).sum

@[simp] theorem weight_nil : weight f [] = 0 := rfl

@[simp] theorem weight_cons (a : α) (l : List α) : weight f (a :: l) = f a + weight f l :=
  List.sum_cons

theorem weight_append (l l' : List α) : weight f (l ++ l') = weight f l + weight f l' := by
  rw [weight, List.map_append, List.sum_append]
  rfl

theorem weight_perm {l l' : List α} (h : l ~ l') : weight f l = weight f l' :=
  (h.map f).sum_eq

section Ordered

variable [PartialOrder M] [IsOrderedAddMonoid M]

/-- Putting a heavier element in front and dropping the last of the front part gains weight. -/
theorem weight_take_succ_le {a : α} {l : List α} {k : ℕ} (hk : k < l.length)
    (h : ∀ b ∈ l, f b ≤ f a) : weight f (l.take (k + 1)) ≤ f a + weight f (l.take k) := by
  rw [List.take_succ_eq_append_getElem hk, weight_append, add_comm]
  have hlast : weight f [l[k]] ≤ f a := by
    rw [weight_cons, weight_nil, add_zero]
    exact h _ (List.getElem_mem hk)
  exact add_le_add_left hlast _

/-- **A front part is the heaviest choice of its size.** -/
theorem weight_le_take {l s : List α} (hl : l.Pairwise fun a b => f b ≤ f a) (hs : s <+~ l) :
    weight f s ≤ weight f (l.take s.length) := by
  obtain ⟨s', hperm, hsub⟩ := hs
  rw [← weight_perm hperm, ← hperm.length_eq]
  clear hperm
  induction hsub with
  | slnil => exact le_refl _
  | @cons s' l a hsub ih =>
    -- the head is not chosen: it can stand in for the last one that is
    obtain ⟨hhead, htail⟩ := List.pairwise_cons.mp hl
    rcases s' with _ | ⟨b, s'⟩
    · exact le_refl _
    · have hlt : s'.length < l.length := hsub.length_le
      calc weight f (b :: s') ≤ weight f (l.take (s'.length + 1)) := ih htail
        _ ≤ f a + weight f (l.take s'.length) := weight_take_succ_le hlt hhead
        _ = weight f ((a :: l).take (s'.length + 1)) := (weight_cons _ _).symm
  | @cons_cons s' l a hsub ih =>
    obtain ⟨-, htail⟩ := List.pairwise_cons.mp hl
    rw [List.length_cons, List.take_succ_cons, weight_cons, weight_cons]
    exact add_le_add_right (ih htail) _

/-- Some choice of `k` elements weighs what `k` elements have to exactly if the first `k` do. -/
theorem exists_heavy_iff {l : List α} (hl : l.Pairwise fun a b => f b ≤ f a) {k : ℕ}
    (hk : k ≤ l.length) {bound : M} :
    (∃ s, s <+~ l ∧ s.length = k ∧ bound ≤ weight f s) ↔ bound ≤ weight f (l.take k) := by
  constructor
  · rintro ⟨s, hs, rfl, hheavy⟩
    exact hheavy.trans (weight_le_take hl hs)
  · intro hheavy
    exact ⟨l.take k, (List.take_sublist k l).subperm, List.length_take_of_le hk, hheavy⟩

end Ordered

end Largest

import Mathlib.Data.List.GetD
import Mathlib.Data.List.Perm.Basic
import Mathlib.Tactic.Common

/-!
# Arrays by reference

Arrays that are changed in place are seen through every reference to them. A heap has the arrays
there are, each under its reference.

* `Heap.alloc`, `Heap.assign`, `Heap.swap`: a new array, and changes in place.
* `Heap.shuffle`: elements exchanged from the last place to the second, each with one at or before
  its place.
* `read_swap_of_ne`, `shuffle_of_ne`: an array under another reference stays as it is.
* `read_shuffle_perm`: the one that is shuffled keeps its elements.
-/

structure Heap (α : Type*) where
  arrays : List (List α)

namespace Heap

variable {α : Type*} (heap : Heap α)

/-- The references that are in use are those below. -/
def size : ℕ := heap.arrays.length

def read (ref : ℕ) : List α := heap.arrays.getD ref []

/-- A new array, and its reference. -/
def alloc (array : List α) : ℕ × Heap α := (heap.size, ⟨heap.arrays ++ [array]⟩)

/-- `array[i] = value`, for a place that is there. -/
def assign (ref i : ℕ) (value : α) : Heap α := ⟨heap.arrays.modify ref (·.set i value)⟩

/-- `[array[i], array[j]] = [array[j], array[i]]`, for places that are there. -/
def swap (ref i j : ℕ) : Heap α :=
  match (heap.read ref)[i]?, (heap.read ref)[j]? with
  | some x, some y => (heap.assign ref i y).assign ref j x
  | _, _ => heap

/-- From the place `i` down to the second one, exchange the element with the one that `choice`
says. -/
def shuffle (choice : ℕ → ℕ) (ref : ℕ) : ℕ → Heap α → Heap α
  | 0, heap => heap
  | i + 1, heap => shuffle choice ref i (heap.swap ref (i + 1) (choice (i + 1)))

variable {heap} {array : List α} {ref ref' i j : ℕ} {value : α}

@[simp] theorem size_alloc : (heap.alloc array).2.size = heap.size + 1 := List.length_append

@[simp] theorem read_alloc : (heap.alloc array).2.read heap.size = array := by
  show (heap.arrays ++ [array]).getD heap.arrays.length [] = array
  rw [List.getD_append_right _ _ _ _ (Nat.le_refl _), Nat.sub_self]
  rfl

theorem read_alloc_of_lt (h : ref < heap.size) : (heap.alloc array).2.read ref = heap.read ref :=
  List.getD_append _ _ _ _ h

@[simp] theorem size_assign : (heap.assign ref i value).size = heap.size := List.length_modify _ _ _

theorem read_assign : (heap.assign ref i value).read ref = (heap.read ref).set i value := by
  rw [read, read, assign, List.getD_eq_getElem?_getD, List.getD_eq_getElem?_getD,
    List.getElem?_modify_eq]
  cases heap.arrays[ref]? with
  | none => exact List.set_nil.symm
  | some array => rfl

theorem read_assign_of_ne (h : ref' ≠ ref) :
    (heap.assign ref i value).read ref' = heap.read ref' := by
  have hplace : (heap.arrays.modify ref (·.set i value))[ref']? = heap.arrays[ref']? :=
    List.getElem?_modify_ne _ _ (Ne.symm h)
  rw [read, read, List.getD_eq_getElem?_getD, List.getD_eq_getElem?_getD, ← hplace]
  rfl

@[simp] theorem size_swap : (heap.swap ref i j).size = heap.size := by
  rw [swap]
  split
  · rw [size_assign, size_assign]
  · rfl

/-- **Under another reference nothing is seen of it.** -/
theorem read_swap_of_ne (h : ref' ≠ ref) : (heap.swap ref i j).read ref' = heap.read ref' := by
  rw [swap]
  split
  · rw [read_assign_of_ne h, read_assign_of_ne h]
  · rfl

theorem read_swap_perm : ((heap.swap ref i j).read ref).Perm (heap.read ref) := by
  rw [swap]
  split
  · next x y hx hy =>
    obtain ⟨hi, rfl⟩ := List.getElem?_eq_some_iff.mp hx
    obtain ⟨hj, rfl⟩ := List.getElem?_eq_some_iff.mp hy
    rw [read_assign, read_assign]
    exact List.set_set_perm hi hj
  · exact List.Perm.refl _

variable {choice : ℕ → ℕ}

theorem read_shuffle_of_ne (h : ref' ≠ ref) (i : ℕ) :
    (shuffle choice ref i heap).read ref' = heap.read ref' := by
  induction i generalizing heap with
  | zero => rfl
  | succ i ih => rw [shuffle, ih, read_swap_of_ne h]

/-- **What is shuffled keeps its elements.** -/
theorem read_shuffle_perm (i : ℕ) :
    ((shuffle choice ref i heap).read ref).Perm (heap.read ref) := by
  induction i generalizing heap with
  | zero => exact List.Perm.refl _
  | succ i ih => exact ih.trans read_swap_perm

@[simp] theorem size_shuffle (i : ℕ) : (shuffle choice ref i heap).size = heap.size := by
  induction i generalizing heap with
  | zero => rfl
  | succ i ih => rw [shuffle, ih, size_swap]

end Heap

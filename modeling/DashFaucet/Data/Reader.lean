import Mathlib.Data.List.Forall2
import Mathlib.Tactic.Common

/-!
# Items in a row

Formats that are items one after another, each telling its own length. A reader takes the first one
off the input, and a loop takes one after another until nothing is left.

* `Reader.fold`: the loop, with what it gathers.
* `Reader.Reads`: whatever follows, this chunk reads as this item.
* `Reader.fold_flatten`: chunks in a row read as their items.
* `Reader.Runs`, `Reader.fold_ok_runs`: the items that the loop takes, and from where.
* `Reader.fold_ok`: and whatever the loop accepts is chunks in a row.
-/

/-- What follows a step is reached only past it. -/
theorem Except.of_bind_ok {ε α β : Type*} {x : Except ε α} {f : α → Except ε β} {b : β}
    (h : x.bind f = .ok b) : ∃ a, x = .ok a ∧ f a = .ok b := by
  cases x with
  | ok a => exact ⟨a, rfl, h⟩
  | error e => cases h

/-- A sequence is refused by one of its steps. -/
theorem Except.of_bind_error {ε α β : Type*} {x : Except ε α} {f : α → Except ε β} {e : ε}
    (h : x.bind f = .error e) : x = .error e ∨ ∃ a, x = .ok a ∧ f a = .error e := by
  cases x with
  | ok a => exact .inr ⟨a, rfl, h⟩
  | error e' =>
    cases h
    exact .inl rfl

/-- What takes an item off the front of an input, and not nothing with it. -/
structure Reader (ε β α : Type*) where
  read : List β → Except ε (α × List β)
  taken : ∀ {input item rest}, read input = .ok (item, rest) →
    ∃ chunk, chunk ≠ [] ∧ input = chunk ++ rest

namespace Reader

variable {ε β α σ : Type*} (r : Reader ε β α) (step : σ → α → σ)

theorem length_lt {input : List β} {item : α} {rest : List β}
    (h : r.read input = .ok (item, rest)) : rest.length < input.length := by
  obtain ⟨chunk, hne, rfl⟩ := r.taken h
  rw [List.length_append]
  have hpos := List.length_pos_iff.mpr hne
  omega

/-- Take items until nothing is left. -/
def fold (s : σ) (input : List β) : Except ε σ :=
  if input = [] then .ok s
  else
    match _ : r.read input with
    | .error e => .error e
    | .ok (item, rest) => fold (step s item) rest
termination_by input.length
decreasing_by exact r.length_lt ‹_›

/-- Whatever follows, `chunk` reads as `item`. -/
def Reads (chunk : List β) (item : α) : Prop :=
  ∀ rest, r.read (chunk ++ rest) = .ok (item, rest)

/-- Before something, `chunk` reads as `item`. -/
def Takes (chunk : List β) (item : α) : Prop :=
  ∃ rest, r.read (chunk ++ rest) = .ok (item, rest)

/-- The loop takes these items off an input, one after another. -/
inductive Runs : List β → List α → Prop
  | nil : Runs [] []
  | cons {input rest : List β} {item : α} {items : List α}
      (head : r.read input = .ok (item, rest)) (tail : Runs rest items) : Runs input (item :: items)

variable {r} {s s' : σ} {input rest : List β} {item : α}

theorem fold_nil : r.fold step s [] = .ok s := by
  rw [fold, if_pos rfl]

theorem fold_error {e : ε} (hne : input ≠ []) (h : r.read input = .error e) :
    r.fold step s input = .error e := by
  rw [fold, if_neg hne]
  split
  · next heq =>
    rw [h] at heq
    cases heq
    rfl
  · next heq =>
    rw [h] at heq
    cases heq

theorem fold_read (h : r.read input = .ok (item, rest)) :
    r.fold step s input = r.fold step (step s item) rest := by
  have hne : input ≠ [] := by
    rintro rfl
    exact absurd (r.length_lt h) (Nat.not_lt_zero _)
  rw [fold, if_neg hne]
  split
  · next heq =>
    rw [h] at heq
    cases heq
  · next heq =>
    rw [h] at heq
    cases heq
    rfl

/-- **Chunks in a row read as their items.** -/
theorem fold_flatten {chunks : List (List β)} {items : List α}
    (h : List.Forall₂ r.Reads chunks items) (s : σ) :
    r.fold step s chunks.flatten = .ok (items.foldl step s) := by
  induction h generalizing s with
  | nil => exact fold_nil step
  | cons hchunk hchunks ih => rw [List.flatten_cons, fold_read step (hchunk _), ih, List.foldl_cons]

/-- What the loop accepts is items one after another. -/
theorem fold_ok_runs (h : r.fold step s input = .ok s') :
    ∃ items, r.Runs input items ∧ s' = items.foldl step s := by
  -- by the length of the input, which every item makes shorter
  induction hlen : input.length using Nat.strongRecOn generalizing input s with
  | ind n ih =>
    by_cases hne : input = []
    · rw [hne, fold_nil] at h
      rw [hne]
      exact ⟨[], .nil, (Except.ok.inj h).symm⟩
    cases hread : r.read input with
    | error e =>
      rw [fold_error step hne hread] at h
      cases h
    | ok result =>
      obtain ⟨item, rest⟩ := result
      rw [fold_read step hread] at h
      obtain ⟨items, hruns, rfl⟩ := ih _ (hlen ▸ r.length_lt hread) h rfl
      exact ⟨item :: items, .cons hread hruns, rfl⟩

theorem Runs.chunks {items : List α} (h : r.Runs input items) :
    ∃ chunks : List (List β), input = chunks.flatten ∧ List.Forall₂ r.Takes chunks items := by
  induction h with
  | nil => exact ⟨[], rfl, .nil⟩
  | cons head tail ih =>
    obtain ⟨chunk, -, rfl⟩ := r.taken head
    obtain ⟨chunks, rfl, hchunks⟩ := ih
    exact ⟨chunk :: chunks, rfl, .cons ⟨_, head⟩ hchunks⟩

/-- **What the loop accepts is chunks in a row.** -/
theorem fold_ok (h : r.fold step s input = .ok s') : ∃ chunks items,
    input = chunks.flatten ∧ List.Forall₂ r.Takes chunks items ∧ s' = items.foldl step s := by
  obtain ⟨items, hruns, hs⟩ := fold_ok_runs step h
  obtain ⟨chunks, hinput, hchunks⟩ := hruns.chunks
  exact ⟨chunks, items, hinput, hchunks, hs⟩

end Reader

import Mathlib.Data.Int.Notation
import Mathlib.Data.Nat.Notation
import Mathlib.Tactic.Basic
import Mathlib.Data.List.Induction

/-!
# Sliding windows

A log of timed entries is *limited* over a duration `w` when no window `(t - w, t]` holds more
entries than some entry inside it allows. A limiter that admits an entry only while fewer than its
allowance lie in the window ending at it (`Window.Admitted`) keeps its log limited, for every
position of the window: the last entry of a window saw all the others (`Window.Admitted.limited`).
-/

namespace Window

variable {α : Type} (time : α → ℤ) (limit : α → ℕ) (w : ℤ)

/-- The entries in the window `(t - w, t]`. -/
def within (t : ℤ) (l : List α) : List α := l.filter fun e => t - w < time e ∧ time e ≤ t

/-- No window holds more entries than the largest allowance inside it. -/
def Limited (l : List α) : Prop :=
  ∀ t, ∀ e ∈ within time w t l, ∃ e' ∈ within time w t l, (within time w t l).length ≤ limit e'

/-- Every entry found fewer than its allowance in the window ending at it. -/
def Admitted (l : List α) : Prop :=
  ∀ l₁ e l₂, l = l₁ ++ e :: l₂ → (within time w (time e) l₁).length < limit e

variable {time limit w}

@[simp] theorem within_nil (t : ℤ) : within time w t [] = [] := rfl

theorem mem_within {t : ℤ} {l : List α} {e : α} :
    e ∈ within time w t l ↔ e ∈ l ∧ t - w < time e ∧ time e ≤ t := by
  simp [within]

theorem within_append (t : ℤ) (l l' : List α) :
    within time w t (l ++ l') = within time w t l ++ within time w t l' :=
  List.filter_append ..

theorem limited_nil : Limited time limit w [] := fun _ e he => by simp at he

/-- A later window holds no more of the old entries than one that ends after all of them. -/
theorem within_length_le {l : List α} {t t' : ℤ} (hle : t ≤ t') (hl : ∀ e ∈ l, time e ≤ t) :
    (within time w t' l).length ≤ (within time w t l).length := by
  simp only [within, ← List.countP_eq_length_filter]
  refine List.countP_mono_left fun e he hwin => ?_
  have := hl e he
  simp only [decide_eq_true_eq] at hwin ⊢
  omega

/-- **The limiter keeps its promise.** An entry admitted at `time e`, after all the others, while
fewer than its allowance lie in the window ending there, leaves the log limited. -/
theorem Limited.snoc {l : List α} (h : Limited time limit w l) {e : α}
    (hl : ∀ e' ∈ l, time e' ≤ time e)
    (hroom : (within time w (time e) l).length < limit e) :
    Limited time limit w (l ++ [e]) := by
  intro t x hx
  rw [within_append] at hx ⊢
  by_cases hnew : t - w < time e ∧ time e ≤ t
  · have hwin : within time w t [e] = [e] := by simp [within, hnew]
    rw [hwin]
    refine ⟨e, by simp, ?_⟩
    have := within_length_le (w := w) hnew.2 hl
    simp only [List.length_append, List.length_singleton]
    omega
  · have hwin : within time w t [e] = [] := by simp [within, hnew]
    rw [hwin, List.append_nil] at hx ⊢
    exact h t x hx

theorem admitted_nil : Admitted time limit w [] := by
  intro l₁ e l₂ h
  cases l₁ <;> cases h

theorem Admitted.snoc {l : List α} (h : Admitted time limit w l) {e : α}
    (hroom : (within time w (time e) l).length < limit e) : Admitted time limit w (l ++ [e]) := by
  intro l₁ e' l₂ heq
  rcases List.eq_nil_or_concat l₂ with rfl | ⟨l₃, e'', rfl⟩
  · -- the new entry itself
    obtain ⟨rfl, hlast⟩ := List.append_inj' heq rfl
    cases hlast
    exact hroom
  · rw [List.concat_eq_append, ← List.cons_append, ← List.append_assoc] at heq
    obtain ⟨rfl, -⟩ := List.append_inj' heq rfl
    exact h l₁ e' l₃ rfl

theorem Admitted.of_append {l l' : List α} (h : Admitted time limit w (l ++ l')) :
    Admitted time limit w l := by
  intro l₁ e l₂ heq
  exact h l₁ e (l₂ ++ l') (by rw [heq, List.append_assoc, List.cons_append])

/-- **Admission limits every window** of a log in the order of time. -/
theorem Admitted.limited {l : List α} (h : Admitted time limit w l)
    (hsorted : l.Pairwise fun e e' => time e ≤ time e') : Limited time limit w l := by
  induction l using List.reverseRecOn with
  | nil => exact limited_nil
  | append_singleton l e ih =>
    rw [List.pairwise_append] at hsorted
    refine (ih h.of_append hsorted.1).snoc (fun e' he' => ?_) (h l e [] rfl)
    exact hsorted.2.2 e' he' e List.mem_cons_self

/-- With one allowance for all, no window holds more entries than it. -/
theorem Limited.length_le {k : ℕ} {l : List α} (h : Limited time (fun _ => k) w l) (t : ℤ) :
    (within time w t l).length ≤ k := by
  rcases hl : within time w t l with _ | ⟨e, es⟩
  · exact Nat.zero_le k
  · obtain ⟨e', _, hle⟩ := h t e (by simp [hl])
    rwa [hl] at hle

end Window

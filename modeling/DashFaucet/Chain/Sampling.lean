import DashFaucet.Chain.Directory

/-!
# Samples of evonodes

A sample is a fair draw in shape: distinct nodes of the list, as many as asked for or as there are,
and benched ones only when there are no others. The shuffle works in place, on an array of its own.

* `EvonodeDirectory.isBenched`, `candidates`: whom a sample is drawn from.
* `pool_spec`: the array that is shuffled is a new one, with the candidates in it.
* `sample_draws`: what a sample is, and that the list stays as it was.
-/

namespace DashFaucet

open Evonodes List

namespace EvonodeDirectory

variable (directory : EvonodeDirectory) (now n : ℕ)

/-- The origin is benched, and for longer than until now. -/
def isBenched (origin : String) : Bool :=
  match directory.benched.lookup origin with
  | some benchedUntil => decide (now < benchedUntil)
  | none => false

/-- The nodes that are not benched or, only if all are, the whole list. -/
def candidates : List String :=
  if directory.stored.all (directory.isBenched now) then directory.stored
  else directory.stored.filter fun origin => !directory.isBenched now origin

variable {directory now n}

theorem isLive_eq (origin : String) :
    directory.isLive now origin = !directory.isBenched now origin := by
  rw [isLive, isBenched]
  cases directory.benched.lookup origin with
  | none => exact decide_eq_true (Nat.zero_le now)
  | some benchedUntil => rw [Option.getD_some, ← decide_not, decide_eq_decide, Nat.not_lt]

/-- **The array that is shuffled is a new one**, with the candidates in it, and the list of the
directory is where it was. -/
theorem pool_spec :
    (directory.pool now).2.read (directory.pool now).1 = directory.candidates now ∧
      (directory.pool now).2.read directory.nodes = directory.stored ∧
      directory.nodes ≠ (directory.pool now).1 := by
  have hlt := directory.nodes_lt
  -- the filtered copy is a new array, so the stored one stays as it is
  have hkept : (directory.heap.alloc (directory.stored.filter (directory.isLive now))).2.read
      directory.nodes = directory.stored := Heap.read_alloc_of_lt hlt
  have hlive : (directory.heap.alloc (directory.stored.filter (directory.isLive now))).2.read
      (directory.heap.alloc (directory.stored.filter (directory.isLive now))).1 =
        directory.stored.filter (directory.isLive now) := Heap.read_alloc
  have hfilter : directory.stored.filter (directory.isLive now) =
      directory.stored.filter fun origin => !directory.isBenched now origin :=
    List.filter_congr fun origin _ => isLive_eq origin
  simp only [pool, hlive, hkept]
  by_cases hall : directory.stored.all (directory.isBenched now) = true
  · -- nobody is live: the sample is drawn from a copy
    have hnone : directory.stored.filter (directory.isLive now) = [] := by
      rw [hfilter, List.filter_eq_nil_iff]
      intro origin hmem
      rw [List.all_eq_true.mp hall origin hmem]
      exact Bool.false_ne_true
    rw [hnone, if_neg (show ¬([] : List String).length > 0 from Nat.lt_irrefl 0), candidates,
      if_pos hall]
    refine ⟨Heap.read_alloc, ?_, ?_⟩
    · rw [Heap.read_alloc_of_lt (by rw [Heap.size_alloc]; omega), Heap.read_alloc_of_lt hlt]
      rfl
    · show directory.nodes ≠ Heap.size _
      rw [Heap.size_alloc]
      omega
  · have hsome : 0 < (directory.stored.filter (directory.isLive now)).length := by
      rw [List.length_pos_iff, hfilter, Ne, List.filter_eq_nil_iff]
      intro hnone
      refine hall (List.all_eq_true.mpr fun origin hmem => ?_)
      have hnot := hnone origin hmem
      rwa [Bool.not_eq_true, Bool.not_eq_false'] at hnot
    rw [if_pos hsome, candidates, if_neg hall, ← hfilter]
    exact ⟨hlive, hkept, Nat.ne_of_lt hlt⟩

theorem candidates_sublist : directory.candidates now <+ directory.stored := by
  rw [candidates]
  split
  · exact List.Sublist.refl _
  · exact List.filter_sublist

/-- To start a discovery changes nothing that a sample looks at. -/
theorem refresh_spec (asked : ℕ) : (directory.refresh asked).stored = directory.stored ∧
    (directory.refresh asked).candidates now = directory.candidates now := by
  rw [refresh]
  split
  · exact ⟨rfl, rfl⟩
  · exact ⟨rfl, rfl⟩

/-- A sample is shuffled in an array of its own. -/
theorem sample_stored (asked now n : ℕ) (draw : Draw) :
    (directory.sample asked now n draw).2.stored = directory.stored := by
  obtain ⟨-, hlist, hother⟩ := @pool_spec (directory.refresh asked) now
  show Heap.read (Heap.shuffle _ _ _ _) (directory.refresh asked).nodes = _
  rw [Heap.read_shuffle_of_ne hother, hlist, (@refresh_spec directory now asked).1]

/-- **A sample is a fair draw in shape**: distinct candidates, as many as asked for or as there are.
And it leaves the list of the directory as it was. -/
theorem sample_draws (hnodup : directory.stored.Nodup) (asked now n : ℕ) (draw : Draw) :
    (directory.sample asked now n draw).1.Nodup ∧
      (directory.sample asked now n draw).1 ⊆ directory.candidates now ∧
      (directory.sample asked now n draw).1.length = min n (directory.candidates now).length ∧
      (directory.sample asked now n draw).2.stored = directory.stored := by
  obtain ⟨-, hcandidates⟩ := @refresh_spec directory now asked
  obtain ⟨hpool, -, -⟩ := @pool_spec (directory.refresh asked) now
  have hperm : ((directory.sample asked now n draw).2.heap.read
      ((directory.refresh asked).pool now).1).Perm (directory.candidates now) :=
    (Heap.read_shuffle_perm _).trans (Perm.of_eq (hpool.trans hcandidates))
  have hdistinct : (directory.candidates now).Nodup := hnodup.sublist candidates_sublist
  refine ⟨?_, ?_, ?_, sample_stored asked now n draw⟩
  · exact (hperm.nodup_iff.mpr hdistinct).sublist (List.take_sublist _ _)
  · exact fun origin hmem => hperm.subset (List.mem_of_mem_take hmem)
  · rw [← hperm.length_eq]
    exact List.length_take

/-- A directory of three nodes, one of them benched. -/
def three : EvonodeDirectory where
  network := .testnet
  heap := ⟨[["https://1.0.0.1:1443", "https://1.0.0.2:1443", "https://1.0.0.3:1443"]]⟩
  nodes := 0
  source := "quorums"
  nextRefresh := 3600000
  refreshing := false
  benched := [("https://1.0.0.2:1443", 600000)]
  nodes_lt := Nat.zero_lt_one

/-- A sample of five is of the two other nodes. -/
theorem sample_draws_three :
    (three.sample 1000 1000 5 ⟨fun _ => 0, Nat.zero_le⟩).1.Nodup ∧
      "https://1.0.0.2:1443" ∉ (three.sample 1000 1000 5 ⟨fun _ => 0, Nat.zero_le⟩).1 ∧
      (three.sample 1000 1000 5 ⟨fun _ => 0, Nat.zero_le⟩).1.length = 2 ∧
      (three.sample 1000 1000 5 ⟨fun _ => 0, Nat.zero_le⟩).2.stored = three.stored := by
  have hthree : three.stored.Nodup := by decide
  obtain ⟨hnodup, hsub, hlen, hstored⟩ := sample_draws hthree 1000 1000 5 ⟨fun _ => 0, Nat.zero_le⟩
  exact ⟨hnodup, fun hmem => absurd (hsub hmem) (by decide), hlen, hstored⟩

end EvonodeDirectory

end DashFaucet

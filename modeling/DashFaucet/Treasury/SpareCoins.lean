import DashFaucet.Config
import DashFaucet.Selection
import DashFaucet.Treasury.MergeSafety

/-!
# What `spareCoins` keeps

Two sets of coins are kept out of a merge: pool coins for the payouts, and collateral coins. Each is
cut off the end of a list in descending order, so that it is the smallest ones of its kind.

* `KeepsSmallest`: what it is to keep the smallest coins of a kind, and no other coin.
* `keepsSmallest_drop`: the last ones in descending order are the smallest.
* `spareCoins_keeps_iff`: the collateral coins always come out right, and the pool coins unless
  none are to be kept, as `slice(-0)` is all there are.
-/

namespace DashFaucet

open List

/-- Of the coins `all`, the coins `kept` are left out of `rest`: the smallest of a kind, `n` of them
or all there are. -/
structure KeepsSmallest (n : ℕ) (kind : Utxo → Bool) (all rest kept : List Utxo) : Prop where
  /-- No coin is lost, and none is there twice. -/
  whole : rest ++ kept ~ all
  kinds : ∀ u ∈ kept, kind u = true
  count : kept.length = min n (all.filter kind).length
  smallest : ∀ u ∈ kept, ∀ v ∈ rest, kind v = true → u.satoshis ≤ v.satoshis

namespace FaucetConfig

variable {cfg : FaucetConfig} {kind : Utxo → Bool} {all kept : List Utxo} {n : ℕ}

/-- What is left and what is kept make up the whole. -/
theorem without_append_perm (hall : (all.map Utxo.outpoint).Nodup) (hkept : kept <+ all) :
    without kept all ++ kept ~ all := by
  have hnodup : all.Nodup := List.Nodup.of_map _ hall
  have hin : (all.filter fun u => (kept.map Utxo.outpoint).contains u.outpoint) ~ kept := by
    refine (List.perm_ext_iff_of_nodup (hnodup.filter _) (hnodup.sublist hkept)).mpr fun u => ?_
    rw [List.mem_filter, List.contains_iff_mem]
    constructor
    · rintro ⟨hu, hout⟩
      obtain ⟨v, hv, heq⟩ := List.mem_map.mp hout
      exact List.inj_on_of_nodup_map hall (hkept.subset hv) hu heq ▸ hv
    · exact fun hu => ⟨hkept.subset hu, List.mem_map_of_mem hu⟩
  have hsplit := List.filter_append_perm
    (fun u => (kept.map Utxo.outpoint).contains u.outpoint) all
  exact (List.perm_append_comm.trans (hin.symm.append_right _)).trans hsplit

/-- **The last ones in descending order are the smallest.** -/
theorem keepsSmallest_drop (n : ℕ) (kind : Utxo → Bool) (hall : (all.map Utxo.outpoint).Nodup)
    (hsorted : all.Pairwise fun u v => v.satoshis ≤ u.satoshis) :
    KeepsSmallest n kind all
      (without ((all.filter kind).drop ((all.filter kind).length - n)) all)
      ((all.filter kind).drop ((all.filter kind).length - n)) where
  whole := without_append_perm hall ((List.drop_sublist _ _).trans List.filter_sublist)
  kinds u hu := (List.mem_filter.mp (List.mem_of_mem_drop hu)).2
  count := by
    rw [List.length_drop]
    omega
  smallest u hu v hv hkind := by
    obtain ⟨hv, hout⟩ := mem_without.mp hv
    have hsplit := List.take_append_drop ((all.filter kind).length - n) (all.filter kind)
    -- a coin of the kind that is not among the last comes before them
    have hbefore : v ∈ (all.filter kind).take ((all.filter kind).length - n) := by
      have hmem := List.mem_filter.mpr ⟨hv, hkind⟩
      rw [← hsplit] at hmem
      rcases List.mem_append.mp hmem with hmem | hmem
      · exact hmem
      · exact absurd (List.mem_map_of_mem hmem) hout
    have hpairs := hsorted.filter kind
    rw [← hsplit] at hpairs
    exact (List.pairwise_append.mp hpairs).2.2 v hbefore u hu

end FaucetConfig

open FaucetConfig

variable {cfg : FaucetConfig} {view : UtxoSnapshot} {goal : ℕ}

/-- The coins below a goal, in the order in which `spareCoins` goes through them. -/
def below (view : UtxoSnapshot) (goal : ℕ) : List Utxo :=
  descendingSats (view.utxos.filter fun u => u.satoshis < goal)

theorem below_nodup (hview : (view.utxos.map Utxo.outpoint).Nodup) :
    ((below view goal).map Utxo.outpoint).Nodup :=
  ((descendingSats_perm _).map _).nodup_iff.mpr (hview.sublist (List.filter_sublist.map _))

theorem mem_below {u : Utxo} : u ∈ below view goal ↔ u ∈ view.utxos ∧ u.satoshis < goal := by
  rw [below, (descendingSats_perm _).mem_iff, List.mem_filter, decide_eq_true_eq]

/-- The material is in descending order, and so is what is spared of it. -/
theorem material_pairwise :
    (cfg.material view.utxos goal).Pairwise fun u v => v.satoshis ≤ u.satoshis :=
  (descendingSats_pairwise _).sublist (without_sublist _ _)

theorem spare_pairwise :
    (cfg.spare view.utxos goal).Pairwise fun u v => v.satoshis ≤ u.satoshis :=
  material_pairwise.sublist (without_sublist _ _)

theorem material_nodup (hview : (view.utxos.map Utxo.outpoint).Nodup) :
    ((cfg.material view.utxos goal).map Utxo.outpoint).Nodup :=
  (below_nodup hview).sublist ((without_sublist _ _).map _)

/-- The collateral coins come out right, however many there are and are to be kept. -/
theorem spare_keeps (hview : (view.utxos.map Utxo.outpoint).Nodup) :
    KeepsSmallest cfg.collateralCoins (fun u => u.satoshis ≥ collateralCoinSats)
      (cfg.material view.utxos goal) (cfg.spare view.utxos goal)
      (cfg.keptCollateral view.utxos goal) :=
  keepsSmallest_drop _ _ (material_nodup hview) material_pairwise

/-- The pool coins come out right if some are to be kept. -/
theorem material_keeps (hview : (view.utxos.map Utxo.outpoint).Nodup)
    (hsome : 0 < cfg.poolTarget ∨ ∀ u ∈ view.utxos, u.satoshis < goal → cfg.isPoolCoin u = false) :
    KeepsSmallest cfg.poolTarget cfg.isPoolCoin (below view goal) (cfg.material view.utxos goal)
      (cfg.keptPool view.utxos goal) := by
  have hcut : cfg.keptPool view.utxos goal = ((below view goal).filter cfg.isPoolCoin).drop
      (((below view goal).filter cfg.isPoolCoin).length - cfg.poolTarget) := by
    rw [keptPool, sliceFromEnd]
    rcases hsome with hpos | hnone
    · rw [if_neg (Nat.pos_iff_ne_zero.mp hpos)]
      rfl
    · -- there is nothing to cut
      have hnil : (below view goal).filter cfg.isPoolCoin = [] := by
        refine List.filter_eq_nil_iff.mpr fun u hu => ?_
        obtain ⟨hmem, hlt⟩ := mem_below.mp hu
        rw [hnone u hmem hlt]
        exact Bool.false_ne_true
      rw [← below, hnil, List.drop_nil]
      exact ite_self _
  have hkeeps := keepsSmallest_drop cfg.poolTarget cfg.isPoolCoin (below_nodup hview)
    (descendingSats_pairwise (view.utxos.filter fun u => u.satoshis < goal))
  rw [← hcut] at hkeeps
  exact hkeeps

/-- **What `spareCoins` keeps.** The material is the coins below the goal in descending order,
without the smallest `POOL_TARGET` pool coins among them, exactly if `POOL_TARGET` is not zero or
there is no pool coin below the goal. The spare coins are the material without the smallest
`COLLATERAL_COINS` collateral coins in it, always. -/
theorem spareCoins_keeps_iff (hview : (view.utxos.map Utxo.outpoint).Nodup) :
    (((below view goal ~ view.utxos.filter fun u => u.satoshis < goal) ∧
        (cfg.material view.utxos goal).Pairwise (fun u v => v.satoshis ≤ u.satoshis) ∧
        ∃ kept, KeepsSmallest cfg.poolTarget cfg.isPoolCoin (below view goal)
          (cfg.material view.utxos goal) kept) ∧
      (cfg.spare view.utxos goal).Pairwise (fun u v => v.satoshis ≤ u.satoshis) ∧
      ∃ kept, KeepsSmallest cfg.collateralCoins (fun u => u.satoshis ≥ collateralCoinSats)
        (cfg.material view.utxos goal) (cfg.spare view.utxos goal) kept) ↔
      (0 < cfg.poolTarget ∨ ∀ u ∈ view.utxos, u.satoshis < goal → cfg.isPoolCoin u = false) := by
  constructor
  · rintro ⟨⟨-, -, kept, hkeeps⟩, -⟩
    rcases Nat.eq_zero_or_pos cfg.poolTarget with hzero | hpos
    · refine .inr fun u hu hlt => Bool.not_eq_true _ ▸ fun hpool => ?_
      -- none are to be kept, and this one is
      have hnone : kept = [] := by
        rw [← List.length_eq_zero_iff, hkeeps.count, hzero, Nat.zero_min]
      have hmem : u ∈ cfg.material view.utxos goal := by
        have hwhole := hkeeps.whole
        rw [hnone, List.append_nil] at hwhole
        exact hwhole.mem_iff.mpr (mem_below.mpr ⟨hu, hlt⟩)
      refine (mem_material.mp hmem).2 (List.mem_map_of_mem ?_)
      rw [keptPool, sliceFromEnd, if_pos hzero]
      exact List.mem_filter.mpr ⟨mem_below.mpr ⟨hu, hlt⟩, hpool⟩
    · exact .inl hpos
  · exact fun hsome => ⟨⟨descendingSats_perm _, material_pairwise, _, material_keeps hview hsome⟩,
      spare_pairwise, _, spare_keeps hview⟩

/-- A wallet of three pool coins, a small one and two collateral coins. -/
def mixedView : UtxoSnapshot where
  utxos := [⟨"a", 0, 2 * coin, "faucet", some 1⟩, ⟨"b", 0, 3 * coin, "faucet", some 1⟩,
    ⟨"c", 0, coin, "faucet", some 1⟩, ⟨"d", 0, 2 * coin, "faucet", none⟩,
    ⟨"e", 0, 1002 * coin, "faucet", some 1⟩, ⟨"f", 0, 1001 * coin, "faucet", some 1⟩]
  tipHeight := 1000
  source := "core"
  statuses := []

/-- Two of the pool coins and one of the collateral coins are kept. -/
theorem spareCoins_keeps_iff_mixed :
    let cfg := { Faucet.small.cfg with collateralCoins := 1 }
    ((below mixedView (2000 * coin)).map Utxo.txid = ["e", "f", "b", "a", "d", "c"] ∧
        (cfg.spare mixedView.utxos (2000 * coin)).map Utxo.txid = ["e", "b", "c"]) ∧
      (∃ kept, KeepsSmallest 2 cfg.isPoolCoin (below mixedView (2000 * coin))
        (cfg.material mixedView.utxos (2000 * coin)) kept) ∧
      ∃ kept, KeepsSmallest 1 (fun u => u.satoshis ≥ collateralCoinSats)
        (cfg.material mixedView.utxos (2000 * coin)) (cfg.spare mixedView.utxos (2000 * coin))
        kept := by
  intro cfg
  have hview : (mixedView.utxos.map Utxo.outpoint).Nodup := by decide
  obtain ⟨⟨-, -, hpool⟩, -, hcollateral⟩ :=
    (@spareCoins_keeps_iff cfg mixedView (2000 * coin) hview).mpr (.inl (by decide))
  exact ⟨by decide +kernel, hpool, hcollateral⟩

/-- **With `POOL_TARGET` zero all pool coins are kept.** The configuration accepts it, and a merge
is left without the three pool coins. -/
theorem pool_kept_whole :
    let cfg := { Faucet.small.cfg with poolTarget := 0 }
    (∀ number : String → Option ℕ, number "0" = some 0 →
        int number "POOL_TARGET" (some "0") (some 20) = .ok cfg.poolTarget) ∧
      (mixedView.utxos.map Utxo.outpoint).Nodup ∧
      (cfg.material mixedView.utxos (5 * coin)).map Utxo.txid = ["c"] ∧
      ¬∃ kept, KeepsSmallest cfg.poolTarget cfg.isPoolCoin (below mixedView (5 * coin))
        (cfg.material mixedView.utxos (5 * coin)) kept := by
  intro cfg
  have hmaterial : (cfg.material mixedView.utxos (5 * coin)).map Utxo.txid = ["c"] := by
    decide +kernel
  have hbelow : (below mixedView (5 * coin)).length = 4 := by decide +kernel
  refine ⟨fun number hnumber => ?_, by decide, hmaterial, ?_⟩
  · have hset : (some "0").filter (· ≠ "") = some "0" := rfl
    unfold int
    rw [hset]
    dsimp only
    rw [hnumber]
  · rintro ⟨kept, hkeeps⟩
    -- one coin of four is left, and none is to be kept
    have hlen := hkeeps.whole.length_eq
    have hone := congrArg List.length hmaterial
    have hcount : kept.length = 0 := hkeeps.count.trans (Nat.zero_min _)
    rw [List.length_map] at hone
    rw [List.length_append, hone, hcount, hbelow] at hlen
    exact absurd hlen (by decide)

end DashFaucet

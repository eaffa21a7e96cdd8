import Mathlib
import CornerPoint.Proofs.Plane.Exact

/-!
# What stays of near duplicates

Points are compared with those that have been kept so far, and a point near one of them is left
out. Closeness is not transitive, so in a chain of near points everything in front of a point has
a say in whether it stays. Points may also occur twice, and then only their places in the list
tell an earlier one from a later one. So this file speaks of the places that are kept:

> `mem_placesFrom_iff`: a place is kept exactly if no point at an earlier kept place is near its
> point.
> `distinct_eq_self_iff`: the lists that lose nothing are those whose points are pairwise apart.
> `distinct_keeps_first`: the first place is kept, and every place has a kept one at or before it
> whose point is near.
-/

namespace CornerPoint

section Distinct

variable {K : Type} [Scalar K]

/-- Points are dropped, never moved or made up. -/
theorem distinctFrom_sublist (eps : K) :
    ∀ (ps kept : List (Point K)), (distinctFrom eps kept ps).Sublist ps
  | [], _ => List.Sublist.refl _
  | p :: ps, kept => by
    rw [distinctFrom]
    split
    · exact (distinctFrom_sublist eps ps kept).cons p
    · exact (distinctFrom_sublist eps ps (p :: kept)).cons_cons p

/-- The points that are kept stay in their order. -/
theorem distinct_sublist (eps : K) (ps : List (Point K)) : (distinct eps ps).Sublist ps :=
  distinctFrom_sublist eps ps []

/-! ## Places -/

/-- The places in a list of the points that are near none of `kept` and near no point kept before
them. -/
def placesFrom (eps : K) (kept : List (Point K)) : (ps : List (Point K)) → List (Fin ps.length)
  | [] => []
  | p :: ps =>
    if kept.any (·.near p eps) then (placesFrom eps kept ps).map Fin.succ
    else 0 :: (placesFrom eps (p :: kept) ps).map Fin.succ

/-- What stays are the points at these places. -/
theorem distinctFrom_eq_map_placesFrom (eps : K) :
    ∀ ps kept : List (Point K), distinctFrom eps kept ps = (placesFrom eps kept ps).map (ps[·])
  | [], _ => rfl
  | p :: ps, kept => by
    rw [distinctFrom, placesFrom]
    split
    · rw [distinctFrom_eq_map_placesFrom eps ps kept, List.map_map]
      rfl
    · rw [distinctFrom_eq_map_placesFrom eps ps (p :: kept), List.map_cons, List.map_map]
      rfl

/-- The kept points stand in their old order. -/
theorem placesFrom_increasing (eps : K) :
    ∀ ps kept : List (Point K), (placesFrom eps kept ps).Pairwise (· < ·)
  | [], _ => List.Pairwise.nil
  | p :: ps, kept => by
    have hsucc : ∀ {l : List (Fin ps.length)}, l.Pairwise (· < ·) →
        (l.map Fin.succ).Pairwise (· < ·) := fun h =>
      List.pairwise_map.mpr (h.imp Fin.succ_lt_succ_iff.mpr)
    rw [placesFrom]
    split
    · exact hsucc (placesFrom_increasing eps ps kept)
    · refine List.pairwise_cons.mpr
        ⟨fun j hj => ?_, hsucc (placesFrom_increasing eps ps (p :: kept))⟩
      obtain ⟨i, _, rfl⟩ := List.mem_map.mp hj
      exact Fin.succ_pos i

/-- **Which places are kept.** No point that had been kept before may be near, and no point at an
earlier place that is kept itself. -/
theorem mem_placesFrom_iff (eps : K) :
    ∀ (ps kept : List (Point K)) (i : Fin ps.length), i ∈ placesFrom eps kept ps ↔
      (∀ u ∈ kept, u.near ps[i] eps = false) ∧
        ∀ j ∈ placesFrom eps kept ps, j < i → ps[j].near ps[i] eps = false
  | [], _, i => i.elim0
  | p :: ps, kept, i => by
    rw [placesFrom]
    split
    next hnear =>
      obtain ⟨u, hu, hup⟩ := List.any_eq_true.mp hnear
      cases i using Fin.cases with
      | zero =>
        refine iff_of_false (by simp) fun h => ?_
        exact absurd (h.1 u hu) (ne_false_of_eq_true hup)
      | succ i =>
        rw [List.mem_map_of_injective (Fin.succ_injective _), mem_placesFrom_iff eps ps kept i,
          List.forall_mem_map]
        simp
    next hnear =>
      cases i using Fin.cases with
      | zero =>
        refine iff_of_true (List.mem_cons_self ..) ⟨fun u hu => ?_, fun j _ hj => ?_⟩
        · exact Bool.eq_false_iff.mpr fun hup => hnear (List.any_eq_true.mpr ⟨u, hu, hup⟩)
        · exact absurd hj (Fin.not_lt_zero j)
      | succ i =>
        -- the first point has been kept, so it counts among the earlier ones
        have hmem : i.succ ∈ 0 :: (placesFrom eps (p :: kept) ps).map Fin.succ ↔
            i ∈ placesFrom eps (p :: kept) ps := by
          rw [List.mem_cons, List.mem_map_of_injective (Fin.succ_injective _)]
          exact or_iff_right (Fin.succ_ne_zero i)
        rw [hmem, mem_placesFrom_iff eps ps (p :: kept) i, List.forall_mem_cons,
          List.forall_mem_cons, List.forall_mem_map]
        simp only [Fin.succ_pos, Fin.succ_lt_succ_iff, forall_const]
        exact ⟨fun h => ⟨h.1.2, h.1.1, h.2⟩, fun h => ⟨⟨h.2.1, h.1⟩, h.2.2⟩⟩

/-- Of two points that stay, the later one would not be there if it were near the earlier one. -/
theorem distinct_pairwise (eps : K) (ps : List (Point K)) :
    (distinct eps ps).Pairwise fun u v => u.near v eps = false := by
  rw [distinct, distinctFrom_eq_map_placesFrom, List.pairwise_map]
  refine (placesFrom_increasing eps ps []).imp_of_mem fun {i j} hi hj hlt => ?_
  exact ((mem_placesFrom_iff eps ps [] j).mp hj).2 i hi hlt

/-! ## Lists that lose nothing -/

/-- Points that are apart already are all kept. -/
theorem distinctFrom_eq_self {eps : K} :
    ∀ {ps kept : List (Point K)}, (ps.Pairwise fun u v => u.near v eps = false) →
      (∀ u ∈ kept, ∀ v ∈ ps, u.near v eps = false) → distinctFrom eps kept ps = ps
  | [], _, _, _ => rfl
  | p :: ps, kept, hps, hkept => by
    obtain ⟨hp, hps⟩ := List.pairwise_cons.mp hps
    have hnone : ¬kept.any (·.near p eps) = true := fun hany => by
      obtain ⟨u, hu, hup⟩ := List.any_eq_true.mp hany
      exact absurd (hkept u hu p (List.mem_cons_self ..)) (ne_false_of_eq_true hup)
    rw [distinctFrom, if_neg hnone, distinctFrom_eq_self hps]
    exact List.forall_mem_cons.mpr
      ⟨hp, fun u hu v hv => hkept u hu v (List.mem_cons_of_mem _ hv)⟩

/-- **Nothing is left out of a list exactly if its points are pairwise apart.** -/
theorem distinct_eq_self_iff {eps : K} {ps : List (Point K)} :
    distinct eps ps = ps ↔ ps.Pairwise fun u v => u.near v eps = false := by
  constructor
  · intro h
    rw [← h]
    exact distinct_pairwise eps ps
  · intro h
    exact distinctFrom_eq_self h fun u hu => absurd hu List.not_mem_nil

end Distinct

/-! ## Which points stay -/

/-- The places in a list whose points stay, when the first of several near points is to stay. -/
structure KeepsFirst (eps : ℚ) (ps : List (Point ℚ)) (kept : List (Fin ps.length)) : Prop where
  increasing : kept.Pairwise (· < ·)
  first : ∀ h : 0 < ps.length, ⟨0, h⟩ ∈ kept
  apart : ∀ i ∈ kept, ∀ j ∈ kept, i ≠ j → ps[i].near ps[j] eps = false
  covers : ∀ i, ∃ j ∈ kept, j ≤ i ∧ ps[j].near ps[i] eps = true
  dropped : ∀ i, i ∉ kept → ∃ j ∈ kept, j < i ∧ ps[j].near ps[i] eps = true

section Kept

variable {eps : ℚ} {ps : List (Point ℚ)}

/-- A place that is not kept has an earlier one to answer for it. -/
theorem exists_near_of_not_mem_placesFrom {i : Fin ps.length} (hi : i ∉ placesFrom eps [] ps) :
    ∃ j ∈ placesFrom eps [] ps, j < i ∧ ps[j].near ps[i] eps = true := by
  by_contra hnone
  refine hi ((mem_placesFrom_iff eps ps [] i).mpr ⟨by simp, fun j hj hlt => ?_⟩)
  exact Bool.eq_false_iff.mpr fun hnear => hnone ⟨j, hj, hlt, hnear⟩

/-- The places that are kept are the ones that the law describes. -/
theorem keepsFirst_placesFrom (heps : 0 < eps) (ps : List (Point ℚ)) :
    KeepsFirst eps ps (placesFrom eps [] ps) where
  increasing := placesFrom_increasing eps ps []
  first h := (mem_placesFrom_iff eps ps [] ⟨0, h⟩).mpr
    ⟨by simp, fun j _ hj => absurd hj (Nat.not_lt_zero j)⟩
  apart i hi j hj hne := by
    rcases lt_or_gt_of_ne hne with hlt | hgt
    · exact ((mem_placesFrom_iff eps ps [] j).mp hj).2 i hi hlt
    · exact Point.near_comm.trans (((mem_placesFrom_iff eps ps [] i).mp hi).2 j hj hgt)
  covers i := by
    by_cases hi : i ∈ placesFrom eps [] ps
    · exact ⟨i, hi, le_refl i, Point.near_self heps⟩
    · obtain ⟨j, hj, hlt, hnear⟩ := exists_near_of_not_mem_placesFrom hi
      exact ⟨j, hj, hlt.le, hnear⟩
  dropped _ hi := exists_near_of_not_mem_placesFrom hi

/-- Every point has a kept one close to it. -/
theorem exists_near_distinct (heps : 0 < eps) {p : Point ℚ} (hp : p ∈ ps) :
    ∃ u ∈ distinct eps ps, u.near p eps = true := by
  obtain ⟨i, hi, rfl⟩ := List.mem_iff_getElem.mp hp
  obtain ⟨j, hj, _, hnear⟩ := (keepsFirst_placesFrom heps ps).covers ⟨i, hi⟩
  rw [distinct, distinctFrom_eq_map_placesFrom]
  exact ⟨ps[j], List.mem_map_of_mem hj, hnear⟩

/-- **Deduplication keeps first occurrences and loses no location.** The points that stay are
those at increasing places of the list. The first place is kept, points at two kept places are
apart, every place has a kept one at or before it with a point near its own, and a place that is
not kept has one before it. A second run changes nothing, nor does a first one change a list of
points that are apart. -/
theorem distinct_keeps_first (heps : 0 < eps) (ps : List (Point ℚ)) :
    (∃ kept, KeepsFirst eps ps kept ∧ distinct eps ps = kept.map (ps[·])) ∧
      distinct eps (distinct eps ps) = distinct eps ps ∧
      ∀ qs : List (Point ℚ), (qs.Pairwise fun u v => u.near v eps = false) →
        distinct eps qs = qs :=
  ⟨⟨placesFrom eps [] ps, keepsFirst_placesFrom heps ps, distinctFrom_eq_map_placesFrom eps ps []⟩,
    distinct_eq_self_iff.mpr (distinct_pairwise eps ps), fun _ => distinct_eq_self_iff.mpr⟩

end Kept

/-- Three points in a row, each near the next one only, and the first one once more. -/
def chain : List (Point ℚ) := [⟨1, 1⟩, ⟨1 + 2 / 3000, 1⟩, ⟨1 + 4 / 3000, 1⟩, ⟨1, 1⟩]

/-- The third point is near the second one and stays, as the second one does not. -/
theorem distinct_keeps_first_chain : (0 : ℚ) < 1 / 1000 ∧
    distinct (1 / 1000) chain = [⟨1, 1⟩, ⟨1 + 4 / 3000, 1⟩] ∧
    (∃ kept, KeepsFirst (1 / 1000) chain kept ∧ distinct (1 / 1000) chain = kept.map (chain[·])) ∧
    distinct (1 / 1000) (distinct (1 / 1000) chain) = distinct (1 / 1000) chain ∧
    distinct (1 / 1000) [Point.mk (1 : ℚ) 1, ⟨1, 2⟩] = [⟨1, 1⟩, ⟨1, 2⟩] := by
  have hapart : [Point.mk (1 : ℚ) 1, ⟨1, 2⟩].Pairwise fun u v => u.near v (1 / 1000) = false :=
    List.pairwise_pair.mpr (by cbv)
  have heps : (0 : ℚ) < 1 / 1000 := by norm_num
  obtain ⟨hkept, hagain, hself⟩ := distinct_keeps_first heps chain
  exact ⟨heps, by cbv, hkept, hagain, hself _ hapart⟩

end CornerPoint

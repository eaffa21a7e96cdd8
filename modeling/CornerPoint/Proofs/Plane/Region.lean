import Mathlib
import CornerPoint.Proofs.Plane.Candidates
import CornerPoint.Proofs.Plane.Distinct

/-!
# The listed corners

The corners that are listed for a region are the feasible candidates after two further steps:
near duplicates are left out, and the rest is sorted. The first step may replace a point by a
near one, and the second only changes the order. This file carries what is known of the
candidates through both.

> `exists_near_mem_corners`: every feasible candidate is near some listed corner.
> `corners_pairwise`: no two listed corners are near each other, in either order.

Points are kept or left out in the order in which the candidates are generated, and the list
is in the order of the sweep; since closeness is symmetric, being apart survives the change.
-/

namespace CornerPoint

/-! ## The sweep -/

/-- The sweep of exact directions, which have rational coordinates but no rational angles. A
direction is placed where its ray meets the square with corners on the axes; going around the
square from the first axis, this is in the order of the angles in (-π, π]. The zero vector has
the angle of the first axis. -/
def Sweep.diamond : Sweep ℚ where
  Angle := ℚ
  angle dx dy :=
    if dx = 0 ∧ dy = 0 then 0
    else
      let turn := 1 - dx / (Scalar.abs dx + Scalar.abs dy)
      if 0 ≤ dy then turn else -turn
  le a b := decide (a ≤ b)
  le_trans a b c h h' := by
    rw [decide_eq_true_iff] at h h' ⊢
    exact h.trans h'
  le_total a b := by
    rw [Bool.or_eq_true, decide_eq_true_iff, decide_eq_true_iff]
    exact LinearOrder.le_total a b

/-- Sorting changes nothing but the order. -/
theorem Sweep.sort_perm {K : Type} [Scalar K] (s : Sweep K) (ps : List (Point K)) :
    (s.sort ps).Perm ps := by
  unfold Sweep.sort Point.mean?
  cases ps with
  | nil => exact List.Perm.refl _
  | cons p ps => exact List.mergeSort_perm _ _

/-! ## The list of corners -/

section Corners

variable {sweep : Sweep ℚ} {cs : List (Constraint ℚ)} {eps : ℚ} {p v : Point ℚ}

theorem mem_corners_iff :
    v ∈ corners sweep cs eps ↔ v ∈ distinct eps (feasibleCandidates cs eps) :=
  (sweep.sort_perm _).mem_iff

/-- A listed corner is a feasible candidate. -/
theorem mem_feasibleCandidates_of_mem_corners (hv : v ∈ corners sweep cs eps) :
    v ∈ candidates cs eps ∧ feasible cs eps v = true :=
  List.mem_filter.mp ((distinct_sublist eps _).subset (mem_corners_iff.mp hv))

/-- **Every feasible candidate is near a listed corner.** -/
theorem exists_near_mem_corners (sweep : Sweep ℚ) (heps : 0 < eps)
    (hp : p ∈ candidates cs eps) (hfeas : feasible cs eps p = true) :
    ∃ v ∈ corners sweep cs eps, v.near p eps = true := by
  obtain ⟨v, hv, hnear⟩ := exists_near_distinct heps (List.mem_filter.mpr ⟨hp, hfeas⟩)
  exact ⟨v, mem_corners_iff.mpr hv, hnear⟩

/-- **Listed corners are pairwise apart.** -/
theorem corners_pairwise (sweep : Sweep ℚ) (cs : List (Constraint ℚ)) (eps : ℚ) :
    (corners sweep cs eps).Pairwise fun u v => u.near v eps = false :=
  (List.Perm.pairwise_iff (fun h => Point.near_comm.trans h) (sweep.sort_perm _)).mpr
    (distinct_pairwise eps _)

end Corners

end CornerPoint

import Mathlib
import CornerPoint.Plane.Region

/-!
# The plane over exact numbers

Over the rationals every test of the geometry means what it says. This file reads each of
them once as a statement about rational arithmetic, so that no later proof has to look into
a test again, and it says what the tests approximate: `Constraint.Satisfied` is a constraint
without any tolerance, and `region` is the set of points of the quadrant that satisfy all
constraints of a list.

> `feasible_of_mem_region`: at a positive tolerance the test accepts every point of the
> region. It accepts points around it as well.
-/

namespace CornerPoint

/-! ## Tests on points -/

/-- Without rounding and without zeros of two signs, the magnitude is the absolute value. -/
theorem Scalar.abs_rat (q : ℚ) : Scalar.abs q = |q| := by
  show (if q < 0 then -q else q) = |q|
  split
  next h => exact (abs_of_neg h).symm
  next h => exact (abs_of_nonneg (not_lt.mp h)).symm

namespace Point

variable {p q : Point ℚ} {eps : ℚ}

/-- Near is near in each coordinate, not in the distance. -/
theorem near_iff : p.near q eps = true ↔ |p.x - q.x| < eps ∧ |p.y - q.y| < eps := by
  rw [near, Bool.and_eq_true, decide_eq_true_iff, decide_eq_true_iff, Scalar.abs_rat,
    Scalar.abs_rat]

/-- A point is near itself at any positive tolerance. -/
theorem near_self (heps : 0 < eps) : p.near p eps = true := by
  rw [near_iff, sub_self, sub_self, abs_zero]
  exact ⟨heps, heps⟩

/-- Closeness is symmetric, though not transitive. -/
theorem near_comm : p.near q eps = q.near p eps := by
  rw [Bool.eq_iff_iff, near_iff, near_iff, abs_sub_comm p.x, abs_sub_comm p.y]

theorem inQuadrant_iff : p.inQuadrant = true ↔ 0 ≤ p.x ∧ 0 ≤ p.y := by
  rw [inQuadrant, Bool.and_eq_true, decide_eq_true_iff, decide_eq_true_iff]

end Point

/-! ## Constraints without a tolerance -/

/-- The relation between two exact numbers. -/
def Relation.Holds : Relation → ℚ → ℚ → Prop
  | .le, l, r => l ≤ r
  | .ge, l, r => r ≤ l
  | .eq, l, r => l = r

instance Relation.decidableHolds : (rel : Relation) → (l r : ℚ) → Decidable (rel.Holds l r)
  | .le, l, r => inferInstanceAs (Decidable (l ≤ r))
  | .ge, l, r => inferInstanceAs (Decidable (r ≤ l))
  | .eq, l, r => inferInstanceAs (Decidable (l = r))

namespace Constraint

variable {c d : Constraint ℚ} {p q : Point ℚ} {eps : ℚ}

/-- The point satisfies the constraint exactly. -/
def Satisfied (c : Constraint ℚ) (p : Point ℚ) : Prop := c.relation.Holds (c.lhsAt p) c.rhs

instance (c : Constraint ℚ) (p : Point ℚ) : Decidable (c.Satisfied p) :=
  inferInstanceAs (Decidable (c.relation.Holds (c.lhsAt p) c.rhs))

/-- The point lies on the line of the constraint. -/
def Tight (c : Constraint ℚ) (p : Point ℚ) : Prop := c.lhsAt p = c.rhs

theorem lhsAt_rat (c : Constraint ℚ) (p : Point ℚ) : c.lhsAt p = c.a * p.x + c.b * p.y := rfl

theorem det_rat (c d : Constraint ℚ) : c.det d = c.a * d.b - d.a * c.b := rfl

theorem holds_iff : c.holds eps p = true ↔
    match c.relation with
    | .le => c.lhsAt p ≤ c.rhs + eps
    | .ge => c.rhs - eps ≤ c.lhsAt p
    | .eq => |c.lhsAt p - c.rhs| < eps := by
  unfold holds
  cases c.relation with
  | le => exact decide_eq_true_iff
  | ge => exact decide_eq_true_iff
  | eq => exact decide_eq_true_iff.trans (by rw [Scalar.abs_rat])

/-- The test with a positive tolerance accepts whatever satisfies the constraint. -/
theorem holds_of_satisfied (heps : 0 < eps) (h : c.Satisfied p) : c.holds eps p = true := by
  rw [holds_iff]
  unfold Satisfied at h
  cases hr : c.relation with
  | le =>
    rw [hr] at h
    have hle : c.lhsAt p ≤ c.rhs := h
    show c.lhsAt p ≤ c.rhs + eps
    linarith
  | ge =>
    rw [hr] at h
    have hge : c.rhs ≤ c.lhsAt p := h
    show c.rhs - eps ≤ c.lhsAt p
    linarith
  | eq =>
    rw [hr] at h
    have heq : c.lhsAt p = c.rhs := h
    show |c.lhsAt p - c.rhs| < eps
    -- only here the tolerance has to be positive
    rw [heq, sub_self, abs_zero]
    exact heps

/-- A point on the line of a row satisfies it, whatever its relation. -/
theorem satisfied_of_tight (h : c.Tight p) : c.Satisfied p := by
  unfold Satisfied
  cases c.relation with
  | le => exact le_of_eq h
  | ge => exact ge_of_eq h
  | eq => exact h

theorem isDegenerate_iff : c.isDegenerate = true ↔ c.a = 0 ∧ c.b = 0 := by
  rw [isDegenerate, Bool.and_eq_true, beq_iff_eq, beq_iff_eq]

end Constraint

/-! ## Regions -/

/-- The points of the quadrant that satisfy all constraints exactly. -/
def region (cs : List (Constraint ℚ)) : Set (Point ℚ) :=
  {p | (0 ≤ p.x ∧ 0 ≤ p.y) ∧ ∀ c ∈ cs, c.Satisfied p}

instance (cs : List (Constraint ℚ)) (p : Point ℚ) : Decidable (p ∈ region cs) :=
  inferInstanceAs (Decidable ((0 ≤ p.x ∧ 0 ≤ p.y) ∧ ∀ c ∈ cs, c.Satisfied p))

theorem feasible_iff {cs : List (Constraint ℚ)} {eps : ℚ} {p : Point ℚ} :
    feasible cs eps p = true ↔ ∀ c ∈ cs, c.holds eps p = true :=
  List.all_eq_true

/-- **The test is complete.** At a positive tolerance every point of the region passes. -/
theorem feasible_of_mem_region {cs : List (Constraint ℚ)} {eps : ℚ} {p : Point ℚ}
    (heps : 0 < eps) (hp : p ∈ region cs) : feasible cs eps p = true :=
  feasible_iff.mpr fun c hc => Constraint.holds_of_satisfied heps (hp.2 c hc)

end CornerPoint

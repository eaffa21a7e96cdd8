import Mathlib
import CornerPoint.Program.Objective
import CornerPoint.Proofs.Plane.Corner

/-!
# The earliest best point

The scan for the best point keeps one point at a time, and a later point takes over only when
it is strictly better. This file says what that leaves in the end:

> `firstBest_of_best?`: the point found is an element of the list, everything in front of it
> is strictly worse, and nothing behind it is better.

Larger and smaller values are told apart once, by `Sense.merit`, the value counted so that
more is better. In this form an objective is a linear form over the plane, whichever way it
points, and near points have nearly the same merit.
-/

namespace CornerPoint

/-- The value as a quantity of which more is wanted. -/
def Sense.merit : Sense → ℚ → ℚ
  | .maximize, v => v
  | .minimize, v => -v

namespace Objective

variable {o : Objective ℚ} {p q : Point ℚ} {eps v w : ℚ}

/-- To improve is to have more merit, strictly: a tie keeps the earlier point. -/
theorem improves_iff : o.improves v w = true ↔ o.sense.merit w < o.sense.merit v := by
  unfold improves
  cases o.sense with
  | maximize => exact decide_eq_true_iff
  | minimize => exact decide_eq_true_iff.trans neg_lt_neg_iff.symm

theorem not_improves_iff : o.improves v w = false ↔ o.sense.merit v ≤ o.sense.merit w := by
  rw [← Bool.not_eq_true, improves_iff, not_lt]

theorem valueAt_rat (o : Objective ℚ) (p : Point ℚ) : o.valueAt p = o.a * p.x + o.b * p.y := rfl

/-- The direction in which the merit grows. -/
def gradient (o : Objective ℚ) : Point ℚ := ⟨o.sense.merit o.a, o.sense.merit o.b⟩

/-- The merit of a point is a linear form for both senses. -/
theorem merit_valueAt (o : Objective ℚ) (p : Point ℚ) :
    o.sense.merit (o.valueAt p) = o.gradient.dot p := by
  rw [valueAt_rat, Point.dot, gradient]
  cases o.sense with
  | maximize => rfl
  | minimize =>
    show -(o.a * p.x + o.b * p.y) = -o.a * p.x + -o.b * p.y
    ring

/-- The values at near points differ by at most the tolerance, weighted with the coefficients. -/
theorem abs_valueAt_sub_le (h : p.near q eps = true) :
    |o.valueAt p - o.valueAt q| ≤ (|o.a| + |o.b|) * eps := by
  obtain ⟨hx, hy⟩ := Point.near_iff.mp h
  calc |o.valueAt p - o.valueAt q| = |o.a * (p.x - q.x) + o.b * (p.y - q.y)| := by
        rw [valueAt_rat, valueAt_rat]
        congr 1
        ring
    _ ≤ |o.a * (p.x - q.x)| + |o.b * (p.y - q.y)| := abs_add_le _ _
    _ = |o.a| * |p.x - q.x| + |o.b| * |p.y - q.y| := by rw [abs_mul, abs_mul]
    _ ≤ |o.a| * eps + |o.b| * eps :=
        add_le_add (mul_le_mul_of_nonneg_left hx.le (abs_nonneg _))
          (mul_le_mul_of_nonneg_left hy.le (abs_nonneg _))
    _ = (|o.a| + |o.b|) * eps := (add_mul _ _ _).symm

/-- A near point loses little merit. -/
theorem merit_le_of_near (h : p.near q eps = true) :
    o.sense.merit (o.valueAt q) ≤ o.sense.merit (o.valueAt p) + (|o.a| + |o.b|) * eps := by
  obtain ⟨hlow, hhigh⟩ := abs_le.mp (abs_valueAt_sub_le (o := o) h)
  cases o.sense with
  | maximize =>
    show o.valueAt q ≤ o.valueAt p + (|o.a| + |o.b|) * eps
    linarith
  | minimize =>
    show -o.valueAt q ≤ -o.valueAt p + (|o.a| + |o.b|) * eps
    linarith

/-! ## The scan -/

/-- `top` is the earliest best point of the list, with its value. -/
structure FirstBest (o : Objective ℚ) (ps : List (Point ℚ)) (top : Optimum ℚ) : Prop where
  value_eq : top.value = o.valueAt top.point
  split : ∃ before after, ps = before ++ top.point :: after ∧
    (∀ u ∈ before, o.improves top.value (o.valueAt u) = true) ∧
    ∀ u ∈ after, o.improves (o.valueAt u) top.value = false

variable {ps : List (Point ℚ)} {top : Optimum ℚ}

/-- The best point is one of those compared. -/
theorem FirstBest.mem (h : FirstBest o ps top) : top.point ∈ ps := by
  obtain ⟨before, after, heq, _⟩ := h.split
  rw [heq]
  exact List.mem_append_right _ (List.mem_cons_self ..)

/-- No point is better than the first best one, whether it stands in front of it or behind it. -/
theorem FirstBest.not_improves (h : FirstBest o ps top) {u : Point ℚ} (hu : u ∈ ps) :
    o.improves (o.valueAt u) top.value = false := by
  obtain ⟨before, after, heq, hbefore, hafter⟩ := h.split
  rw [heq, List.mem_append, List.mem_cons] at hu
  rcases hu with hu | rfl | hu
  · exact not_improves_iff.mpr (improves_iff.mp (hbefore u hu)).le
  · rw [h.value_eq]
    exact not_improves_iff.mpr (le_refl _)
  · exact hafter u hu

/-- One step of the scan, when the points `ps` have been seen. -/
theorem FirstBest.step (h : FirstBest o ps top) (p : Point ℚ) :
    FirstBest o (ps ++ [p])
      (if o.improves (o.valueAt p) top.value then o.optimumAt p else top) := by
  split
  next himp =>
    -- `p` takes over: it beats `top`, and nothing seen so far beats `top`
    refine ⟨rfl, ps, [], rfl, fun u hu => ?_, fun u hu => absurd hu List.not_mem_nil⟩
    have hle := not_improves_iff.mp (h.not_improves hu)
    exact improves_iff.mpr (hle.trans_lt (improves_iff.mp himp))
  next himp =>
    obtain ⟨before, after, heq, hbefore, hafter⟩ := h.split
    refine ⟨h.value_eq, before, after ++ [p], ?_, hbefore, fun u hu => ?_⟩
    · rw [heq, List.append_assoc, List.cons_append]
    · rcases List.mem_append.mp hu with hu | hu
      · exact hafter u hu
      · rw [List.mem_singleton.mp hu]
        exact Bool.eq_false_iff.mpr himp

/-- The whole scan, when the points `ps` have been seen. -/
theorem FirstBest.bestFrom :
    ∀ (rest : List (Point ℚ)) {ps : List (Point ℚ)} {top : Optimum ℚ},
      FirstBest o ps top → FirstBest o (ps ++ rest) (o.bestFrom top rest)
  | [], ps, top, h => by
    rw [List.append_nil]
    exact h
  | p :: rest, ps, top, h => by
    rw [Objective.bestFrom, List.append_cons]
    exact FirstBest.bestFrom rest (h.step p)

/-- **What the scan finds is the earliest best point.** -/
theorem firstBest_of_best? (h : o.best? ps = some top) : FirstBest o ps top := by
  cases ps with
  | nil => exact absurd h (by simp [best?])
  | cons p ps =>
    rw [best?, Option.some.injEq] at h
    rw [← h]
    have hfirst : FirstBest o [p] (o.optimumAt p) :=
      ⟨rfl, [], [], rfl, fun u hu => absurd hu List.not_mem_nil,
        fun u hu => absurd hu List.not_mem_nil⟩
    exact FirstBest.bestFrom ps hfirst

/-- Only of no points at all there is no best one. -/
theorem best?_eq_none_iff : o.best? ps = none ↔ ps = [] := by
  cases ps with
  | nil => exact ⟨fun _ => rfl, fun _ => rfl⟩
  | cons p ps => exact ⟨fun h => absurd h (by simp [best?]), fun h => absurd h (by simp)⟩

end Objective

end CornerPoint

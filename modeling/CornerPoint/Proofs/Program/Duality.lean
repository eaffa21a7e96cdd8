import Mathlib
import CornerPoint.Proofs.Program.Solve

/-!
# The opposite objective

Making a form large is making its negation small. The two objectives have opposite values and
opposite senses, and so the same point beats another under both:

> `improves_opposite`: what is better under one objective is better under the other.
> `best?_opposite`: the scan keeps the same point at every step, so ties are broken alike.
> `solve_opposite`: the outcome is the same, with the value of the optimum negated.

Neither the corners nor the conflicts depend on the objective, and the analysis depends on it
through differences of values only.
-/

namespace CornerPoint

/-- The negated value is as good in the other sense. -/
theorem Sense.merit_flip (s : Sense) (v : ℚ) : s.flip.merit (-v) = s.merit v := by
  cases s with
  | maximize => exact neg_neg v
  | minimize => rfl

/-- The optimum with its value negated. -/
def Optimum.negate (top : Optimum ℚ) : Optimum ℚ := { top with value := -top.value }

namespace Objective

variable {o : Objective ℚ} {p : Point ℚ} {top : Optimum ℚ} {eps v w : ℚ}

/-- The negated form, of which the opposite is wanted. -/
def opposite (o : Objective ℚ) : Objective ℚ := ⟨-o.a, -o.b, o.sense.flip⟩

theorem valueAt_opposite : o.opposite.valueAt p = -o.valueAt p := by
  rw [valueAt_rat, valueAt_rat]
  show -o.a * p.x + -o.b * p.y = -(o.a * p.x + o.b * p.y)
  ring

theorem optimumAt_opposite : o.opposite.optimumAt p = (o.optimumAt p).negate :=
  Optimum.ext rfl valueAt_opposite

/-- The same value is better under both objectives. -/
theorem improves_opposite : o.opposite.improves (-v) (-w) = o.improves v w := by
  have hsense : o.opposite.sense = o.sense.flip := rfl
  rw [Bool.eq_iff_iff, improves_iff, improves_iff, hsense, Sense.merit_flip, Sense.merit_flip]

/-! ## The scan and the alternatives -/

/-- At every step of the scan the same point is kept. -/
theorem bestFrom_opposite :
    ∀ (ps : List (Point ℚ)) (top : Optimum ℚ),
      o.opposite.bestFrom top.negate ps = (o.bestFrom top ps).negate
  | [], _ => rfl
  | p :: ps, top => by
    have himproves : o.opposite.improves (o.opposite.valueAt p) top.negate.value
        = o.improves (o.valueAt p) top.value := by
      rw [valueAt_opposite]
      exact improves_opposite
    rw [bestFrom, bestFrom, himproves, optimumAt_opposite, ← apply_ite Optimum.negate]
    exact bestFrom_opposite ps _

/-- So the scan ends with the same point, with its value negated. -/
theorem best?_opposite (ps : List (Point ℚ)) :
    o.opposite.best? ps = (o.best? ps).map Optimum.negate := by
  cases ps with
  | nil => rfl
  | cons p ps =>
    rw [best?, best?, optimumAt_opposite, bestFrom_opposite]
    rfl

/-- Only differences of values decide which other corners are as good. -/
theorem alternatives_opposite (ps : List (Point ℚ)) :
    o.opposite.alternatives eps top.negate ps = o.alternatives eps top ps := by
  have hgap : ∀ p, |o.opposite.valueAt p - top.negate.value| = |o.valueAt p - top.value| :=
    fun p => by
      rw [valueAt_opposite, ← abs_neg (o.valueAt p - top.value), neg_sub']
      rfl
  have hpoint : top.negate.point = top.point := rfl
  simp only [alternatives, Scalar.abs_rat, hgap, hpoint]

end Objective

/-! ## Outcomes -/

/-- The second outcome is the first one with the value of the optimum negated. -/
structure Solution.Opposite (s t : Solution ℚ) : Prop where
  isOptimal : t.isOptimal = s.isOptimal
  corners : t.corners = s.corners
  optimum : t.optimum? = s.optimum?.map Optimum.negate
  alternatives : t.analysis.alternatives = s.analysis.alternatives
  slacks : t.analysis.slacks = s.analysis.slacks
  bindingConstraints : t.analysis.bindingConstraints = s.analysis.bindingConstraints
  conflicts : t.conflicts = s.conflicts

namespace LinearProgram

variable {p : LinearProgram ℚ} {eps : ℚ}

/-- The program with the opposite objective. -/
def opposite (p : LinearProgram ℚ) : LinearProgram ℚ :=
  { p with objective := p.objective.opposite }

/-- The opposite program is as sound. -/
theorem defect?_opposite (hp : p.defect? = none) : p.opposite.defect? = none :=
  defect?_eq_none_iff.mpr (defect?_eq_none_iff.mp hp)

/-- Everything that is said of an optimum is the same for the opposite program: only its value is
negated. -/
theorem analyze_opposite (vs : List (Point ℚ)) (top : Optimum ℚ) :
    p.opposite.analyze eps vs top.negate = p.analyze eps vs top := by
  have halternatives : p.opposite.objective.alternatives eps top.negate vs
      = p.objective.alternatives eps top vs := Objective.alternatives_opposite vs
  rw [analyze, halternatives]
  rfl

/-- Neither the corners nor the conflicts are looked at again. -/
theorem solution_opposite (sweep : Sweep ℚ) (eps : ℚ) (p : LinearProgram ℚ) :
    (p.solution sweep eps).Opposite (p.opposite.solution sweep eps) := by
  have hconstraints : p.opposite.constraints = p.constraints := rfl
  have hbest : p.opposite.objective.best? (corners sweep p.constraints eps)
      = (p.objective.best? (corners sweep p.constraints eps)).map Optimum.negate :=
    Objective.best?_opposite _
  -- the corners are the same, so it is enough to compare the scans of one list
  unfold solution
  rw [hconstraints]
  cases htop : p.objective.best? (corners sweep p.constraints eps) with
  | none =>
    rw [htop] at hbest
    simp only [hbest, htop, Option.map_none]
    exact ⟨rfl, rfl, rfl, rfl, rfl, rfl, rfl⟩
  | some top =>
    rw [htop] at hbest
    simp only [hbest, htop, Option.map_some, analyze_opposite]
    exact ⟨rfl, rfl, rfl, rfl, rfl, rfl, rfl⟩

/-- **Maximizing is minimizing the negated objective.** A program in order and its opposite have
an outcome at every positive tolerance, and the outcomes differ only in the sign of the value of
the optimum. -/
theorem solve_opposite (sweep : Sweep ℚ) {eps : ℚ} (heps : 0 < eps) {p : LinearProgram ℚ}
    (hp : p.validate = .ok ()) :
    ∃ s t, p.solve sweep eps = .ok s ∧ p.opposite.solve sweep eps = .ok t ∧ s.Opposite t := by
  have hdefect := validate_eq_ok_iff.mp hp
  exact ⟨_, _, solve_eq_ok heps hdefect, solve_eq_ok heps (defect?_opposite hdefect),
    solution_opposite sweep eps p⟩

/-- Two corners are equally good, so that the optimum is settled by their order. -/
def ridge : LinearProgram ℚ where
  vars := .standard
  objective := ⟨1, 1, .maximize⟩
  constraints := [⟨"sum", 1, 1, .le, 4⟩, ⟨"first", 1, 0, .le, 3⟩]

/-- Both programs report the same one of the two corners, with the other as an alternative. -/
theorem solve_opposite_ridge : (0 : ℚ) < 1 / 1000 ∧ ridge.validate = .ok () ∧
    ridge.opposite.objective = ⟨-1, -1, .minimize⟩ ∧
    ∃ s t, ridge.solve .diamond (1 / 1000) = .ok s ∧
      ridge.opposite.solve .diamond (1 / 1000) = .ok t ∧
      s.optimum? = some ⟨⟨3, 1⟩, 4⟩ ∧ t.optimum? = some ⟨⟨3, 1⟩, -4⟩ ∧
      s.analysis.alternatives = [⟨0, 4⟩] ∧ t.analysis.alternatives = [⟨0, 4⟩] ∧
      s.Opposite t := by
  have heps : (0 : ℚ) < 1 / 1000 := by norm_num
  have hval : ridge.validate = .ok () := by rfl
  have hopposite : ridge.opposite.validate = .ok () := by rfl
  obtain ⟨s, t, hs, ht, hst⟩ := solve_opposite .diamond heps hval
  obtain rfl := solution_eq_of_solve heps hval hs
  obtain rfl := solution_eq_of_solve heps hopposite ht
  exact ⟨heps, hval, by rfl, _, _, hs, ht, by cbv, by cbv, by cbv, by cbv, hst⟩

end LinearProgram

end CornerPoint

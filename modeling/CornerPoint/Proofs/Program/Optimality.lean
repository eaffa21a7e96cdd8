import Mathlib
import CornerPoint.Proofs.Program.Solve

/-!
# Optimality and infeasibility

The listed corners stand for the whole region. This file says how far that goes for the two
verdicts, both measured against the region without any tolerance:

> `solve_optimal`: the verdict is optimal whenever the region is not empty, and the optimum
> is, up to what a near duplicate may lose, at least as good as every point of the region.
> `infeasible_sound_iff`: the verdict infeasible is right, unless two rows whose determinant
> is not zero but below the tolerance cross inside the region.

Both need every corner of the region among the candidates, and the first assumes it: no two
rows may cross at a determinant below the tolerance. The second says that this is all that
can go wrong, and `feasible_of_infeasible` that it does go wrong: two rows with small
coefficients count as parallel, and their crossing was the only feasible point.
-/

namespace CornerPoint

/-- The objective has a bound on the points of `s` on the side it is driven to. -/
def Objective.BoundedOn (o : Objective ℚ) (s : Set (Point ℚ)) : Prop :=
  ∃ M, ∀ q ∈ s, o.sense.merit (o.valueAt q) ≤ M

/-- No two rows cross at a determinant that the tolerance takes for zero. -/
def Separated (eps : ℚ) (cs : List (Constraint ℚ)) : Prop :=
  cs.Pairwise fun c d => c.det d = 0 ∨ eps ≤ |c.det d|

section Verdicts

variable {cs : List (Constraint ℚ)} {eps : ℚ} {v : Point ℚ}

/-- Every corner of a region with separated rows is generated. -/
theorem Separated.mem_candidates (hsep : Separated eps cs) (heps : 0 < eps)
    (hv : IsCorner cs v) : v ∈ candidates cs eps := by
  rcases hv.mem_candidates heps with h | ⟨c, d, hcd, hdet, hsmall, _⟩
  · exact h
  · rcases List.pairwise_iff_forall_sublist.mp hsep (mem_pairs_iff.mp hcd) with h | h
    · exact absurd h hdet
    · exact absurd hsmall (not_lt.mpr h)

/-- A generated corner of the region is listed, up to a near duplicate. -/
theorem IsCorner.exists_near_mem_corners (hv : IsCorner cs v) (sweep : Sweep ℚ) (heps : 0 < eps)
    (hgen : v ∈ candidates cs eps) : ∃ u ∈ corners sweep cs eps, u.near v eps = true :=
  CornerPoint.exists_near_mem_corners sweep heps hgen (feasible_of_mem_region heps hv.1)

end Verdicts

namespace LinearProgram

variable {p : LinearProgram ℚ} {sweep : Sweep ℚ} {eps : ℚ}

/-- The earliest best listed corner is at least as good as every point of the region, up to
what a near duplicate may lose. -/
theorem merit_le_of_firstBest (heps : 0 < eps) (hsep : Separated eps p.constraints)
    (hbound : p.objective.BoundedOn (region p.constraints)) {top : Optimum ℚ}
    (hfirst : p.objective.FirstBest (corners sweep p.constraints eps) top) {q : Point ℚ}
    (hq : q ∈ region p.constraints) :
    p.objective.sense.merit (p.objective.valueAt q)
      ≤ p.objective.sense.merit top.value + (|p.objective.a| + |p.objective.b|) * eps := by
  obtain ⟨M, hM⟩ := hbound
  -- the bound is one on a linear form, whichever way the objective points
  have hM' : ∀ r ∈ region p.constraints, p.objective.gradient.dot r ≤ M := fun r hr => by
    rw [← Objective.merit_valueAt]
    exact hM r hr
  obtain ⟨v, hv, hqv⟩ := exists_corner_ge hM' hq
  obtain ⟨u, hu, hnear⟩ :=
    hv.exists_near_mem_corners sweep heps (hsep.mem_candidates heps hv)
  calc p.objective.sense.merit (p.objective.valueAt q)
      ≤ p.objective.sense.merit (p.objective.valueAt v) := by
        rw [Objective.merit_valueAt, Objective.merit_valueAt]
        exact hqv
    _ ≤ p.objective.sense.merit (p.objective.valueAt u)
          + (|p.objective.a| + |p.objective.b|) * eps := Objective.merit_le_of_near hnear
    _ ≤ p.objective.sense.merit top.value + (|p.objective.a| + |p.objective.b|) * eps :=
        add_le_add_left (Objective.not_improves_iff.mp (hfirst.not_improves hu)) _

/-- **The graphical method is optimal.** If the rows are separated and the region is not
empty, the verdict is optimal; and if the objective is bounded on the region, no point of the
region is better than the optimum by more than the coefficients times the tolerance. -/
theorem solve_optimal (sweep : Sweep ℚ) (heps : 0 < eps)
    (hrows : ∀ c ∈ p.constraints, c.isDegenerate = false) (hsep : Separated eps p.constraints)
    (hne : (region p.constraints).Nonempty) :
    ∃ s top, p.solve sweep eps = .ok s ∧ s.isOptimal = true ∧ s.optimum? = some top ∧
      (p.objective.BoundedOn (region p.constraints) → ∀ q ∈ region p.constraints,
        p.objective.sense.merit (p.objective.valueAt q)
          ≤ p.objective.sense.merit top.value
            + (|p.objective.a| + |p.objective.b|) * eps) := by
  obtain ⟨q, hq⟩ := hne
  obtain ⟨v, hv⟩ := exists_corner hq
  obtain ⟨u, hu, _⟩ := hv.exists_near_mem_corners sweep heps (hsep.mem_candidates heps hv)
  obtain ⟨top, hfirst, hopt, htop⟩ := solution_of_mem_corners hu
  exact ⟨p.solution sweep eps, top, solve_eq_ok heps (defect?_eq_none_iff.mpr hrows), hopt,
    htop, fun hbound q hq => merit_le_of_firstBest heps hsep hbound hfirst hq⟩

theorem blend_separated : Separated (1 / 1000) blend.constraints := by
  refine List.pairwise_pair.mpr (Or.inr ?_)
  rw [Constraint.det_rat]
  norm_num

theorem blend_bounded : blend.objective.BoundedOn (region blend.constraints) := by
  refine ⟨0, fun q hq => ?_⟩
  show -(2 * q.x + 3 * q.y) ≤ 0
  linarith [hq.1.1, hq.1.2]

/-- The region has no end, and the objective is bounded on it all the same. -/
theorem solve_optimal_blend : (0 : ℚ) < 1 / 1000 ∧
    (∀ c ∈ blend.constraints, c.isDegenerate = false) ∧ Separated (1 / 1000) blend.constraints ∧
    (⟨3, 1⟩ : Point ℚ) ∈ region blend.constraints ∧
    ∃ s top, blend.solve .diamond (1 / 1000) = .ok s ∧ s.optimum? = some top ∧
      ∀ q ∈ region blend.constraints,
        -blend.objective.valueAt q ≤ -top.value + (|2| + |3|) * (1 / 1000) := by
  have hrows : ∀ c ∈ blend.constraints, c.isDegenerate = false := by decide +kernel
  have hmem : (⟨3, 1⟩ : Point ℚ) ∈ region blend.constraints := by decide +kernel
  obtain ⟨s, top, hs, _, htop, hbest⟩ :=
    solve_optimal .diamond (by norm_num) hrows blend_separated ⟨_, hmem⟩
  exact ⟨by norm_num, hrows, blend_separated, hmem, s, top, hs, htop, hbest blend_bounded⟩

/-! ## Infeasibility -/

/-- Below the verdict infeasible no corner of the region has been generated. -/
theorem not_mem_candidates_of_infeasible (heps : 0 < eps)
    (hinf : (p.solution sweep eps).isOptimal = false) {v : Point ℚ}
    (hv : IsCorner p.constraints v) : v ∉ candidates p.constraints eps := by
  intro hgen
  obtain ⟨u, hu, _⟩ := hv.exists_near_mem_corners sweep heps hgen
  rw [corners_eq_nil_of_infeasible hinf] at hu
  exact List.not_mem_nil hu

/-- **When the verdict infeasible is right.** It is right exactly when no two rows whose
determinant is not zero but below the tolerance cross inside the region. -/
theorem infeasible_sound_iff (sweep : Sweep ℚ) (heps : 0 < eps) (hp : p.validate = .ok ())
    {s : Solution ℚ} (hs : p.solve sweep eps = .ok s) (hinf : s.isOptimal = false) :
    region p.constraints = ∅ ↔ ∀ c d, (c, d) ∈ pairs p.constraints → c.det d ≠ 0 →
      |c.det d| < eps → ∀ q, c.Tight q → d.Tight q → q ∉ region p.constraints := by
  obtain rfl := solution_eq_of_solve heps hp hs
  constructor
  · intro hempty c d _ _ _ q _ _
    rw [hempty]
    exact Set.notMem_empty q
  · intro hcross
    by_contra hne
    obtain ⟨q, hq⟩ := Set.nonempty_iff_ne_empty.mpr hne
    obtain ⟨v, hv⟩ := exists_corner hq
    -- a corner of the region is either generated or such a crossing
    rcases hv.mem_candidates heps with hgen | ⟨c, d, hcd, hdet, hsmall, hc, hd⟩
    · exact not_mem_candidates_of_infeasible heps hinf hv hgen
    · exact hcross c d hcd hdet hsmall v hc hd hv.1

/-- Two rows that cross at (32, 32). Their coefficients are so small that the determinant is
1/2048, which the tolerance of one thousandth takes for zero. -/
def faint : LinearProgram ℚ where
  vars := .standard
  objective := ⟨1, 1, .maximize⟩
  constraints := [⟨"sum", 1 / 64, 1 / 64, .eq, 1⟩, ⟨"diff", 1 / 64, -1 / 64, .eq, 0⟩]

theorem faint_defect? : faint.defect? = none := by decide +kernel

/-- The faint rows cross too flatly for the tolerance, so no corner is found. -/
theorem faint_isOptimal : (faint.solution .diamond (1 / 1000)).isOptimal = false := by
  decide +kernel

/-- **A verdict infeasible can be wrong.** The region of `faint` is not empty. -/
theorem feasible_of_infeasible : faint.validate = .ok () ∧
    (∃ s, faint.solve .diamond (1 / 1000) = .ok s ∧ s.isOptimal = false) ∧
    (⟨32, 32⟩ : Point ℚ) ∈ region faint.constraints :=
  ⟨validate_eq_ok_iff.mpr faint_defect?,
    ⟨_, solve_eq_ok (by norm_num) faint_defect?, faint_isOptimal⟩, by decide +kernel⟩

/-- The faint program is infeasible by its outcome only: its rows cross inside the region. -/
theorem infeasible_sound_iff_faint : (0 : ℚ) < 1 / 1000 ∧ faint.validate = .ok () ∧
    ∃ s, faint.solve .diamond (1 / 1000) = .ok s ∧ s.isOptimal = false ∧
      (region faint.constraints = ∅ ↔
        ∀ c d, (c, d) ∈ pairs faint.constraints → c.det d ≠ 0 → |c.det d| < 1 / 1000 →
          ∀ q, c.Tight q → d.Tight q → q ∉ region faint.constraints) := by
  have hval : faint.validate = .ok () := validate_eq_ok_iff.mpr faint_defect?
  have hs : faint.solve .diamond (1 / 1000) = .ok (faint.solution .diamond (1 / 1000)) :=
    solve_eq_ok (by norm_num) faint_defect?
  exact ⟨by norm_num, hval, _, hs, faint_isOptimal,
    infeasible_sound_iff .diamond (by norm_num) hval hs faint_isOptimal⟩

end LinearProgram

end CornerPoint

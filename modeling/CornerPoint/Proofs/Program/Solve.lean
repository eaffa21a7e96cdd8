import Mathlib
import CornerPoint.Program.Solution
import CornerPoint.Proofs.Plane.Region
import CornerPoint.Proofs.Program.Best

/-!
# Outcomes

Exact numbers are all finite, so a program is in order as soon as every row has a variable,
and a program in order has an outcome at every positive tolerance. Which outcome it is depends
on the listed corners alone (`solution_cases`).

> `solve_consistent`: corners are feasible and apart, the parts of an outcome fit together,
> and the optimum is the earliest best corner.
-/

namespace CornerPoint

/-! ## Defects -/

section Defects

variable {K : Type} [Scalar K]

namespace Constraint

/-- All numbers of the row are finite, and some variable occurs in it. -/
def Sound (c : Constraint K) : Prop := c.isFinite = true ∧ c.isDegenerate = false

/-- What is wrong with a row of the given index that is not sound. -/
def defectAt (index : Nat) (c : Constraint K) : Defect :=
  if c.isFinite then .degenerate index c.name else .nonFinite (.constraint c.name)

theorem firstDefect?_of_sound {c : Constraint K} (h : c.Sound) (cs : List (Constraint K))
    (index : Nat) : firstDefect? index (c :: cs) = firstDefect? (index + 1) cs := by
  rw [firstDefect?, h.1, h.2]
  rfl

/-- A row that is not sound has a defect of its own. -/
theorem firstDefect?_of_not_sound {c : Constraint K} (h : ¬c.Sound) (cs : List (Constraint K))
    (index : Nat) : firstDefect? index (c :: cs) = some (c.defectAt index) := by
  rw [firstDefect?, defectAt]
  cases hfin : c.isFinite with
  | false => rfl
  | true =>
    have hdeg : c.isDegenerate = true := by
      by_contra hdeg
      exact h ⟨hfin, Bool.eq_false_iff.mpr hdeg⟩
    rw [hdeg]
    rfl

/-- No defect is found exactly when all rows are sound. -/
theorem firstDefect?_eq_none_iff :
    ∀ (cs : List (Constraint K)) (index : Nat),
      firstDefect? index cs = none ↔ ∀ c ∈ cs, c.Sound
  | [], _ => ⟨fun _ _ hc => absurd hc List.not_mem_nil, fun _ => rfl⟩
  | c :: cs, index => by
    rw [List.forall_mem_cons]
    by_cases hsound : c.Sound
    · rw [firstDefect?_of_sound hsound, firstDefect?_eq_none_iff cs (index + 1)]
      exact ⟨fun h => ⟨hsound, h⟩, fun h => h.2⟩
    · rw [firstDefect?_of_not_sound hsound]
      exact ⟨fun h => absurd h (by simp), fun h => absurd h.1 hsound⟩

/-- The defect that is found is that of the earliest row that is not sound. -/
theorem firstDefect?_of_first :
    ∀ (cs : List (Constraint K)) (index i : Nat) {c : Constraint K}, cs[i]? = some c → ¬c.Sound →
      (∀ j < i, ∀ d, cs[j]? = some d → d.Sound) →
      firstDefect? index cs = some (c.defectAt (index + i))
  | [], _, _, _, hc, _, _ => absurd hc (by simp)
  | d :: cs, index, 0, c, hc, hbad, _ => by
    obtain rfl : d = c := Option.some.inj hc
    exact firstDefect?_of_not_sound hbad cs index
  | d :: cs, index, i + 1, c, hc, hbad, hfirst => by
    have hd : d.Sound := hfirst 0 (Nat.succ_pos i) d rfl
    have hrest : ∀ j < i, ∀ d, cs[j]? = some d → d.Sound := fun j hj =>
      hfirst (j + 1) (Nat.succ_lt_succ hj)
    rw [firstDefect?_of_sound hd, firstDefect?_of_first cs (index + 1) i hc hbad hrest,
      Nat.add_right_comm, Nat.add_assoc]

end Constraint

namespace LinearProgram

/-- Sound programs are those in which no defect is found. -/
theorem validate_eq_ok_iff {p : LinearProgram K} : p.validate = .ok () ↔ p.defect? = none := by
  unfold validate
  cases p.defect? with
  | none => simp
  | some defect => simp

/-- A program in order has an outcome at every positive finite tolerance. -/
theorem solve_of_isFinite {p : LinearProgram K} {eps : K} (sweep : Sweep K)
    (hfin : Scalar.isFinite eps = true) (heps : 0 < eps) (hp : p.defect? = none) :
    p.solve sweep eps = .ok (p.solution sweep eps) := by
  unfold solve
  rw [hfin, decide_eq_true heps, hp]
  rfl

end LinearProgram

end Defects

namespace Constraint

theorem isFinite_rat (c : Constraint ℚ) : c.isFinite = true := rfl

theorem sound_rat_iff {c : Constraint ℚ} : c.Sound ↔ c.isDegenerate = false :=
  and_iff_right c.isFinite_rat

end Constraint

namespace LinearProgram

variable {p : LinearProgram ℚ} {sweep : Sweep ℚ} {eps : ℚ}

/-- A program over exact numbers is in order when every row has a variable. -/
theorem defect?_eq_none_iff :
    p.defect? = none ↔ ∀ c ∈ p.constraints, c.isDegenerate = false := by
  simp only [← Constraint.sound_rat_iff]
  exact Constraint.firstDefect?_eq_none_iff p.constraints 0

/-- A program in order has an outcome at every positive tolerance. -/
theorem solve_eq_ok (heps : 0 < eps) (hp : p.defect? = none) :
    p.solve sweep eps = .ok (p.solution sweep eps) :=
  solve_of_isFinite sweep rfl heps hp

/-- It has no other outcome. -/
theorem solution_eq_of_solve (heps : 0 < eps) (hp : p.validate = .ok ()) {s : Solution ℚ}
    (hs : p.solve sweep eps = .ok s) : p.solution sweep eps = s :=
  Except.ok.inj ((solve_eq_ok heps (validate_eq_ok_iff.mp hp)).symm.trans hs)

/-! ## Outcomes -/

/-- The outcome is decided by the listed corners. -/
theorem solution_cases (sweep : Sweep ℚ) (eps : ℚ) (p : LinearProgram ℚ) :
    (corners sweep p.constraints eps = []
      ∧ p.solution sweep eps = .infeasible (p.conflicts eps))
    ∨ ∃ top, p.objective.FirstBest (corners sweep p.constraints eps) top
      ∧ p.solution sweep eps = .optimal top (corners sweep p.constraints eps)
          (p.analyze eps (corners sweep p.constraints eps) top) := by
  unfold solution
  cases hbest : p.objective.best? (corners sweep p.constraints eps) with
  | none => exact Or.inl ⟨Objective.best?_eq_none_iff.mp hbest, by simp only [hbest]⟩
  | some top => exact Or.inr ⟨top, Objective.firstBest_of_best? hbest, by simp only [hbest]⟩

/-- A program is called infeasible only when no corner is listed. -/
theorem corners_eq_nil_of_infeasible (h : (p.solution sweep eps).isOptimal = false) :
    corners sweep p.constraints eps = [] := by
  rcases solution_cases sweep eps p with ⟨hnil, _⟩ | ⟨top, _, heq⟩
  · exact hnil
  · rw [heq] at h
    exact absurd h (by simp [Solution.isOptimal])

/-- A listed corner makes the outcome optimal, and the optimum is the earliest best one. -/
theorem solution_of_mem_corners {v : Point ℚ} (hv : v ∈ corners sweep p.constraints eps) :
    ∃ top, p.objective.FirstBest (corners sweep p.constraints eps) top
      ∧ (p.solution sweep eps).isOptimal = true
      ∧ (p.solution sweep eps).optimum? = some top := by
  rcases solution_cases sweep eps p with ⟨hnil, _⟩ | ⟨top, hfirst, heq⟩
  · rw [hnil] at hv
    exact absurd hv List.not_mem_nil
  · exact ⟨top, hfirst, by rw [heq]; rfl, by rw [heq]; rfl⟩

end LinearProgram

/-! ## How the parts of an outcome fit together -/

/-- What can be relied on in every outcome of a program at a tolerance. -/
structure Solution.Consistent (p : LinearProgram ℚ) (eps : ℚ) (s : Solution ℚ) : Prop where
  inQuadrant : ∀ v ∈ s.corners, 0 ≤ v.x ∧ 0 ≤ v.y
  feasible : ∀ v ∈ s.corners, feasible p.constraints eps v = true
  apart : s.corners.Pairwise fun u v => u.near v eps = false ∧ v.near u eps = false
  isOptimal_iff_corners : s.isOptimal = true ↔ s.corners ≠ []
  isOptimal_iff_optimum : s.isOptimal = true ↔ ∃ top, s.optimum? = some top
  conflicts_eq : s.isOptimal = true → s.conflicts = []
  analysis_eq : s.isOptimal = false → s.analysis = ⟨[], []⟩
  optimum : ∀ top, s.optimum? = some top →
    top.point ∈ s.corners ∧ top.value = p.objective.valueAt top.point
    ∧ (∀ v ∈ s.corners, p.objective.improves (p.objective.valueAt v) top.value = false)
    ∧ ∃ before after, s.corners = before ++ top.point :: after
      ∧ ∀ v ∈ before, p.objective.improves top.value (p.objective.valueAt v) = true

namespace LinearProgram

/-- No two corners are near each other, whichever of them is asked. -/
theorem corners_apart (sweep : Sweep ℚ) (cs : List (Constraint ℚ)) (eps : ℚ) :
    (corners sweep cs eps).Pairwise fun u v => u.near v eps = false ∧ v.near u eps = false :=
  (corners_pairwise sweep cs eps).imp fun h => ⟨h, Point.near_comm.trans h⟩

/-- Corners are feasible candidates that have been kept apart, and the optimum is the first best of
them. -/
theorem solution_consistent (sweep : Sweep ℚ) (eps : ℚ) (heps : 0 < eps) (p : LinearProgram ℚ) :
    (p.solution sweep eps).Consistent p eps := by
  rcases solution_cases sweep eps p with ⟨_, heq⟩ | ⟨top, hfirst, heq⟩
  · rw [heq]
    exact {
      inQuadrant := fun v hv => absurd hv List.not_mem_nil
      feasible := fun v hv => absurd hv List.not_mem_nil
      apart := List.Pairwise.nil
      isOptimal_iff_corners := by simp [Solution.isOptimal, Solution.corners]
      isOptimal_iff_optimum := by simp [Solution.isOptimal, Solution.optimum?]
      conflicts_eq := fun h => absurd h (by simp [Solution.isOptimal])
      analysis_eq := fun _ => rfl
      optimum := fun top h => absurd h (by simp [Solution.optimum?]) }
  · have hmem : ∀ v ∈ corners sweep p.constraints eps, v ∈ candidates p.constraints eps
        ∧ CornerPoint.feasible p.constraints eps v = true :=
      fun v hv => mem_feasibleCandidates_of_mem_corners hv
    rw [heq]
    exact {
      inQuadrant := fun v hv =>
        Point.inQuadrant_iff.mp ((mem_candidates_iff heps).mp (hmem v hv).1).1
      feasible := fun v hv => (hmem v hv).2
      apart := corners_apart sweep p.constraints eps
      isOptimal_iff_corners :=
        ⟨fun _ => List.ne_nil_of_mem hfirst.mem, fun _ => rfl⟩
      isOptimal_iff_optimum := ⟨fun _ => ⟨top, rfl⟩, fun _ => rfl⟩
      conflicts_eq := fun _ => rfl
      analysis_eq := fun h => absurd h (by simp [Solution.isOptimal])
      optimum := fun top' h => by
        obtain rfl : top = top' := Option.some.inj h
        obtain ⟨before, after, hsplit, hbefore, _⟩ := hfirst.split
        exact ⟨hfirst.mem, hfirst.value_eq, fun v hv => hfirst.not_improves hv,
          before, after, hsplit, hbefore⟩ }

/-- **Every outcome is consistent.** A program in order has one at every positive tolerance,
whatever sweep orders the corners. -/
theorem solve_consistent (sweep : Sweep ℚ) {eps : ℚ} (heps : 0 < eps) {p : LinearProgram ℚ}
    (hp : p.validate = .ok ()) : ∃ s, p.solve sweep eps = .ok s ∧ s.Consistent p eps :=
  ⟨p.solution sweep eps, solve_eq_ok heps (validate_eq_ok_iff.mp hp),
    solution_consistent sweep eps heps p⟩

/-- At least four units in total, at most three of them of the first kind. The region has no
end in the direction of the second kind. -/
def blend : LinearProgram ℚ where
  vars := .standard
  objective := ⟨2, 3, .minimize⟩
  constraints := [⟨"total", 1, 1, .ge, 4⟩, ⟨"first", 1, 0, .le, 3⟩]

theorem solve_consistent_blend : (0 : ℚ) < 1 / 1000 ∧ blend.validate = .ok () ∧
    ∃ s, blend.solve .diamond (1 / 1000) = .ok s ∧ s.Consistent blend (1 / 1000) :=
  ⟨by norm_num, rfl, solve_consistent .diamond (by norm_num) rfl⟩

end LinearProgram

end CornerPoint

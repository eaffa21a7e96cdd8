import Mathlib
import CornerPoint.Proofs.Program.Solve

/-!
# The analysis of an optimum

An optimum comes with a report: how far it is from the bound of each row, which rows are binding,
and which other corners are as good. This file says what can be read off the report.

> `Constraint.slackAt_describes`: at a point that passes the test of a row, the slack of the row
> is not below zero by more than the tolerance, and an equation is always binding.
> `Objective.alternatives_eq`: among points that are apart, the search for other optima passes
> over the optimum itself and over no other point.
> `solve_explained`: both hold in every optimal outcome.

The search leaves out all points near the optimum. That it leaves out a single one is due to the
corners, of which no two are near each other, and the bounds on slacks are due to the optimum
being a corner.
-/

namespace CornerPoint

/-! ## Slacks -/

/-- What the slack of a row says about the row at the point `q`. -/
structure Slack.Describes (x : Slack ℚ) (eps : ℚ) (q : Point ℚ) (c : Constraint ℚ) : Prop where
  constraint : x.constraint = c.name
  lhs : x.lhs = c.lhsAt q
  slack : match c.relation with
    | .le => x.slack = c.rhs - c.lhsAt q ∧ -eps ≤ x.slack
    | .ge => x.slack = c.lhsAt q - c.rhs ∧ -eps ≤ x.slack
    | .eq => x.slack = |c.lhsAt q - c.rhs| ∧ 0 ≤ x.slack ∧ x.slack < eps
  binding_iff : x.binding = true ↔ |x.slack| < eps
  binding_of_eq : c.relation = .eq → x.binding = true

namespace Constraint

variable {c : Constraint ℚ} {eps : ℚ} {q : Point ℚ}

/-- Slacks of all relations are distances from the line, up to the sign. -/
theorem abs_slackAt : |(c.slackAt eps q).slack| = |c.lhsAt q - c.rhs| := by
  cases hrel : c.relation with
  | le => simp only [slackAt, hrel, abs_sub_comm]
  | ge => simp only [slackAt, hrel]
  | eq => simp only [slackAt, hrel, Scalar.abs_rat, abs_abs]

theorem slackAt_binding_iff :
    (c.slackAt eps q).binding = true ↔ |(c.slackAt eps q).slack| < eps := by
  rw [abs_slackAt, ← Scalar.abs_rat]
  exact decide_eq_true_iff

/-- **Slacks at points that pass the test.** The test allows a row to be missed by the tolerance,
which is included for an inequality and excluded for an equation. -/
theorem slackAt_describes (h : c.holds eps q = true) : (c.slackAt eps q).Describes eps q c where
  constraint := rfl
  lhs := rfl
  slack := by
    rw [holds_iff] at h
    cases hrel : c.relation with
    | le =>
      simp only [hrel] at h
      simp only [slackAt, hrel, true_and]
      linarith
    | ge =>
      simp only [hrel] at h
      simp only [slackAt, hrel, true_and]
      linarith
    | eq =>
      simp only [hrel] at h
      simp only [slackAt, hrel, Scalar.abs_rat, true_and]
      exact ⟨abs_nonneg _, h⟩
  binding_iff := slackAt_binding_iff
  -- the test of an equation is the test for a binding row
  binding_of_eq hrel := by
    rw [holds_iff, hrel] at h
    rw [slackAt_binding_iff, abs_slackAt]
    exact h

end Constraint

/-! ## Other optima -/

/-- **No other point is passed over.** Among points that are apart only the optimum is near the
optimum. -/
theorem Objective.alternatives_eq {o : Objective ℚ} {eps : ℚ} (heps : 0 < eps) {top : Optimum ℚ}
    {before after : List (Point ℚ)}
    (hapart : (before ++ top.point :: after).Pairwise fun u v => u.near v eps = false) :
    o.alternatives eps top (before ++ top.point :: after)
      = (before ++ after).filter fun v => |o.valueAt v - top.value| < eps := by
  obtain ⟨_, hafter, hacross⟩ := List.pairwise_append.mp hapart
  have hfar : ∀ v ∈ before ++ after, v.near top.point eps = false := by
    intro v hv
    rcases List.mem_append.mp hv with hv | hv
    · exact hacross v hv top.point (List.mem_cons_self ..)
    · exact Point.near_comm.trans ((List.pairwise_cons.mp hafter).1 v hv)
  have hself : top.point.near top.point eps = true := Point.near_self heps
  unfold alternatives
  rw [List.filter_append, List.filter_cons_of_neg (by simp [hself]), ← List.filter_append]
  refine List.filter_congr fun v hv => ?_
  rw [hfar v hv, Scalar.abs_rat]
  rfl

/-! ## The report -/

/-- What can be relied on in the analysis of an optimum among the given corners. -/
structure Analysis.Explains (a : Analysis ℚ) (p : LinearProgram ℚ) (eps : ℚ) (top : Optimum ℚ)
    (corners : List (Point ℚ)) : Prop where
  slacks : List.Forall₂ (fun c x => x.Describes eps top.point c) p.constraints a.slacks
  bindingConstraints : a.bindingConstraints =
    (a.slacks.filter fun x => |x.slack| < eps).map (·.constraint)
  mem : top.point ∈ corners
  alternatives : ∀ before after, corners = before ++ top.point :: after →
    a.alternatives = (before ++ after).filter fun v => |p.objective.valueAt v - top.value| < eps

namespace LinearProgram

/-- What an analysis says of a corner that passes the test, among corners that are apart. -/
theorem analyze_explains {p : LinearProgram ℚ} {eps : ℚ} (heps : 0 < eps) {top : Optimum ℚ}
    {vs : List (Point ℚ)} (hmem : top.point ∈ vs)
    (hfeas : feasible p.constraints eps top.point = true)
    (hapart : vs.Pairwise fun u v => u.near v eps = false) :
    (p.analyze eps vs top).Explains p eps top vs where
  slacks := by
    refine List.forall₂_map_right_iff.mpr (List.forall₂_same.mpr fun c hc => ?_)
    exact Constraint.slackAt_describes (feasible_iff.mp hfeas c hc)
  bindingConstraints := by
    refine congrArg (List.map Slack.constraint) (List.filter_congr fun x hx => ?_)
    obtain ⟨c, _, rfl⟩ := List.mem_map.mp hx
    rw [Bool.eq_iff_iff, decide_eq_true_iff]
    exact Constraint.slackAt_binding_iff
  mem := hmem
  alternatives before after hsplit := by
    rw [hsplit] at hapart
    rw [hsplit]
    exact Objective.alternatives_eq heps hapart

/-- **The analysis fits the outcome.** A program in order has an outcome at every positive
tolerance, and if it is optimal its analysis has a slack for each row, in order, which is bounded
by the tolerance and says whether the row is binding; an equation always is. The binding rows are
named in order, and the other optima are the corners apart from the optimum itself, in order,
whose values are within the tolerance of the best. -/
theorem solve_explained (sweep : Sweep ℚ) {eps : ℚ} (heps : 0 < eps) {p : LinearProgram ℚ}
    (hp : p.validate = .ok ()) : ∃ s, p.solve sweep eps = .ok s ∧
      (s.isOptimal = true →
        ∃ top, s.optimum? = some top ∧ s.analysis.Explains p eps top s.corners) := by
  refine ⟨_, solve_eq_ok heps (validate_eq_ok_iff.mp hp), fun hopt => ?_⟩
  rcases solution_cases sweep eps p with ⟨_, heq⟩ | ⟨top, hfirst, heq⟩
  · rw [heq] at hopt
    exact absurd hopt (by simp [Solution.isOptimal])
  · rw [heq]
    exact ⟨top, rfl, analyze_explains heps hfirst.mem
      (mem_feasibleCandidates_of_mem_corners hfirst.mem).2 (corners_pairwise sweep _ eps)⟩

/-- A fixed total, of which at most three units are of the first kind and at least a half is of the
second. Every point is as good as any other. -/
def plateau : LinearProgram ℚ where
  vars := .standard
  objective := ⟨1, 1, .maximize⟩
  constraints := [⟨"total", 1, 1, .eq, 4⟩, ⟨"first", 1, 0, .le, 3⟩, ⟨"second", 0, 1, .ge, 1 / 2⟩]

/-- Two rows are binding at the optimum, and the corner at the other end is as good. -/
theorem solve_explained_plateau : (0 : ℚ) < 1 / 1000 ∧ plateau.validate = .ok () ∧
    ∃ s top, plateau.solve .diamond (1 / 1000) = .ok s ∧ s.optimum? = some top ∧
      s.corners = [⟨3, 1⟩, ⟨0, 4⟩] ∧ s.analysis.bindingConstraints = ["total", "first"] ∧
      s.analysis.alternatives = [⟨0, 4⟩] ∧
      s.analysis.Explains plateau (1 / 1000) top s.corners := by
  have heps : (0 : ℚ) < 1 / 1000 := by norm_num
  have hval : plateau.validate = .ok () := by rfl
  obtain ⟨s, hs, hexplained⟩ := solve_explained .diamond heps hval
  obtain rfl := solution_eq_of_solve heps hval hs
  obtain ⟨top, htop, hexplains⟩ := hexplained (by cbv)
  exact ⟨heps, hval, _, top, hs, htop, by cbv, by cbv, by cbv, hexplains⟩

end LinearProgram

end CornerPoint

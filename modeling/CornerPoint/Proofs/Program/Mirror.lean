import Mathlib
import CornerPoint.Proofs.Program.Conflict

/-!
# Rows written the other way round

A row says the same when both of its sides are negated and its relation is turned around. Signs
are looked at in many places: in the tests, in the intercepts and crossings, in the slacks, and
in the search for conflicts, where the ratio of two parallel rows may be negative. This file says
of each of them that it gives the same result for a mirrored row, and from this:

> `solve_mirrored`: whichever rows of a program are written the other way round, the outcome is
> the same but for the values of the left-hand sides of these rows and the texts of conflicts.

Two rows are compared through the bounds that they put on the form of the first. When that one is
mirrored the bounds are mirrored (`Bounds.mirror`), the upper one becomes the lower one, and they
exclude each other as before.
-/

namespace CornerPoint

@[simp] theorem Relation.flip_flip (rel : Relation) : rel.flip.flip = rel := by
  cases rel <;> rfl

/-! ## Bounds -/

namespace Bounds

variable {b : Bounds ℚ} {rel : Relation} {r eps : ℚ}

/-- What the bounds say about the negated form. -/
def mirror (b : Bounds ℚ) : Bounds ℚ := ⟨b.upper.map Neg.neg, b.lower.map Neg.neg⟩

/-- Negation turns the tightening of an upper bound into that of a lower one. -/
theorem smaller_neg (l : Option ℚ) : smaller (l.map Neg.neg) (-r) = -greater l r := by
  cases l with
  | none => rfl
  | some m =>
    simp only [Option.map_some, smaller, greater, neg_lt_neg_iff]
    split <;> rfl

/-- And the other way round. -/
theorem greater_neg (u : Option ℚ) : greater (u.map Neg.neg) (-r) = -smaller u r := by
  cases u with
  | none => rfl
  | some m =>
    simp only [Option.map_some, smaller, greater, neg_lt_neg_iff]
    split <;> rfl

theorem mirror_tighten : (b.tighten rel r).mirror = b.mirror.tighten rel.flip (-r) := by
  cases rel <;> simp [tighten, mirror, Relation.flip, smaller_neg, greater_neg]

/-- Bounds that exclude each other still do when they change places. -/
theorem exclude_mirror : b.mirror.exclude eps = b.exclude eps := by
  have hneg : ∀ l u : ℚ, -l + eps < -u ↔ u + eps < l := fun l u => by
    rw [neg_add_lt_iff_lt_add, ← sub_eq_add_neg, lt_sub_iff_add_lt', add_comm]
  cases b with
  | mk lower upper =>
    cases lower with
    | none => cases upper <;> rfl
    | some l =>
      cases upper with
      | none => rfl
      | some u => exact decide_eq_decide.mpr (hneg l u)

end Bounds

/-! ## One row -/

namespace Constraint

variable {c d : Constraint ℚ} {p : Point ℚ} {eps : ℚ}

/-- The constraint with both sides negated. -/
def mirror (c : Constraint ℚ) : Constraint ℚ :=
  { c with a := -c.a, b := -c.b, relation := c.relation.flip, rhs := -c.rhs }

theorem lhsAt_mirror : c.mirror.lhsAt p = -c.lhsAt p := by
  rw [lhsAt_rat, lhsAt_rat]
  show -c.a * p.x + -c.b * p.y = -(c.a * p.x + c.b * p.y)
  ring

theorem abs_mirror_gap : |c.mirror.lhsAt p - c.mirror.rhs| = |c.lhsAt p - c.rhs| := by
  rw [lhsAt_mirror, ← abs_neg (c.lhsAt p - c.rhs), neg_sub']
  rfl

/-- The test of a row does not see how it is written. -/
theorem holds_mirror : c.mirror.holds eps p = c.holds eps p := by
  rw [Bool.eq_iff_iff, holds_iff, holds_iff, abs_mirror_gap, lhsAt_mirror]
  have hle : ∀ l r : ℚ, -r - eps ≤ -l ↔ l ≤ r + eps := fun l r => by
    rw [← neg_add', neg_le_neg_iff]
  have hge : ∀ l r : ℚ, -l ≤ -r + eps ↔ r - eps ≤ l := fun l r => by
    rw [← neg_le_neg_iff, neg_neg, neg_add, neg_neg, ← sub_eq_add_neg]
  cases hrel : c.relation with
  | le => simpa only [mirror, hrel, Relation.flip] using hle (c.lhsAt p) c.rhs
  | ge => simpa only [mirror, hrel, Relation.flip] using hge (c.lhsAt p) c.rhs
  | eq => simp only [mirror, hrel, Relation.flip]

/-- Mirroring a row does not move its line. -/
theorem tight_mirror : c.mirror.Tight p ↔ c.Tight p := by
  rw [Tight, lhsAt_mirror]
  exact neg_inj

theorem isDegenerate_mirror : c.mirror.isDegenerate = c.isDegenerate := by
  rw [Bool.eq_iff_iff, isDegenerate_iff, isDegenerate_iff]
  exact and_congr neg_eq_zero neg_eq_zero

/-- The line of a row is the same however it is written. -/
theorem intercepts_mirror : c.mirror.intercepts = c.intercepts := by
  have hx : c.mirror.xIntercept = c.xIntercept := Option.ext fun p => by
    rw [xIntercept_eq_some_iff, xIntercept_eq_some_iff, tight_mirror]
    exact and_congr_left fun _ => neg_ne_zero
  have hy : c.mirror.yIntercept = c.yIntercept := Option.ext fun p => by
    rw [yIntercept_eq_some_iff, yIntercept_eq_some_iff, tight_mirror]
    exact and_congr_left fun _ => neg_ne_zero
  rw [intercepts, hx, hy, intercepts]

/-- A row that forces its form to one side forces the negated form to the other side. -/
theorem excludesQuadrant_mirror : c.mirror.excludesQuadrant eps = c.excludesQuadrant eps := by
  unfold excludesQuadrant
  cases hrel : c.relation <;>
    simp [mirror, hrel, Relation.flip, lt_neg, Bool.or_comm]

/-- Only the value of the left-hand side shows that the row has been mirrored. -/
theorem slackAt_mirror : c.mirror.slackAt eps p = { c.slackAt eps p with lhs := -c.lhsAt p } := by
  simp only [slackAt, Scalar.abs_rat, abs_mirror_gap, Slack.mk.injEq]
  refine ⟨rfl, lhsAt_mirror, ?_, trivial⟩
  rw [lhsAt_mirror]
  cases hrel : c.relation with
  | le => simp only [mirror, hrel, Relation.flip, sub_neg_eq_add, neg_add_eq_sub]
  | ge => simp only [mirror, hrel, Relation.flip, sub_neg_eq_add, neg_add_eq_sub]
  | eq => simp only [mirror, hrel, Relation.flip]

/-! ## Two rows -/

theorem det_mirror_left : c.mirror.det d = -c.det d := by
  rw [det_rat, det_rat]
  show -c.a * d.b - d.a * -c.b = -(c.a * d.b - d.a * c.b)
  ring

theorem det_mirror_right : c.det d.mirror = -c.det d := by
  rw [det_comm, det_mirror_left, ← det_comm c d]

theorem ratio_mirror_left : c.mirror.ratio d = -c.ratio d := by
  simp only [ratio, mirror, Scalar.abs_rat, abs_neg]
  split
  · exact div_neg d.a
  · exact div_neg d.b

theorem ratio_mirror_right : c.ratio d.mirror = -c.ratio d := by
  simp only [ratio, mirror]
  split
  · exact neg_div c.a d.a
  · exact neg_div c.b d.b

/-- A form that is divided by a number of the other sign has its relation turned around. -/
theorem turned_neg {k : ℚ} (hk : k ≠ 0) (rel : Relation) :
    (if 0 < -k then rel else rel.flip) = (if 0 < k then rel else rel.flip).flip := by
  rcases hk.lt_or_gt with hneg | hpos
  · rw [if_pos (neg_pos.mpr hneg), if_neg hneg.not_gt, Relation.flip_flip]
  · rw [if_neg (neg_neg_of_pos hpos).not_gt, if_pos hpos]

/-- Mirroring the second row turns its relation around twice. -/
theorem jointBounds?_mirror_right : c.jointBounds? eps d.mirror = c.jointBounds? eps d := by
  have hdet : |c.det d.mirror| = |c.det d| := by rw [det_mirror_right, abs_neg]
  by_cases h : eps ≤ |c.det d| ∨ c.ratio d = 0
  · rw [jointBounds?_eq_none h, jointBounds?_eq_none]
    rwa [hdet, ratio_mirror_right, neg_eq_zero]
  · obtain ⟨hlarge, hk⟩ := not_or.mp h
    have hrelation : (if 0 < c.ratio d.mirror then d.mirror.relation else d.mirror.relation.flip)
        = if 0 < c.ratio d then d.relation else d.relation.flip := by
      rw [ratio_mirror_right, turned_neg hk, apply_ite Relation.flip]
      show (if 0 < c.ratio d then d.relation.flip.flip else d.relation.flip.flip.flip) = _
      simp only [Relation.flip_flip]
    have hrhs : d.mirror.rhs / c.ratio d.mirror = d.rhs / c.ratio d := by
      rw [ratio_mirror_right]
      exact neg_div_neg_eq d.rhs _
    rw [jointBounds?_eq_some hlarge hk, jointBounds?_eq_some (by rwa [hdet]), hrelation, hrhs]
    rwa [ratio_mirror_right, neg_ne_zero]

/-- Mirroring the first row mirrors what both rows say about its form. -/
theorem jointBounds?_mirror_left :
    c.mirror.jointBounds? eps d = (c.jointBounds? eps d).map Bounds.mirror := by
  have hdet : |c.mirror.det d| = |c.det d| := by rw [det_mirror_left, abs_neg]
  by_cases h : eps ≤ |c.det d| ∨ c.ratio d = 0
  · rw [jointBounds?_eq_none h, jointBounds?_eq_none]
    · rfl
    · rwa [hdet, ratio_mirror_left, neg_eq_zero]
  · obtain ⟨hlarge, hk⟩ := not_or.mp h
    rw [jointBounds?_eq_some hlarge hk, jointBounds?_eq_some (by rwa [hdet])
      (by rwa [ratio_mirror_left, neg_ne_zero]), ratio_mirror_left, turned_neg hk, div_neg,
      Option.map_some, Bounds.mirror_tighten, Bounds.mirror_tighten]
    rfl

/-- Two rows exclude each other in whichever way the first is written. -/
theorem excludes_mirror_left : c.mirror.excludes eps d = c.excludes eps d := by
  rw [excludes, jointBounds?_mirror_left, Option.any_map, excludes]
  simp only [Bounds.exclude_mirror]

/-- Nor does it matter how the second is written. -/
theorem excludes_mirror_right : c.excludes eps d.mirror = c.excludes eps d := by
  rw [excludes, jointBounds?_mirror_right, excludes]

end Constraint

/-! ## Lists of rows -/

/-- The constraint, written the other way round if it is marked. -/
def Constraint.mirrorIf (c : Constraint ℚ) : Bool → Constraint ℚ
  | false => c
  | true => c.mirror

/-- What does not see whether a constraint is mirrored does not see whether it is marked. -/
theorem Constraint.congr_mirrorIf {β : Type} {f : Constraint ℚ → β} (hf : ∀ c, f c.mirror = f c)
    (c : Constraint ℚ) (s : Bool) : f (c.mirrorIf s) = f c := by
  cases s with
  | false => rfl
  | true => exact hf c

/-- The slack of a row, with the value of the left-hand side negated if the row is marked. -/
def Slack.mirrorIf (x : Slack ℚ) : Bool → Slack ℚ
  | false => x
  | true => { x with lhs := -x.lhs }

section Rows

variable {marked : Nat → Bool} {eps : ℚ} {p : Point ℚ}

/-- The row, given with its index, as it is written when the marked rows are mirrored. -/
def written (marked : Nat → Bool) (row : Constraint ℚ × Nat) : Constraint ℚ :=
  row.1.mirrorIf (marked row.2)

/-- Crossings are points on two lines, and their determinant changes its sign only. -/
theorem crossing_written (heps : 0 < eps) (r s : Constraint ℚ × Nat) :
    (written marked r).crossing eps (written marked s) = r.1.crossing eps s.1 := by
  have hright : ∀ c d : Constraint ℚ, c.crossing eps d.mirror = c.crossing eps d := fun c d =>
    Option.ext fun p => by
      rw [Constraint.crossing_eq_some_iff heps, Constraint.crossing_eq_some_iff heps,
        Constraint.det_mirror_right, abs_neg, Constraint.tight_mirror]
  have hleft : ∀ c d : Constraint ℚ, c.mirror.crossing eps d = c.crossing eps d := fun c d =>
    Option.ext fun p => by
      rw [Constraint.crossing_eq_some_iff heps, Constraint.crossing_eq_some_iff heps,
        Constraint.det_mirror_left, abs_neg, Constraint.tight_mirror]
  rw [written, written, Constraint.congr_mirrorIf (hright _),
    Constraint.congr_mirrorIf (f := (·.crossing eps s.1)) fun c => hleft c s.1]

theorem candidates_written (heps : 0 < eps) (rows : List (Constraint ℚ × Nat)) :
    candidates (rows.map (written marked)) eps = candidates (rows.map Prod.fst) eps := by
  have hdegenerate : ∀ r, (written marked r).isDegenerate = r.1.isDegenerate := fun r =>
    Constraint.congr_mirrorIf (fun _ => Constraint.isDegenerate_mirror) r.1 _
  have hintercepts : ∀ r, (written marked r).intercepts = r.1.intercepts := fun r =>
    Constraint.congr_mirrorIf (fun _ => Constraint.intercepts_mirror) r.1 _
  simp only [candidates, pairs_map, List.filterMap_map, List.filter_map, List.flatMap_map,
    Function.comp_def, hdegenerate, hintercepts, Prod.map, crossing_written heps]

theorem feasible_written (rows : List (Constraint ℚ × Nat)) :
    feasible (rows.map (written marked)) eps = feasible (rows.map Prod.fst) eps := by
  have hholds : ∀ r p, (written marked r).holds eps p = r.1.holds eps p := fun r p =>
    Constraint.congr_mirrorIf (f := (·.holds eps p)) (fun _ => Constraint.holds_mirror) r.1 _
  funext p
  simp only [feasible, List.all_map, Function.comp_def, hholds]

theorem corners_written (sweep : Sweep ℚ) (heps : 0 < eps) (rows : List (Constraint ℚ × Nat)) :
    corners sweep (rows.map (written marked)) eps = corners sweep (rows.map Prod.fst) eps := by
  simp only [corners, feasibleCandidates, candidates_written heps, feasible_written]

theorem name_written (r : Constraint ℚ × Nat) : (written marked r).name = r.1.name :=
  Constraint.congr_mirrorIf (fun _ => rfl) r.1 _

end Rows

namespace LinearProgram

variable {p : LinearProgram ℚ} {marked : Nat → Bool} {eps : ℚ}

/-- The program with the marked rows written the other way round. -/
def mirrorWhere (p : LinearProgram ℚ) (marked : Nat → Bool) : LinearProgram ℚ :=
  { p with constraints := p.constraints.mapIdx fun i c => c.mirrorIf (marked i) }

/-- The rows of both programs, side by side. -/
theorem exists_rows (p : LinearProgram ℚ) (marked : Nat → Bool) :
    ∃ rows : List (Constraint ℚ × Nat), p.constraints = rows.map Prod.fst ∧
      (p.mirrorWhere marked).constraints = rows.map (written marked) :=
  ⟨p.constraints.zipIdx, (List.zipIdx_map_fst ..).symm, List.mapIdx_eq_zipIdx_map⟩

/-- The same rows and pairs of rows are found to be in conflict. -/
theorem names_conflicts_mirrorWhere :
    ((p.mirrorWhere marked).conflicts eps).map (·.names) = (p.conflicts eps).map (·.names) := by
  have houtside : ∀ r, (written marked r).excludesQuadrant eps = r.1.excludesQuadrant eps :=
    fun r => Constraint.congr_mirrorIf (f := (·.excludesQuadrant eps))
      (fun _ => Constraint.excludesQuadrant_mirror) r.1 _
  have hapart : ∀ r s, (written marked r).excludes eps (written marked s)
      = r.1.excludes eps s.1 := fun r s => by
    rw [written, written, Constraint.congr_mirrorIf fun _ => Constraint.excludes_mirror_right,
      Constraint.congr_mirrorIf (f := (·.excludes eps s.1)) fun _ =>
        Constraint.excludes_mirror_left]
  -- side by side, the two lists of rows are filtered by the same tests
  obtain ⟨rows, hp, hq⟩ := exists_rows p marked
  rw [conflicts, conflicts, hp, hq]
  simp only [List.map_append, pairs_map, List.filter_map, List.map_map, Function.comp_def,
    houtside, hapart, Prod.map, Conflict.names, Conflict.constraints, List.map_cons,
    List.map_nil, name_written]

/-- The corners of a program do not depend on which of its rows are mirrored. -/
theorem corners_mirrorWhere (sweep : Sweep ℚ) (heps : 0 < eps) :
    corners sweep (p.mirrorWhere marked).constraints eps = corners sweep p.constraints eps := by
  obtain ⟨rows, hp, hq⟩ := exists_rows p marked
  rw [hp, hq, corners_written sweep heps]

theorem defect?_mirrorWhere (hp : p.defect? = none) : (p.mirrorWhere marked).defect? = none := by
  obtain ⟨rows, hrows, hrows'⟩ := exists_rows p marked
  rw [defect?_eq_none_iff, hrows, List.forall_mem_map] at hp
  rw [defect?_eq_none_iff, hrows', List.forall_mem_map]
  exact fun r hr =>
    (Constraint.congr_mirrorIf (fun _ => Constraint.isDegenerate_mirror) r.1 _).trans (hp r hr)

/-- The slack of each row is the same up to the value of its left-hand side. -/
theorem slacks_mirrorWhere (top : Point ℚ) :
    (p.mirrorWhere marked).constraints.map (·.slackAt eps top)
      = (p.constraints.map (·.slackAt eps top)).mapIdx fun i x => x.mirrorIf (marked i) := by
  have hslack : ∀ (c : Constraint ℚ) s,
      (c.mirrorIf s).slackAt eps top = (c.slackAt eps top).mirrorIf s := fun c s => by
    cases s with
    | false => rfl
    | true => exact Constraint.slackAt_mirror
  refine List.ext_getElem? fun i => ?_
  simp only [mirrorWhere, List.getElem?_map, List.getElem?_mapIdx, Option.map_map,
    Function.comp_def, hslack]

/-- Whether a row is binding does not depend on the sign of its left-hand side. -/
theorem bindingConstraints_mirrorWhere (top : Optimum ℚ) (vs : List (Point ℚ)) :
    ((p.mirrorWhere marked).analyze eps vs top).bindingConstraints
      = (p.analyze eps vs top).bindingConstraints := by
  have hbinding : ∀ r, ((written marked r).slackAt eps top.point).binding
      = (r.1.slackAt eps top.point).binding := fun r =>
    Constraint.congr_mirrorIf (f := fun c => (c.slackAt eps top.point).binding)
      (fun _ => by rw [Constraint.slackAt_mirror]) r.1 _
  have hname : ∀ r, ((written marked r).slackAt eps top.point).constraint
      = (r.1.slackAt eps top.point).constraint := name_written
  obtain ⟨rows, hp, hq⟩ := exists_rows p marked
  simp only [Analysis.bindingConstraints, analyze, hp, hq, List.filter_map, List.map_map,
    Function.comp_def, hbinding, hname]

end LinearProgram

/-! ## Outcomes -/

/-- Two outcomes are the same, up to the values of the left-hand sides of the marked rows and the
texts of conflicts. -/
structure Solution.Mirrored (marked : Nat → Bool) (s t : Solution ℚ) : Prop where
  isOptimal : t.isOptimal = s.isOptimal
  corners : t.corners = s.corners
  optimum : t.optimum? = s.optimum?
  alternatives : t.analysis.alternatives = s.analysis.alternatives
  bindingConstraints : t.analysis.bindingConstraints = s.analysis.bindingConstraints
  slacks : t.analysis.slacks = s.analysis.slacks.mapIdx fun i x => x.mirrorIf (marked i)
  conflicts : t.conflicts.map (·.names) = s.conflicts.map (·.names)

namespace LinearProgram

/-- Once the corners are known to be the same, so is everything that is derived from them. -/
theorem solution_mirrored (sweep : Sweep ℚ) {eps : ℚ} (heps : 0 < eps) (p : LinearProgram ℚ)
    (marked : Nat → Bool) :
    (p.solution sweep eps).Mirrored marked ((p.mirrorWhere marked).solution sweep eps) := by
  have hobjective : (p.mirrorWhere marked).objective = p.objective := rfl
  unfold solution
  rw [corners_mirrorWhere sweep heps, hobjective]
  cases hbest : p.objective.best? (corners sweep p.constraints eps) with
  | none =>
    simp only [hbest]
    exact ⟨rfl, rfl, rfl, rfl, rfl, rfl, names_conflicts_mirrorWhere⟩
  | some top =>
    simp only [hbest]
    exact ⟨rfl, rfl, rfl, rfl, bindingConstraints_mirrorWhere top _, slacks_mirrorWhere top.point,
      rfl⟩

/-- **Writing rows the other way round changes nothing.** Whichever rows of a program in order are
mirrored, both programs have an outcome at every positive tolerance, and the outcomes are the
same but for the values of the left-hand sides of these rows and the texts of conflicts. -/
theorem solve_mirrored (sweep : Sweep ℚ) {eps : ℚ} (heps : 0 < eps) {p : LinearProgram ℚ}
    (hp : p.validate = .ok ()) (marked : Nat → Bool) :
    ∃ s t, p.solve sweep eps = .ok s ∧ (p.mirrorWhere marked).solve sweep eps = .ok t ∧
      s.Mirrored marked t := by
  have hdefect := validate_eq_ok_iff.mp hp
  exact ⟨_, _, solve_eq_ok heps hdefect, solve_eq_ok heps (defect?_mirrorWhere hdefect),
    solution_mirrored sweep heps p marked⟩

/-- Two parallel rows with nothing between them, and a row that excludes the quadrant. -/
def gap : LinearProgram ℚ where
  vars := .standard
  objective := ⟨1, 1, .maximize⟩
  constraints := [⟨"low", 2, 2, .le, 4⟩, ⟨"debt", 1, 0, .le, -1⟩, ⟨"high", 1, 1, .ge, 5⟩]

/-- At most four units in total, at most three of them of the first kind and at least a half of
the second. Two corners are best, and two rows are binding at the one that is reported. -/
def bench : LinearProgram ℚ where
  vars := .standard
  objective := ⟨1, 1, .maximize⟩
  constraints := [⟨"total", 1, 1, .le, 4⟩, ⟨"first", 1, 0, .le, 3⟩, ⟨"second", 0, 1, .ge, 1 / 2⟩]

/-- All rows but the first are mirrored. In one program the parallel rows have opposite
coefficients then, and both conflicts are found again; in the other the mirrored row `first` is
binding as before, and only its left-hand side and that of `second` are negated. -/
theorem solve_mirrored_gap_bench : (0 : ℚ) < 1 / 1000 ∧
    gap.validate = .ok () ∧ bench.validate = .ok () ∧
    (gap.mirrorWhere (0 < ·)).constraints =
      [⟨"low", 2, 2, .le, 4⟩, ⟨"debt", -1, -0, .ge, 1⟩, ⟨"high", -1, -1, .le, -5⟩] ∧
    (bench.mirrorWhere (0 < ·)).constraints =
      [⟨"total", 1, 1, .le, 4⟩, ⟨"first", -1, -0, .ge, -3⟩, ⟨"second", -0, -1, .le, -(1 / 2)⟩] ∧
    (∃ s t, gap.solve .diamond (1 / 1000) = .ok s ∧
      (gap.mirrorWhere (0 < ·)).solve .diamond (1 / 1000) = .ok t ∧
      t.isOptimal = false ∧ t.conflicts.map (·.names) = [["debt"], ["low", "high"]] ∧
      s.Mirrored (0 < ·) t) ∧
    ∃ s t, bench.solve .diamond (1 / 1000) = .ok s ∧
      (bench.mirrorWhere (0 < ·)).solve .diamond (1 / 1000) = .ok t ∧
      t.optimum? = some ⟨⟨3, 1⟩, 4⟩ ∧ t.analysis.alternatives = [⟨0, 4⟩] ∧
      t.analysis.bindingConstraints = ["total", "first"] ∧
      s.analysis.slacks =
        [⟨"total", 4, 0, true⟩, ⟨"first", 3, 0, true⟩, ⟨"second", 1, 1 / 2, false⟩] ∧
      t.analysis.slacks =
        [⟨"total", 4, 0, true⟩, ⟨"first", -3, 0, true⟩, ⟨"second", -1, 1 / 2, false⟩] ∧
      s.Mirrored (0 < ·) t := by
  have heps : (0 : ℚ) < 1 / 1000 := by norm_num
  have hgap : gap.validate = .ok () := by rfl
  have hgap' : (gap.mirrorWhere (0 < ·)).validate = .ok () := by rfl
  have hbench : bench.validate = .ok () := by rfl
  have hbench' : (bench.mirrorWhere (0 < ·)).validate = .ok () := by rfl
  refine ⟨heps, hgap, hbench, by rfl, by rfl, ?_, ?_⟩
  · obtain ⟨s, t, hs, ht, hst⟩ := solve_mirrored .diamond heps hgap (0 < ·)
    obtain rfl := solution_eq_of_solve heps hgap' ht
    exact ⟨_, _, hs, ht, by cbv, by cbv, hst⟩
  · obtain ⟨s, t, hs, ht, hst⟩ := solve_mirrored .diamond heps hbench (0 < ·)
    obtain rfl := solution_eq_of_solve heps hbench hs
    obtain rfl := solution_eq_of_solve heps hbench' ht
    exact ⟨_, _, hs, ht, by cbv, by cbv, by cbv, by cbv, by cbv, hst⟩

end LinearProgram

end CornerPoint

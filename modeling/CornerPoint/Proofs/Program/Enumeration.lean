import Mathlib
import CornerPoint.Proofs.Program.Optimality

/-!
# Exact enumeration

A corner was described by walls: a point of the region on two of them that are not parallel.
Here corners are described by the region alone, as its extreme points:

> `isCorner_iff_isExtremePoint`: a point of a region is a corner exactly when it is not halfway
> between two other points of the region.

With that, the list of corners can be compared with a set that knows nothing of rows, axes
and crossings. The tolerance is what stands between the two. It blurs three tests, and when
it makes no difference in any of them the list is exact:

> `corners_exact`: if no rows cross at a determinant below the tolerance, no infeasible
> candidate passes the test and no two candidates are near each other, then every extreme
> point of the region is listed once, and nothing else is.
-/

namespace CornerPoint

/-! ## Extreme points -/

/-- `m` is halfway between `p` and `q`. -/
def Point.IsMidpoint (m p q : Point ℚ) : Prop := m.x = (p.x + q.x) / 2 ∧ m.y = (p.y + q.y) / 2

/-- A point of `s` that is not halfway between two other points of `s`. -/
def IsExtremePoint (s : Set (Point ℚ)) (p : Point ℚ) : Prop :=
  p ∈ s ∧ ∀ q ∈ s, ∀ r ∈ s, q ≠ p → r ≠ p → ¬p.IsMidpoint q r

section Extreme

variable {cs : List (Constraint ℚ)} {c : Constraint ℚ} {p q r v : Point ℚ} {d : Point ℚ} {eps : ℚ}

/-- At a midpoint a row has the mean of its values at the ends. -/
theorem Constraint.lhsAt_of_isMidpoint (h : p.IsMidpoint q r) :
    c.lhsAt p = (c.lhsAt q + c.lhsAt r) / 2 := by
  rw [lhsAt_rat, lhsAt_rat, lhsAt_rat, h.1, h.2]
  ring

/-- A line through a point that is halfway between two others on its allowed side goes through
them as well. -/
theorem Constraint.tight_of_isMidpoint (h : p.IsMidpoint q r) (hp : c.Tight p)
    (hq : c.Satisfied q) (hr : c.Satisfied r) : c.Tight q := by
  have hmid : c.rhs = (c.lhsAt q + c.lhsAt r) / 2 := hp.symm.trans (lhsAt_of_isMidpoint h)
  -- neither end can miss the bound on the allowed side, since the other one would have to make up
  -- for it on the other side
  unfold Satisfied at hq hr
  show c.lhsAt q = c.rhs
  cases hrel : c.relation with
  | le =>
    rw [hrel] at hq hr
    have hq' : c.lhsAt q ≤ c.rhs := hq
    have hr' : c.lhsAt r ≤ c.rhs := hr
    linarith
  | ge =>
    rw [hrel] at hq hr
    have hq' : c.rhs ≤ c.lhsAt q := hq
    have hr' : c.rhs ≤ c.lhsAt r := hr
    linarith
  | eq =>
    rw [hrel] at hq
    exact hq

/-- Two walls that are not parallel leave no room around a corner on a line through it. -/
theorem IsCorner.isExtremePoint (hv : IsCorner cs v) : IsExtremePoint (region cs) v := by
  obtain ⟨hmem, c, hc, d, hd, hctight, hdtight, hdet⟩ := hv
  refine ⟨hmem, fun q hq r hr hne _ hmid => hne ?_⟩
  rw [mem_region_iff] at hq hr
  have hcq : c.Tight q := Constraint.tight_of_isMidpoint hmid hctight (hq c hc) (hr c hc)
  have hdq : d.Tight q := Constraint.tight_of_isMidpoint hmid hdtight (hq d hd) (hr d hd)
  rw [← (Constraint.tight_and_tight_iff hdet).mp ⟨hcq, hdq⟩,
    ← (Constraint.tight_and_tight_iff hdet).mp ⟨hctight, hdtight⟩]

/-- In a free direction there is some room. -/
theorem exists_reach (hp : p ∈ region cs) (hfree : Free cs p d) :
    ∃ T, 0 < T ∧ ∀ t, 0 ≤ t → t ≤ T → p.move t d ∈ region cs := by
  by_cases hblock : Blocked cs p d
  · obtain ⟨c, _, hpos, hmem⟩ := exists_first_wall hp hfree hblock
    exact ⟨c.meetTime p d, hpos, hmem⟩
  · exact ⟨1, one_pos, fun t ht _ => move_mem_region hp hfree hblock ht⟩

/-- A point is halfway between the ends of two opposite movements. -/
theorem Point.isMidpoint_move (p : Point ℚ) (t : ℚ) (d : Point ℚ) :
    p.IsMidpoint (p.move t d) (p.move t d.neg) := by
  unfold IsMidpoint move neg
  exact ⟨by ring, by ring⟩

theorem Point.move_ne {t : ℚ} (ht : 0 < t) (hd : d.x ≠ 0 ∨ d.y ≠ 0) : p.move t d ≠ p := by
  intro h
  have hx : p.x + t * d.x = p.x := congrArg Point.x h
  have hy : p.y + t * d.y = p.y := congrArg Point.y h
  rw [add_eq_left, mul_eq_zero] at hx hy
  rcases hd with hd | hd
  · exact hd (hx.resolve_left ht.ne')
  · exact hd (hy.resolve_left ht.ne')

/-- A point that is no corner can be moved both ways in some direction, so it is halfway
between two points of the region. -/
theorem IsExtremePoint.isCorner (h : IsExtremePoint (region cs) v) : IsCorner cs v := by
  by_contra hnc
  obtain ⟨hmem, hextreme⟩ := h
  obtain ⟨d, hd, hfree⟩ := exists_free_direction hmem hnc
  obtain ⟨T, hT, hforth⟩ := exists_reach hmem hfree
  obtain ⟨T', hT', hback⟩ := exists_reach hmem hfree.neg
  have ht : 0 < min T T' := lt_min hT hT'
  exact hextreme _ (hforth _ ht.le (min_le_left _ _)) _ (hback _ ht.le (min_le_right _ _))
    (Point.move_ne ht hd) (Point.move_ne ht (hd.imp neg_ne_zero.mpr neg_ne_zero.mpr))
    (Point.isMidpoint_move v _ d)

/-- **Corners are extreme points.** The walls of a region do not matter, only its points do. -/
theorem isCorner_iff_isExtremePoint : IsCorner cs v ↔ IsExtremePoint (region cs) v :=
  ⟨IsCorner.isExtremePoint, IsExtremePoint.isCorner⟩

/-! ## The list of corners -/

/-- A candidate in the region is a corner of it: every candidate lies on two lines that are
not parallel. -/
theorem isCorner_of_mem_candidates (heps : 0 < eps) (hgen : v ∈ candidates cs eps)
    (hmem : v ∈ region cs) : IsCorner cs v := by
  refine ⟨hmem, ?_⟩
  -- the axes bound the region too, so that the origin and the intercepts lie on two lines like all
  -- others
  rcases ((mem_candidates_iff heps).mp hgen).2 with rfl | ⟨c, hc, htight, h⟩ | ⟨c, d, hcd, hdet, h⟩
  · refine ⟨Constraint.nonnegX, mem_walls.mpr (Or.inl rfl), Constraint.nonnegY,
      mem_walls.mpr (Or.inr (Or.inl rfl)), Constraint.nonnegX_tight.mpr rfl,
      Constraint.nonnegY_tight.mpr rfl, ?_⟩
    rw [Constraint.nonnegX_det]
    exact one_ne_zero
  · have hcw : c ∈ walls cs := mem_walls.mpr (Or.inr (Or.inr hc))
    rcases h with ⟨ha, hy⟩ | ⟨hb, hx⟩
    · refine ⟨Constraint.nonnegY, mem_walls.mpr (Or.inr (Or.inl rfl)), c, hcw,
        Constraint.nonnegY_tight.mpr hy, htight, ?_⟩
      rw [Constraint.nonnegY_det]
      exact neg_ne_zero.mpr ha
    · refine ⟨Constraint.nonnegX, mem_walls.mpr (Or.inl rfl), c, hcw,
        Constraint.nonnegX_tight.mpr hx, htight, ?_⟩
      rw [Constraint.nonnegX_det]
      exact hb
  · obtain ⟨hc, hd⟩ := mem_of_mem_pairs hcd
    exact ⟨c, mem_walls.mpr (Or.inr (Or.inr hc)), d, mem_walls.mpr (Or.inr (Or.inr hd)), h.1, h.2,
      abs_pos.mp (heps.trans_le hdet)⟩

/-- The test at the tolerance accepts no candidate outside the region. -/
def SharplyTested (eps : ℚ) (cs : List (Constraint ℚ)) : Prop :=
  ∀ p ∈ candidates cs eps, (∀ c ∈ cs, c.Satisfied p) ∨ feasible cs eps p = false

/-- No two different candidates are near each other at the tolerance. -/
def Scattered (eps : ℚ) (cs : List (Constraint ℚ)) : Prop :=
  ∀ p ∈ candidates cs eps, ∀ q ∈ candidates cs eps, p ≠ q → p.near q eps = false

/-- No corner is listed twice, as a point is near itself. -/
theorem corners_nodup (sweep : Sweep ℚ) (cs : List (Constraint ℚ)) (heps : 0 < eps) :
    (corners sweep cs eps).Nodup := by
  refine (corners_pairwise sweep cs eps).imp fun {u v} h heq => ?_
  rw [heq, Point.near_self heps] at h
  exact absurd h (by simp)

/-- A listed corner lies in the region, if the test is sharp. -/
theorem SharplyTested.mem_region (hsharp : SharplyTested eps cs) {sweep : Sweep ℚ} (heps : 0 < eps)
    (hv : v ∈ corners sweep cs eps) : v ∈ region cs := by
  obtain ⟨hgen, hfeas⟩ := mem_feasibleCandidates_of_mem_corners hv
  have hquad := Point.inQuadrant_iff.mp ((mem_candidates_iff heps).mp hgen).1
  rcases hsharp v hgen with h | h
  · exact ⟨hquad, h⟩
  · rw [hfeas] at h
    exact absurd h (by simp)

/-- A feasible candidate is listed itself, if no other one is near it. -/
theorem Scattered.mem_corners (hscat : Scattered eps cs) (sweep : Sweep ℚ) (heps : 0 < eps)
    (hgen : v ∈ candidates cs eps) (hmem : v ∈ region cs) : v ∈ corners sweep cs eps := by
  obtain ⟨u, hu, hnear⟩ :=
    exists_near_mem_corners sweep heps hgen (feasible_of_mem_region heps hmem)
  by_cases heq : u = v
  · exact heq ▸ hu
  · rw [hscat u (mem_feasibleCandidates_of_mem_corners hu).1 v hgen heq] at hnear
    exact absurd hnear (by simp)

/-- **The list of corners is exact,** if the tolerance blurs nothing: no rows cross at a
determinant below it, no candidate outside the region passes the test, and no two candidates
are near each other. Then the extreme points of the region are listed, each of them once, and
no other points are. Rows without variables need not be excluded; they produce no candidates
and are tested like the others. -/
theorem corners_exact (sweep : Sweep ℚ) (heps : 0 < eps) (hsep : Separated eps cs)
    (hsharp : SharplyTested eps cs) (hscat : Scattered eps cs) :
    (corners sweep cs eps).Nodup ∧ ∀ v, v ∈ corners sweep cs eps ↔ IsExtremePoint (region cs) v := by
  refine ⟨corners_nodup sweep cs heps, fun v => ?_⟩
  rw [← isCorner_iff_isExtremePoint]
  constructor
  · intro hv
    exact isCorner_of_mem_candidates heps (mem_feasibleCandidates_of_mem_corners hv).1
      (hsharp.mem_region heps hv)
  · intro hv
    exact hscat.mem_corners sweep heps (hsep.mem_candidates heps hv) hv.1

end Extreme

/-- A quadrilateral. The first row bounds the total, the second is a line through the origin,
the third bounds the first variable, and the last is the first one doubled. -/
def wedge : List (Constraint ℚ) :=
  [⟨"total", 1, 1, .le, 4⟩, ⟨"order", 1, -1, .ge, 0⟩, ⟨"first", 1, 0, .le, 3⟩,
    ⟨"double", 2, 2, .le, 8⟩]

/-- The corners of the wedge are far apart. -/
theorem wedge_separated : Separated (1 / 1000) wedge := by
  unfold Separated
  decide +kernel

/-- No candidate of the wedge passes by the tolerance alone. -/
theorem wedge_sharplyTested : SharplyTested (1 / 1000) wedge := by
  unfold SharplyTested
  decide +kernel

theorem wedge_scattered : Scattered (1 / 1000) wedge := by
  unfold Scattered
  simp only [ne_eq, Point.ext_iff]
  decide +kernel

/-- The wedge is sharply tested and its candidates are far from each other. -/
theorem corners_exact_wedge : (0 : ℚ) < 1 / 1000 ∧ Separated (1 / 1000) wedge ∧
    SharplyTested (1 / 1000) wedge ∧ Scattered (1 / 1000) wedge ∧
    (corners .diamond wedge (1 / 1000)).Nodup ∧
    ∀ v, v ∈ corners .diamond wedge (1 / 1000) ↔ IsExtremePoint (region wedge) v :=
  ⟨by norm_num, wedge_separated, wedge_sharplyTested, wedge_scattered,
    corners_exact .diamond (by norm_num) wedge_separated wedge_sharplyTested wedge_scattered⟩

end CornerPoint

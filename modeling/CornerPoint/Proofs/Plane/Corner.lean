import Mathlib
import CornerPoint.Proofs.Plane.Exact

/-!
# Corners of a region

A region is bounded by walls: the lines of its constraints and the two axes. A corner is a
point of the region on two walls that are not parallel. This file proves the fundamental
theorem of linear programming for such regions:

> `exists_corner_ge`: a linear form that is bounded above on a region is, at some corner, at
> least as large as at any given point of the region.

There is no compactness in it. A point that is no corner has a direction in which every wall
through it is kept (`exists_free_direction`). Moving along it until the next wall is met
(`exists_advance`) leaves the point on strictly more walls, and the direction or its opposite
can be chosen so that the form does not fall (`exists_better`). The walls that a point is not
on are the measure of the induction; the axes among them are what stops the movement when the
region is unbounded.
-/

namespace CornerPoint

/-! ## Walls -/

namespace Constraint

/-- The first variable is not negative. -/
def nonnegX : Constraint ℚ := ⟨"x", 1, 0, .ge, 0⟩

/-- The second variable is not negative. -/
def nonnegY : Constraint ℚ := ⟨"y", 0, 1, .ge, 0⟩

@[simp] theorem nonnegX_lhsAt (p : Point ℚ) : nonnegX.lhsAt p = p.x := by
  rw [lhsAt_rat, nonnegX, one_mul, zero_mul, add_zero]

@[simp] theorem nonnegY_lhsAt (p : Point ℚ) : nonnegY.lhsAt p = p.y := by
  rw [lhsAt_rat, nonnegY, one_mul, zero_mul, zero_add]

end Constraint

open Constraint (nonnegX nonnegY)

/-- All constraints that bound a region: those of the quadrant and the given ones. -/
def walls (cs : List (Constraint ℚ)) : List (Constraint ℚ) := nonnegX :: nonnegY :: cs

/-- The quadrant has two walls, and each row is one. -/
theorem mem_walls {cs : List (Constraint ℚ)} {c : Constraint ℚ} :
    c ∈ walls cs ↔ c = nonnegX ∨ c = nonnegY ∨ c ∈ cs := by
  rw [walls, List.mem_cons, List.mem_cons]

/-- The quadrant is two more rows. -/
theorem mem_region_iff {cs : List (Constraint ℚ)} {p : Point ℚ} :
    p ∈ region cs ↔ ∀ c ∈ walls cs, c.Satisfied p := by
  have hx : nonnegX.Satisfied p ↔ 0 ≤ p.x := by
    show (0 : ℚ) ≤ nonnegX.lhsAt p ↔ 0 ≤ p.x
    rw [Constraint.nonnegX_lhsAt]
  have hy : nonnegY.Satisfied p ↔ 0 ≤ p.y := by
    show (0 : ℚ) ≤ nonnegY.lhsAt p ↔ 0 ≤ p.y
    rw [Constraint.nonnegY_lhsAt]
  rw [walls, List.forall_mem_cons, List.forall_mem_cons, hx, hy, ← and_assoc]
  rfl

/-- A point of the region that lies on two walls with different directions. -/
def IsCorner (cs : List (Constraint ℚ)) (p : Point ℚ) : Prop :=
  p ∈ region cs ∧ ∃ c ∈ walls cs, ∃ d ∈ walls cs, c.Tight p ∧ d.Tight p ∧ c.det d ≠ 0

/-! ## Movement along a direction -/

namespace Point

/-- The value at a point of the linear form whose coefficients are `w`. -/
def dot (w p : Point ℚ) : ℚ := w.x * p.x + w.y * p.y

/-- The point reached from `p` after the time `t` in the direction `d`. -/
def move (p : Point ℚ) (t : ℚ) (d : Point ℚ) : Point ℚ := ⟨p.x + t * d.x, p.y + t * d.y⟩

/-- The opposite direction. -/
def neg (d : Point ℚ) : Point ℚ := ⟨-d.x, -d.y⟩

theorem dot_move (w p : Point ℚ) (t : ℚ) (d : Point ℚ) :
    w.dot (p.move t d) = w.dot p + t * w.dot d := by
  unfold dot move
  ring

theorem dot_neg (w d : Point ℚ) : w.dot d.neg = -w.dot d := by
  unfold dot neg
  ring

end Point

namespace Constraint

variable {c : Constraint ℚ} {p d : Point ℚ} {t : ℚ}

theorem lhsAt_move (c : Constraint ℚ) (p : Point ℚ) (t : ℚ) (d : Point ℚ) :
    c.lhsAt (p.move t d) = c.lhsAt p + t * c.lhsAt d :=
  Point.dot_move ⟨c.a, c.b⟩ p t d

theorem lhsAt_neg (c : Constraint ℚ) (d : Point ℚ) : c.lhsAt d.neg = -c.lhsAt d :=
  Point.dot_neg ⟨c.a, c.b⟩ d

/-- When a point that moves from `p` in the direction `d` meets the line. The time is zero for
a point on the line, and also for a direction that keeps its distance. -/
def meetTime (c : Constraint ℚ) (p d : Point ℚ) : ℚ := (c.rhs - c.lhsAt p) / c.lhsAt d

theorem ne_zero_of_meetTime_pos (h : 0 < c.meetTime p d) : c.lhsAt d ≠ 0 := by
  intro h0
  rw [meetTime, h0, div_zero] at h
  exact lt_irrefl 0 h

theorem not_tight_of_meetTime_pos (h : 0 < c.meetTime p d) : ¬c.Tight p := by
  intro ht
  rw [meetTime, show c.lhsAt p = c.rhs from ht, sub_self, zero_div] at h
  exact lt_irrefl 0 h

/-- At its meeting time the line is reached. -/
theorem tight_move_meetTime (h : c.lhsAt d ≠ 0) : c.Tight (p.move (c.meetTime p d) d) := by
  show c.lhsAt (p.move (c.meetTime p d) d) = c.rhs
  rw [lhsAt_move, meetTime, div_mul_cancel₀ _ h]
  ring

/-- Along its line a row stays tight. -/
theorem tight_move (hp : c.Tight p) (hd : c.lhsAt d = 0) : c.Tight (p.move t d) := by
  show c.lhsAt (p.move t d) = c.rhs
  rw [lhsAt_move, hd, mul_zero, add_zero]
  exact hp

/-- Up to the time at which a gap is used up, no more than the gap is used. -/
private theorem mul_le_gap {g r : ℚ} (hgap : 0 < g) (ht : 0 ≤ t)
    (hstop : 0 < g / r → t ≤ g / r) : t * r ≤ g := by
  rcases lt_or_ge 0 r with hrate | hrate
  · exact (le_div_iff₀ hrate).mp (hstop (div_pos hgap hrate))
  · exact (mul_nonpos_of_nonneg_of_nonpos ht hrate).trans hgap.le

/-- A constraint stays satisfied as long as its line has not been crossed. -/
theorem satisfied_move (hp : c.Satisfied p) (hfree : c.Tight p → c.lhsAt d = 0) (ht : 0 ≤ t)
    (hstop : 0 < c.meetTime p d → t ≤ c.meetTime p d) : c.Satisfied (p.move t d) := by
  by_cases htight : c.Tight p
  · exact satisfied_of_tight (tight_move htight (hfree htight))
  have hne : c.lhsAt p ≠ c.rhs := htight
  unfold Satisfied at hp ⊢
  rw [lhsAt_move]
  cases hr : c.relation with
  | le =>
    rw [hr] at hp
    have hgap : 0 < c.rhs - c.lhsAt p := sub_pos.mpr (lt_of_le_of_ne hp hne)
    have := mul_le_gap hgap ht hstop
    show c.lhsAt p + t * c.lhsAt d ≤ c.rhs
    linarith
  | ge =>
    rw [hr] at hp
    -- the same gap and rate, both with the opposite sign
    have hgap : 0 < -(c.rhs - c.lhsAt p) := by
      rw [neg_sub]
      exact sub_pos.mpr (lt_of_le_of_ne hp hne.symm)
    have := mul_le_gap (r := -c.lhsAt d) hgap ht (by rw [neg_div_neg_eq]; exact hstop)
    show c.rhs ≤ c.lhsAt p + t * c.lhsAt d
    linarith
  | eq =>
    rw [hr] at hp
    exact absurd hp hne

end Constraint

/-- Every wall through `p` keeps its distance in the direction `d`. -/
def Free (cs : List (Constraint ℚ)) (p d : Point ℚ) : Prop :=
  ∀ c ∈ walls cs, c.Tight p → c.lhsAt d = 0

/-- Some wall is met by a point that moves from `p` in the direction `d`. -/
def Blocked (cs : List (Constraint ℚ)) (p d : Point ℚ) : Prop :=
  ∃ c ∈ walls cs, 0 < c.meetTime p d

/-- The walls that `p` is not on. -/
def loose (cs : List (Constraint ℚ)) (p : Point ℚ) : Set (Constraint ℚ) :=
  {c | c ∈ walls cs ∧ ¬c.Tight p}

section Movement

variable {cs : List (Constraint ℚ)} {p d w : Point ℚ} {M : ℚ}

theorem loose_finite : (loose cs p).Finite :=
  (walls cs).finite_toSet.subset fun _ hc => hc.1

/-- A free direction is free both ways. -/
theorem Free.neg (h : Free cs p d) : Free cs p d.neg := fun c hc ht => by
  rw [Constraint.lhsAt_neg, h c hc ht, neg_zero]

/-- Among the walls that are met one is met first, and until then the region is not left. -/
theorem exists_first_wall (hp : p ∈ region cs) (hfree : Free cs p d) (hblock : Blocked cs p d) :
    ∃ c ∈ walls cs, 0 < c.meetTime p d ∧
      ∀ t, 0 ≤ t → t ≤ c.meetTime p d → p.move t d ∈ region cs := by
  have hfin : {c | c ∈ walls cs ∧ 0 < c.meetTime p d}.Finite :=
    (walls cs).finite_toSet.subset fun _ hc => hc.1
  obtain ⟨c, ⟨hc, hpos⟩, hfirst⟩ :=
    Set.exists_min_image {c | c ∈ walls cs ∧ 0 < c.meetTime p d} (·.meetTime p d) hfin hblock
  refine ⟨c, hc, hpos, fun t ht hle => ?_⟩
  rw [mem_region_iff] at hp ⊢
  exact fun e he => Constraint.satisfied_move (hp e he) (hfree e he) ht
    fun h => hle.trans (hfirst e ⟨he, h⟩)

/-- **A free direction that is blocked can be followed to a further wall.** The first wall
that is met is added to those through the point, and none of them is left. -/
theorem exists_advance (hp : p ∈ region cs) (hfree : Free cs p d) (hblock : Blocked cs p d) :
    ∃ t, 0 < t ∧ p.move t d ∈ region cs ∧ loose cs (p.move t d) ⊂ loose cs p := by
  obtain ⟨c, hc, hpos, hmem⟩ := exists_first_wall hp hfree hblock
  refine ⟨c.meetTime p d, hpos, hmem _ hpos.le (le_refl _), ?_⟩
  rw [Set.ssubset_iff_of_subset]
  · -- the wall that stopped the movement is no longer loose
    have htight := Constraint.tight_move_meetTime (p := p)
      (Constraint.ne_zero_of_meetTime_pos hpos)
    exact ⟨c, ⟨hc, Constraint.not_tight_of_meetTime_pos hpos⟩, fun h => h.2 htight⟩
  · exact fun e he => ⟨he.1, fun h => he.2 (Constraint.tight_move h (hfree e he.1 h))⟩

/-- In a free direction that is not blocked the region has no end. -/
theorem move_mem_region (hp : p ∈ region cs) (hfree : Free cs p d) (hopen : ¬Blocked cs p d)
    {t : ℚ} (ht : 0 ≤ t) : p.move t d ∈ region cs := by
  rw [mem_region_iff] at hp ⊢
  exact fun c hc => Constraint.satisfied_move (hp c hc) (hfree c hc) ht
    fun h => absurd ⟨c, hc, h⟩ hopen

/-- A form that is bounded above does not rise in a direction without end. -/
theorem dot_nonpos_of_not_blocked (hp : p ∈ region cs) (hfree : Free cs p d)
    (hopen : ¬Blocked cs p d) (hM : ∀ q ∈ region cs, w.dot q ≤ M) : w.dot d ≤ 0 := by
  by_contra hpos
  rw [not_le] at hpos
  have hstart := hM p hp
  have ht : 0 ≤ (M - w.dot p + 1) / w.dot d := div_nonneg (by linarith) hpos.le
  have hend := hM _ (move_mem_region hp hfree hopen ht)
  rw [Point.dot_move, div_mul_cancel₀ _ hpos.ne'] at hend
  linarith

/-! ## Corners -/

/-- Neither coordinate falls in a direction without end, as both are bounded below on the
quadrant. -/
theorem nonneg_of_not_blocked (hp : p ∈ region cs) (hfree : Free cs p d)
    (hopen : ¬Blocked cs p d) : 0 ≤ d.x ∧ 0 ≤ d.y := by
  have hx := dot_nonpos_of_not_blocked (w := ⟨-1, 0⟩) (M := 0) hp hfree hopen
    fun q hq => by simp only [Point.dot]; linarith [hq.1.1]
  have hy := dot_nonpos_of_not_blocked (w := ⟨0, -1⟩) (M := 0) hp hfree hopen
    fun q hq => by simp only [Point.dot]; linarith [hq.1.2]
  simp only [Point.dot] at hx hy
  exact ⟨by linarith, by linarith⟩

/-- The quadrant holds no line: of a free direction and its opposite one is blocked. -/
theorem blocked_neg (hp : p ∈ region cs) (hfree : Free cs p d) (hd : d.x ≠ 0 ∨ d.y ≠ 0)
    (hopen : ¬Blocked cs p d) : Blocked cs p d.neg := by
  by_contra hopen'
  obtain ⟨hx, hy⟩ := nonneg_of_not_blocked hp hfree hopen
  obtain ⟨hx', hy'⟩ := nonneg_of_not_blocked hp hfree.neg hopen'
  simp only [Point.neg] at hx' hy'
  rcases hd with h | h
  · exact h (by linarith)
  · exact h (by linarith)

/-- The walls through a point that is no corner have one direction in common. -/
theorem exists_free_direction (hp : p ∈ region cs) (hnc : ¬IsCorner cs p) :
    ∃ d, (d.x ≠ 0 ∨ d.y ≠ 0) ∧ Free cs p d := by
  by_cases h : ∃ c ∈ walls cs, c.Tight p ∧ (c.a ≠ 0 ∨ c.b ≠ 0)
  · obtain ⟨c, hc, htight, hne⟩ := h
    refine ⟨⟨c.b, -c.a⟩, ?_, fun e he hetight => ?_⟩
    · exact hne.symm.imp_right neg_ne_zero.mpr
    · have hdet : c.det e = 0 := by
        by_contra hdet
        exact hnc ⟨hp, c, hc, e, he, htight, hetight, hdet⟩
      rw [Constraint.det_rat] at hdet
      rw [Constraint.lhsAt_rat]
      linarith
  · -- no wall through the point is a line, so every direction is free
    refine ⟨⟨1, 0⟩, Or.inl one_ne_zero, fun e he hetight => ?_⟩
    have ha : e.a = 0 := by
      by_contra ha
      exact h ⟨e, he, hetight, Or.inl ha⟩
    rw [Constraint.lhsAt_rat, ha, zero_mul, mul_zero, add_zero]

/-- A point that is no corner can be moved onto a further wall without loss. -/
theorem exists_better (hp : p ∈ region cs) (hnc : ¬IsCorner cs p)
    (hM : ∀ q ∈ region cs, w.dot q ≤ M) :
    ∃ q ∈ region cs, w.dot p ≤ w.dot q ∧ loose cs q ⊂ loose cs p := by
  -- a free direction in which the form does not fall
  obtain ⟨d, hd, hfree, hrise⟩ :
      ∃ d, (d.x ≠ 0 ∨ d.y ≠ 0) ∧ Free cs p d ∧ 0 ≤ w.dot d := by
    obtain ⟨d, hd, hfree⟩ := exists_free_direction hp hnc
    rcases le_total 0 (w.dot d) with h | h
    · exact ⟨d, hd, hfree, h⟩
    · refine ⟨d.neg, hd.imp neg_ne_zero.mpr neg_ne_zero.mpr, hfree.neg, ?_⟩
      rw [Point.dot_neg]
      exact neg_nonneg.mpr h
  -- if it has no end, the form is constant along it and the opposite direction will do
  obtain ⟨e, hefree, heblock, herise⟩ :
      ∃ e, Free cs p e ∧ Blocked cs p e ∧ 0 ≤ w.dot e := by
    by_cases hblock : Blocked cs p d
    · exact ⟨d, hfree, hblock, hrise⟩
    · refine ⟨d.neg, hfree.neg, blocked_neg hp hfree hd hblock, ?_⟩
      rw [Point.dot_neg]
      exact neg_nonneg.mpr (dot_nonpos_of_not_blocked hp hfree hblock hM)
  obtain ⟨t, ht, hmem, hloose⟩ := exists_advance hp hefree heblock
  refine ⟨p.move t e, hmem, ?_, hloose⟩
  rw [Point.dot_move]
  exact le_add_of_nonneg_right (mul_nonneg ht.le herise)

/-- **The fundamental theorem.** A linear form that is bounded above on a region is at some
corner at least as large as at any given point. -/
theorem exists_corner_ge (hM : ∀ q ∈ region cs, w.dot q ≤ M) (hp : p ∈ region cs) :
    ∃ v, IsCorner cs v ∧ w.dot p ≤ w.dot v := by
  induction hn : (loose cs p).ncard using Nat.strong_induction_on generalizing p with
  | _ n ih =>
    by_cases hcorner : IsCorner cs p
    · exact ⟨p, hcorner, le_refl _⟩
    -- one step adds a wall to those through the point, and there are finitely many
    obtain ⟨q, hq, hpq, hloose⟩ := exists_better hp hcorner hM
    have hlt : (loose cs q).ncard < n := hn ▸ Set.ncard_lt_ncard hloose loose_finite
    obtain ⟨v, hv, hqv⟩ := ih _ hlt hq rfl
    exact ⟨v, hv, hpq.trans hqv⟩

/-- A region that is not empty has a corner. -/
theorem exists_corner (hp : p ∈ region cs) : ∃ v, IsCorner cs v := by
  have hzero : ∀ q ∈ region cs, (Point.mk 0 0).dot q ≤ 0 := fun q _ => by
    simp only [Point.dot, zero_mul, add_zero, le_refl]
  obtain ⟨v, hv, _⟩ := exists_corner_ge hzero hp
  exact ⟨v, hv⟩

end Movement

end CornerPoint

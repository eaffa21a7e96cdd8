import Mathlib
import CornerPoint.Proofs.Plane.Region

/-!
# Angles

A sweep compares directions and says nothing about what it compares them by. Here is what it
should compare them by: the angle of a vector, measured from the first axis, in (-π, π].
`Sweep.Exact` says that a sweep does so.

Angles are real numbers and the points of the plane are rational, so the two meet in the cross
product, which has the sign of the sine of the angle between its factors (`cross_pos_iff`).
The same bridge shows that the sweep of exact directions is in order:

> `Sweep.diamond_exact`: going around the diamond meets directions in the order of their
> angles.
-/

namespace CornerPoint

namespace Point

/-- The vector from `c` to `p`. -/
def sub (p c : Point ℚ) : Point ℚ := ⟨p.x - c.x, p.y - c.y⟩

/-- The cross product, which is positive when `e` points to the left of `d`. -/
def cross (d e : Point ℚ) : ℚ := d.x * e.y - d.y * e.x

/-- The vector as a complex number. -/
def toComplex (d : Point ℚ) : ℂ := ⟨d.x, d.y⟩

/-- The angle of a vector in (-π, π]. The zero vector has the angle zero. -/
noncomputable def arg (d : Point ℚ) : ℝ := d.toComplex.arg

variable {d e : Point ℚ}

theorem toComplex_ne_zero (hd : d ≠ origin) : d.toComplex ≠ 0 := by
  intro h
  refine hd (Point.ext ?_ ?_)
  · exact Rat.cast_eq_zero.mp (congrArg Complex.re h)
  · exact Rat.cast_eq_zero.mp (congrArg Complex.im h)

theorem norm_pos (hd : d ≠ origin) : 0 < ‖d.toComplex‖ := norm_pos_iff.mpr (toComplex_ne_zero hd)

theorem norm_mul_cos (d : Point ℚ) : ‖d.toComplex‖ * Real.cos d.arg = d.x :=
  Complex.norm_mul_cos_arg d.toComplex

theorem norm_mul_sin (d : Point ℚ) : ‖d.toComplex‖ * Real.sin d.arg = d.y :=
  Complex.norm_mul_sin_arg d.toComplex

/-- The cross product is the sine of the angle between two points, up to their lengths. -/
theorem cross_eq_sin (d e : Point ℚ) :
    (d.cross e : ℝ) = ‖d.toComplex‖ * ‖e.toComplex‖ * Real.sin (e.arg - d.arg) := by
  unfold cross
  push_cast
  rw [Real.sin_sub, ← norm_mul_cos d, ← norm_mul_sin d, ← norm_mul_cos e, ← norm_mul_sin e]
  ring

/-- And the dot product is its cosine. -/
theorem dot_eq_cos (d e : Point ℚ) :
    (d.dot e : ℝ) = ‖d.toComplex‖ * ‖e.toComplex‖ * Real.cos (e.arg - d.arg) := by
  unfold dot
  push_cast
  rw [Real.cos_sub, ← norm_mul_cos d, ← norm_mul_sin d, ← norm_mul_cos e, ← norm_mul_sin e]
  ring

/-- The cross product has the sign of the sine of the angle from one vector to the other. -/
theorem cross_pos_iff (hd : d ≠ origin) (he : e ≠ origin) :
    0 < d.cross e ↔ 0 < Real.sin (e.arg - d.arg) := by
  rw [← Rat.cast_pos (K := ℝ), cross_eq_sin, mul_pos_iff_of_pos_left]
  exact mul_pos (norm_pos hd) (norm_pos he)

/-- The turn from one direction to the other is to the left when the sine of the angle between is
not negative. -/
theorem cross_nonneg_iff (hd : d ≠ origin) (he : e ≠ origin) :
    0 ≤ d.cross e ↔ 0 ≤ Real.sin (e.arg - d.arg) := by
  rw [← Rat.cast_nonneg (K := ℝ), cross_eq_sin, mul_nonneg_iff_of_pos_left]
  exact mul_pos (norm_pos hd) (norm_pos he)

theorem arg_le_pi (d : Point ℚ) : d.arg ≤ Real.pi := Complex.arg_le_pi _

theorem neg_pi_lt_arg (d : Point ℚ) : -Real.pi < d.arg := Complex.neg_pi_lt_arg _

/-- Within half a turn either way the cross product says which angle is larger. -/
theorem arg_le_arg_iff_cross (hd : d ≠ origin) (he : e ≠ origin)
    (hlow : -Real.pi < e.arg - d.arg) (hhigh : e.arg - d.arg ≤ Real.pi) :
    d.arg ≤ e.arg ↔ 0 ≤ d.cross e := by
  rw [cross_nonneg_iff hd he]
  constructor
  · intro h
    exact Real.sin_nonneg_of_nonneg_of_le_pi (sub_nonneg.mpr h) hhigh
  · intro h
    by_contra hlt
    exact absurd h (not_le.mpr
      (Real.sin_neg_of_neg_of_neg_pi_lt (sub_neg.mpr (not_le.mp hlt)) hlow))

/-! ## Quadrants -/

theorem arg_nonneg_iff : 0 ≤ d.arg ↔ 0 ≤ d.y :=
  Complex.arg_nonneg_iff.trans Rat.cast_nonneg

theorem arg_le_pi_div_two_iff (hy : 0 ≤ d.y) : d.arg ≤ Real.pi / 2 ↔ 0 ≤ d.x := by
  have h : d.arg ≤ Real.pi / 2 ↔ 0 ≤ d.x ∨ d.y < 0 :=
    Complex.arg_le_pi_div_two_iff.trans (or_congr Rat.cast_nonneg Rat.cast_lt_zero)
  exact h.trans (or_iff_left (not_lt.mpr hy))

/-- Among the points of the upper half plane the sign of the first coordinate tells the quadrants
apart. -/
theorem arg_lt_pi_div_two_iff (hd : d ≠ origin) (hy : 0 ≤ d.y) :
    d.arg < Real.pi / 2 ↔ 0 < d.x := by
  have h : d.arg < Real.pi / 2 ↔ 0 < d.x ∨ d.y < 0 ∨ d.toComplex = 0 :=
    Complex.arg_lt_pi_div_two_iff.trans (or_congr Rat.cast_pos (or_congr_left Rat.cast_lt_zero))
  refine h.trans (or_iff_left ?_)
  rintro (h | h)
  · exact absurd h (not_lt.mpr hy)
  · exact toComplex_ne_zero hd h

/-- The reflection at the first axis. -/
def mirror (d : Point ℚ) : Point ℚ := ⟨d.x, -d.y⟩

/-- The other half plane is handled by a reflection. -/
theorem arg_mirror (hy : d.y < 0) : d.mirror.arg = -d.arg := by
  have hconj : d.mirror.toComplex = (starRingEnd ℂ) d.toComplex :=
    Complex.ext rfl (Rat.cast_neg _)
  have hneg : d.arg < 0 := by
    rw [← not_le, arg_nonneg_iff, not_le]
    exact hy
  -- below the axis the angle is not `π`, the one angle whose negative is not an angle
  have hpi : d.toComplex.arg ≠ Real.pi := (hneg.trans Real.pi_pos).ne
  show d.mirror.toComplex.arg = -d.toComplex.arg
  rw [hconj, Complex.arg_conj, if_neg hpi]

/-! ## The diamond -/

/-- How far a direction is from the first axis when distances are measured along the square
with corners on the axes: zero on the axis, two on its opposite. -/
def turn (d : Point ℚ) : ℚ := 1 - d.x / (|d.x| + |d.y|)

theorem girth_pos (hd : d ≠ origin) : 0 < |d.x| + |d.y| := by
  by_cases hx : d.x = 0
  · have hy : d.y ≠ 0 := fun hy => hd (Point.ext hx hy)
    exact add_pos_of_nonneg_of_pos (abs_nonneg _) (abs_pos.mpr hy)
  · exact add_pos_of_pos_of_nonneg (abs_pos.mpr hx) (abs_nonneg _)

theorem turn_nonneg (hd : d ≠ origin) : 0 ≤ d.turn := by
  rw [turn, sub_nonneg, div_le_one (girth_pos hd)]
  exact (le_abs_self _).trans (le_add_of_nonneg_right (abs_nonneg _))

theorem turn_pos (hy : d.y ≠ 0) : 0 < d.turn := by
  have hd : d ≠ origin := fun h => hy (congrArg Point.y h)
  rw [turn, sub_pos, div_lt_one (girth_pos hd)]
  exact (le_abs_self _).trans_lt (lt_add_of_pos_right _ (abs_pos.mpr hy))

theorem turn_le_one_iff (hd : d ≠ origin) : d.turn ≤ 1 ↔ 0 ≤ d.x := by
  rw [turn, sub_le_self_iff, le_div_iff₀ (girth_pos hd), zero_mul]

theorem turn_lt_one_iff (hd : d ≠ origin) : d.turn < 1 ↔ 0 < d.x := by
  rw [turn, sub_lt_self_iff, div_pos_iff_of_pos_right (girth_pos hd)]

/-- In one quadrant the turn is decided by the cross product. -/
theorem turn_le_turn_iff (hd : d ≠ origin) (he : e ≠ origin) (hx : 0 ≤ d.x * e.x) :
    d.turn ≤ e.turn ↔ e.x * |d.y| ≤ d.x * |e.y| := by
  have habs : e.x * |d.x| = d.x * |e.x| := by
    rcases mul_nonneg_iff.mp hx with ⟨h, h'⟩ | ⟨h, h'⟩
    · rw [abs_of_nonneg h, abs_of_nonneg h', mul_comm]
    · rw [abs_of_nonpos h, abs_of_nonpos h', mul_neg, mul_neg, mul_comm]
  rw [turn, turn, sub_le_sub_iff_left, div_le_div_iff₀ (girth_pos he) (girth_pos hd), mul_add,
    mul_add, habs, add_le_add_iff_left]

/-- In the upper half of the plane the turn and the angle grow together. -/
theorem turn_le_turn_iff_arg (hd : d ≠ origin) (he : e ≠ origin) (hdy : 0 ≤ d.y) (hey : 0 ≤ e.y) :
    d.turn ≤ e.turn ↔ d.arg ≤ e.arg := by
  have hd0 := arg_nonneg_iff.mpr hdy
  have he0 := arg_nonneg_iff.mpr hey
  have hpi := Real.pi_pos
  rcases le_or_gt 0 (d.x * e.x) with hx | hx
  · -- one quadrant: both are decided by the cross product
    have hgap : -Real.pi < e.arg - d.arg := by
      by_contra h
      have hd' : d.x < 0 := not_le.mp ((arg_le_pi_div_two_iff hdy).not.mp (by linarith))
      have he' : 0 < e.x := (arg_lt_pi_div_two_iff he hey).mp (by linarith [arg_le_pi d])
      exact absurd (mul_neg_of_neg_of_pos hd' he') (not_lt.mpr hx)
    rw [turn_le_turn_iff hd he hx, abs_of_nonneg hdy, abs_of_nonneg hey,
      arg_le_arg_iff_cross hd he hgap (by linarith [arg_le_pi e]), cross, sub_nonneg, mul_comm d.y]
  · rcases mul_neg_iff.mp hx with ⟨hd', he'⟩ | ⟨hd', he'⟩
    · have hturn := (turn_lt_one_iff hd).mpr hd'
      have hturn' := lt_of_not_ge ((turn_le_one_iff he).not.mpr (not_le.mpr he'))
      have harg := (arg_lt_pi_div_two_iff hd hdy).mpr hd'
      have harg' := lt_of_not_ge ((arg_le_pi_div_two_iff hey).not.mpr (not_le.mpr he'))
      exact iff_of_true (hturn.trans hturn').le (harg.trans harg').le
    · have hturn := (turn_lt_one_iff he).mpr he'
      have hturn' := lt_of_not_ge ((turn_le_one_iff hd).not.mpr (not_le.mpr hd'))
      have harg := (arg_lt_pi_div_two_iff he hey).mpr he'
      have harg' := lt_of_not_ge ((arg_le_pi_div_two_iff hdy).not.mpr (not_le.mpr hd'))
      exact iff_of_false (not_le.mpr (hturn.trans hturn')) (not_le.mpr (harg.trans harg'))

end Point

/-- The sweep meets directions in the order of their angles in (-π, π]. -/
def Sweep.Exact (s : Sweep ℚ) : Prop :=
  ∀ d e : Point ℚ, s.le (s.angle d.x d.y) (s.angle e.x e.y) = true ↔ d.arg ≤ e.arg

namespace Sweep

open Point (origin)

variable {d e : Point ℚ}

/-- The place of a direction on the diamond. -/
def onDiamond (d : Point ℚ) : ℚ :=
  if d.x = 0 ∧ d.y = 0 then 0 else if 0 ≤ d.y then d.turn else -d.turn

theorem diamond_angle (d : Point ℚ) : diamond.angle d.x d.y = onDiamond d := by
  unfold onDiamond Point.turn
  rw [← Scalar.abs_rat, ← Scalar.abs_rat]
  rfl

/-- The diamond compares two directions by their positions on it. -/
theorem diamond_le_iff (d e : Point ℚ) :
    diamond.le (diamond.angle d.x d.y) (diamond.angle e.x e.y) = true ↔
      onDiamond d ≤ onDiamond e := by
  rw [diamond_angle, diamond_angle]
  show decide (onDiamond d ≤ onDiamond e) = true ↔ _
  exact decide_eq_true_iff

/-- Directions that do not point down are on the upper half. -/
theorem onDiamond_of_nonneg (hd : d ≠ origin) (hy : 0 ≤ d.y) : onDiamond d = d.turn := by
  rw [onDiamond, if_neg fun h => hd (Point.ext h.1 h.2), if_pos hy]

/-- Directions that point down are on the lower half, in reverse. -/
theorem onDiamond_of_neg (hd : d ≠ origin) (hy : d.y < 0) : onDiamond d = -d.turn := by
  rw [onDiamond, if_neg fun h => hd (Point.ext h.1 h.2), if_neg (not_le.mpr hy)]

/-- Outside the origin the place on the diamond grows with the angle. -/
theorem onDiamond_le_iff (hd : d ≠ origin) (he : e ≠ origin) :
    onDiamond d ≤ onDiamond e ↔ d.arg ≤ e.arg := by
  rcases le_or_gt 0 d.y with hdy | hdy
  · have hd0 := Point.arg_nonneg_iff.mpr hdy
    have hdt := Point.turn_nonneg hd
    rcases le_or_gt 0 e.y with hey | hey
    · rw [onDiamond_of_nonneg hd hdy, onDiamond_of_nonneg he hey,
        Point.turn_le_turn_iff_arg hd he hdy hey]
    · have he0 := lt_of_not_ge (Point.arg_nonneg_iff.not.mpr (not_le.mpr hey))
      have het := Point.turn_pos hey.ne
      rw [onDiamond_of_nonneg hd hdy, onDiamond_of_neg he hey]
      exact iff_of_false (not_le.mpr (by linarith)) (not_le.mpr (by linarith))
  · have hd0 := lt_of_not_ge (Point.arg_nonneg_iff.not.mpr (not_le.mpr hdy))
    have hdt := Point.turn_pos hdy.ne
    rcases le_or_gt 0 e.y with hey | hey
    · have he0 := Point.arg_nonneg_iff.mpr hey
      have het := Point.turn_nonneg he
      rw [onDiamond_of_neg hd hdy, onDiamond_of_nonneg he hey]
      exact iff_of_true (by linarith) (by linarith)
    · -- the lower half is the mirror image of the upper one
      have hmirror : ∀ {f : Point ℚ}, f.y < 0 → f.mirror ≠ origin ∧ 0 ≤ f.mirror.y ∧
          f.mirror.turn = f.turn := fun {f} hf =>
        ⟨fun h => hf.ne (neg_eq_zero.mp (congrArg Point.y h)), (neg_pos.mpr hf).le,
          by unfold Point.turn Point.mirror; rw [abs_neg]⟩
      obtain ⟨hd', hdy', hdt'⟩ := hmirror hdy
      obtain ⟨he', hey', het'⟩ := hmirror hey
      rw [onDiamond_of_neg hd hdy, onDiamond_of_neg he hey, neg_le_neg_iff, ← hdt', ← het',
        Point.turn_le_turn_iff_arg he' hd' hey' hdy', Point.arg_mirror hdy, Point.arg_mirror hey,
        neg_le_neg_iff]

/-- The origin counts as a point on the first axis, on the diamond and for angles. -/
theorem exists_same_direction (d : Point ℚ) :
    ∃ f, f ≠ origin ∧ onDiamond f = onDiamond d ∧ f.arg = d.arg := by
  by_cases hd : d = origin
  · refine ⟨⟨1, 0⟩, fun h => one_ne_zero (congrArg Point.x h), ?_, ?_⟩
    · rw [hd]
      decide +kernel
    · have hzero : d.toComplex = 0 := by
        rw [hd]
        exact Complex.ext Rat.cast_zero Rat.cast_zero
      have hone : (Point.mk 1 0).toComplex = 1 := Complex.ext Rat.cast_one Rat.cast_zero
      unfold Point.arg
      rw [hzero, hone, Complex.arg_zero, Complex.arg_one]
  · exact ⟨d, hd, rfl, rfl⟩

/-- **The diamond is in the order of angles.** -/
theorem diamond_exact : diamond.Exact := by
  intro d e
  obtain ⟨d', hd, hplace, harg⟩ := exists_same_direction d
  obtain ⟨e', he, hplace', harg'⟩ := exists_same_direction e
  rw [diamond_le_iff, ← hplace, ← hplace', onDiamond_le_iff hd he, harg, harg']

end Sweep

end CornerPoint

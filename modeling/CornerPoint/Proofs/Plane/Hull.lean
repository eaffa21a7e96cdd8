import Mathlib
import CornerPoint.Proofs.Plane.Angle

/-!
# Vertices of a convex hull

Points are sorted around their mean, and they are meant to be the vertices of their convex
hull. This file says what is special about such points and about their mean:

> `eq_of_ray`: from a point of the hull, no two vertices are seen in the same direction.
> `eq_of_beyond`: a vertex is not hidden behind a line through two points of the hull.
> `exists_left`: to the left of every line through the mean there is a vertex.

All three come down to one fact. A vertex is no proper mixture of points of the hull
(`IsHullVertex.eq_of_mix`), and with rational weights a mixture can be written down.
-/

namespace CornerPoint

namespace Point

/-- The point as a vector of the rational plane. -/
def coords (p : Point ℚ) : ℚ × ℚ := (p.x, p.y)

theorem coords_injective : Function.Injective coords := fun _ _ h =>
  Point.ext (congrArg Prod.fst h) (congrArg Prod.snd h)

/-- The point that divides the way from `p` to `q` at the fraction `t`. -/
def mix (t : ℚ) (p q : Point ℚ) : Point ℚ :=
  ⟨(1 - t) * p.x + t * q.x, (1 - t) * p.y + t * q.y⟩

/-- Mixing two points is mixing their coordinates, so convexity can be taken from the plane of
pairs. -/
theorem coords_mix (t : ℚ) (p q : Point ℚ) :
    (mix t p q).coords = (1 - t) • p.coords + t • q.coords := rfl

/-- The linear form with the coefficients `w`, on vectors. -/
def form (w : Point ℚ) : ℚ × ℚ →ₗ[ℚ] ℚ := w.x • LinearMap.fst ℚ ℚ ℚ + w.y • LinearMap.snd ℚ ℚ ℚ

theorem form_coords (w p : Point ℚ) : w.form p.coords = w.dot p := rfl

end Point

open Point (coords mix)

/-- The convex hull of points. -/
def hull (ps : List (Point ℚ)) : Set (ℚ × ℚ) := convexHull ℚ (coords '' {p | p ∈ ps})

/-- The point is an extreme point of the convex hull. -/
def IsHullVertex (ps : List (Point ℚ)) (p : Point ℚ) : Prop :=
  p.coords ∈ (hull ps).extremePoints ℚ

section Hull

variable {ps : List (Point ℚ)} {c d p q r v w z : Point ℚ} {t : ℚ}

theorem mem_hull (hp : p ∈ ps) : p.coords ∈ hull ps :=
  subset_convexHull ℚ _ ⟨p, hp, rfl⟩

theorem mix_mem_hull (hp : p.coords ∈ hull ps) (hq : q.coords ∈ hull ps) (h0 : 0 ≤ t) (h1 : t ≤ 1) :
    (mix t p q).coords ∈ hull ps := by
  rw [Point.coords_mix]
  exact convex_convexHull ℚ _ hp hq (sub_nonneg.mpr h1) h0 (sub_add_cancel 1 t)

/-- A vertex is no proper mixture of points of the hull. -/
theorem IsHullVertex.eq_of_mix (hv : IsHullVertex ps v) (hp : p.coords ∈ hull ps)
    (hq : q.coords ∈ hull ps) (h0 : 0 < t) (h1 : t < 1) (heq : v = mix t p q) : p = v := by
  refine Point.coords_injective (hv.2 hp hq ⟨1 - t, t, sub_pos.mpr h1, h0, sub_add_cancel 1 t, ?_⟩)
  rw [heq, Point.coords_mix]

/-- A mixture of two values that are at most `m`, one of them less, is less than `m`. -/
theorem form_lt {a b : ℚ × ℚ} {m s : ℚ} (hs : 0 < s) (ht : 0 < t) (hst : s + t = 1)
    (ha : w.form a < m) (hb : w.form b ≤ m) : w.form (s • a + t • b) < m :=
  calc w.form (s • a + t • b) = s * w.form a + t * w.form b := by
        rw [map_add, map_smul, map_smul, smul_eq_mul, smul_eq_mul]
    _ < s * m + t * m :=
        add_lt_add_of_lt_of_le (mul_lt_mul_of_pos_left ha hs) (mul_le_mul_of_nonneg_left hb ht.le)
    _ = m := by rw [← add_mul, hst, one_mul]

/-- A linear form that is larger at `v` than at all other points is so on the whole hull. -/
theorem eq_or_form_lt (h : ∀ z ∈ ps, z ≠ v → w.dot z < w.dot v) {u : ℚ × ℚ} (hu : u ∈ hull ps) :
    u = v.coords ∨ w.form u < w.form v.coords := by
  have hconvex : Convex ℚ {u | u = v.coords ∨ w.form u < w.form v.coords} := by
    rw [convex_iff_openSegment_subset]
    rintro a ha b hb _ ⟨s, t, hs, ht, hst, rfl⟩
    -- a point between two others is `v` only if both are
    rcases ha with rfl | ha
    · rcases hb with rfl | hb
      · left
        rw [← add_smul, hst, one_smul]
      · right
        rw [add_comm]
        exact form_lt ht hs ((add_comm t s).trans hst) hb (le_refl _)
    · right
      exact form_lt hs ht hst ha (hb.elim (fun heq => (congrArg w.form heq).le) le_of_lt)
  -- the hull is the least convex set around the points
  refine convexHull_min ?_ hconvex hu
  rintro _ ⟨z, hz, rfl⟩
  by_cases hzv : z = v
  · exact Or.inl (congrArg coords hzv)
  · right
    rw [Point.form_coords, Point.form_coords]
    exact h z hz hzv

/-- A point at which a linear form is larger than at all others is a vertex. -/
theorem isHullVertex_of_dot_lt (hv : v ∈ ps) (h : ∀ z ∈ ps, z ≠ v → w.dot z < w.dot v) :
    IsHullVertex ps v := by
  refine ⟨mem_hull hv, fun a ha b hb hab => ?_⟩
  by_contra hne
  obtain ⟨s, t, hs, ht, hst, heq⟩ := hab
  have hlt := (eq_or_form_lt h ha).resolve_left hne
  have hle := (eq_or_form_lt h hb).elim (fun heq => (congrArg w.form heq).le) le_of_lt
  exact lt_irrefl _ (heq ▸ form_lt hs ht hst hlt hle)

/-! ## What a vertex is seen from -/

/-- From a point of the hull no two vertices are seen in the same direction. -/
theorem eq_of_ray (hp : IsHullVertex ps p) (hq : IsHullVertex ps q) (hc : c.coords ∈ hull ps)
    (hpc : c ≠ p) (hqc : c ≠ q) (ht : 0 < t) (hx : q.x - c.x = t * (p.x - c.x))
    (hy : q.y - c.y = t * (p.y - c.y)) : p = q := by
  rcases lt_trichotomy t 1 with hlt | rfl | hgt
  · refine absurd (hq.eq_of_mix hc hp.1 ht hlt (Point.ext ?_ ?_)) hqc
    · show q.x = (1 - t) * c.x + t * p.x
      linarith
    · show q.y = (1 - t) * c.y + t * p.y
      linarith
  · exact Point.ext (by linarith) (by linarith)
  · have hinv : 0 < t⁻¹ := inv_pos.mpr ht
    have hmul : t⁻¹ * t = 1 := inv_mul_cancel₀ ht.ne'
    refine absurd (hp.eq_of_mix hc hq.1 hinv (inv_lt_one_of_one_lt₀ hgt) (Point.ext ?_ ?_)) hpc
    · show p.x = (1 - t⁻¹) * c.x + t⁻¹ * q.x
      linear_combination (-t⁻¹) * hx - (p.x - c.x) * hmul
    · show p.y = (1 - t⁻¹) * c.y + t⁻¹ * q.y
      linear_combination (-t⁻¹) * hy - (p.y - c.y) * hmul

/-- A vector whose cross product with another vanishes is a multiple of it. -/
theorem exists_scale (hd : d ≠ Point.origin) (hcross : d.cross v = 0) :
    ∃ t, t * d.dot d = d.dot v ∧ v.x = t * d.x ∧ v.y = t * d.y := by
  have hdot : 0 < d.dot d := by
    unfold Point.dot
    by_cases hx : d.x = 0
    · have hy : d.y ≠ 0 := fun hy => hd (Point.ext hx hy)
      exact add_pos_of_nonneg_of_pos (mul_self_nonneg _) (mul_self_pos.mpr hy)
    · exact add_pos_of_pos_of_nonneg (mul_self_pos.mpr hx) (mul_self_nonneg _)
  refine ⟨d.dot v / d.dot d, div_mul_cancel₀ _ hdot.ne', ?_, ?_⟩
  · rw [div_mul_eq_mul_div, eq_div_iff hdot.ne']
    unfold Point.dot
    unfold Point.cross at hcross
    linear_combination (-d.y) * hcross
  · rw [div_mul_eq_mul_div, eq_div_iff hdot.ne']
    unfold Point.dot
    unfold Point.cross at hcross
    linear_combination d.x * hcross

theorem sub_ne_origin (h : c ≠ p) : p.sub c ≠ Point.origin := by
  intro h0
  refine h (Point.ext ?_ ?_)
  · exact (sub_eq_zero.mp (congrArg Point.x h0)).symm
  · exact (sub_eq_zero.mp (congrArg Point.y h0)).symm

/-- No three vertices lie on a line. -/
theorem cross_ne_zero (hp : IsHullVertex ps p) (hq : IsHullVertex ps q) (hr : IsHullVertex ps r)
    (hpq : p ≠ q) (hpr : p ≠ r) (hqr : q ≠ r) : (q.sub p).cross (r.sub p) ≠ 0 := by
  intro hcross
  obtain ⟨t, -, hx, hy⟩ := exists_scale (sub_ne_origin hpq) hcross
  simp only [Point.sub] at hx hy
  rcases lt_trichotomy t 0 with hneg | rfl | hpos
  · -- the first point is between the others, which the last one sees in one direction
    have hneg' : 0 < -t := neg_pos.mpr hneg
    have ht : 0 < (1 - t) / (-t) := div_pos (by linarith) hneg'
    refine hpq (eq_of_ray hp hq hr.1 hpr.symm hqr.symm ht ?_ ?_)
    · rw [div_mul_eq_mul_div, eq_div_iff hneg'.ne']
      linear_combination hx
    · rw [div_mul_eq_mul_div, eq_div_iff hneg'.ne']
      linear_combination hy
  · rw [zero_mul, sub_eq_zero] at hx hy
    exact hpr (Point.ext hx hy).symm
  · exact hqr (eq_of_ray hq hr hp.1 hpq hpr hpos hx hy)

/-- No point hides a vertex. If `z` seen from `c` is a combination of `p` and `q` that lies
beyond the line through the two and not on the side of `q`, then it is `p`. -/
theorem eq_of_beyond {D a b : ℚ} (hp : IsHullVertex ps p) (hz : z.coords ∈ hull ps)
    (hq : q.coords ∈ hull ps) (hc : c.coords ∈ hull ps) (hD : 0 < D) (hb : b ≤ 0) (hab : D < a + b)
    (hx : D * (z.x - c.x) = a * (p.x - c.x) + b * (q.x - c.x))
    (hy : D * (z.y - c.y) = a * (p.y - c.y) + b * (q.y - c.y)) : z = p := by
  have ha : 0 < a := by linarith
  have hrest : 0 < a - D := by linarith
  -- `p` is a mixture of `z` and a point between `q` and `c`
  have hw : (mix ((a - D + b) / (a - D)) q c).coords ∈ hull ps :=
    mix_mem_hull hq hc (div_nonneg (by linarith) hrest.le)
      ((div_le_one hrest).mpr (by linarith))
  refine hp.eq_of_mix hz hw (div_pos hrest ha) ((div_lt_one ha).mpr (by linarith))
    (Point.ext ?_ ?_)
  · show p.x = (1 - (a - D) / a) * z.x + (a - D) / a
      * ((1 - (a - D + b) / (a - D)) * q.x + (a - D + b) / (a - D) * c.x)
    field_simp
    linear_combination -hx
  · show p.y = (1 - (a - D) / a) * z.y + (a - D) / a
      * ((1 - (a - D + b) / (a - D)) * q.y + (a - D + b) / (a - D) * c.y)
    field_simp
    linear_combination -hy

/-! ## The mean -/

/-- The mean of points. -/
def Point.mean (ps : List (Point ℚ)) : Point ℚ :=
  ⟨(ps.map Point.x).sum / ps.length, (ps.map Point.y).sum / ps.length⟩

/-- Sums of points are taken coordinate by coordinate. -/
theorem Point.sum_eq (ps : List (Point ℚ)) :
    Point.sum ps = ⟨(ps.map Point.x).sum, (ps.map Point.y).sum⟩ := by
  have hfold : ∀ (ps : List (Point ℚ)) (s : Point ℚ),
      ps.foldl (fun s p => Point.mk (s.x + p.x) (s.y + p.y)) s
        = ⟨s.x + (ps.map Point.x).sum, s.y + (ps.map Point.y).sum⟩ := by
    intro ps
    induction ps with
    | nil => simp
    | cons p ps ih =>
      intro s
      rw [List.foldl_cons, ih, List.map_cons, List.map_cons, List.sum_cons, List.sum_cons,
        add_assoc, add_assoc]
  refine (hfold ps Point.origin).trans (Point.ext ?_ ?_)
  · exact zero_add _
  · exact zero_add _

theorem Point.mean?_eq_some (hne : ps ≠ []) : Point.mean? ps = some (Point.mean ps) := by
  unfold Point.mean?
  rw [if_neg (fun h => hne (List.isEmpty_iff.mp h)), Point.sum_eq]
  rfl

/-- The mean does not depend on the order. -/
theorem Point.mean_perm {qs : List (Point ℚ)} (h : ps.Perm qs) : Point.mean ps = Point.mean qs := by
  unfold Point.mean
  rw [(h.map Point.x).sum_eq, (h.map Point.y).sum_eq, h.length_eq]

theorem length_cast_ne_zero (hne : ps ≠ []) : (ps.length : ℚ) ≠ 0 :=
  Nat.cast_ne_zero.mpr fun h => hne (List.length_eq_zero_iff.mp h)

/-- The mean of several points is a mixture of the first one and the mean of the others. -/
theorem Point.mean_cons (hne : ps ≠ []) :
    Point.mean (p :: ps) = mix (ps.length / (ps.length + 1)) p (Point.mean ps) := by
  have hlen := length_cast_ne_zero hne
  unfold Point.mean mix
  rw [List.map_cons, List.map_cons, List.sum_cons, List.sum_cons, List.length_cons, Nat.cast_succ]
  refine Point.ext ?_ ?_
  · dsimp only
    field_simp
    ring
  · dsimp only
    field_simp
    ring

/-- The mean of some points lies in the hull of all: one point after another is mixed into the mean
of the rest. -/
theorem mean_mem_hull : ∀ (qs : List (Point ℚ)), qs ≠ [] → (∀ q ∈ qs, q ∈ ps) →
    (Point.mean qs).coords ∈ hull ps
  | [], hne, _ => absurd rfl hne
  | [q], _, hsub => by
    have hmean : Point.mean [q] = q := Point.ext (by simp [Point.mean]) (by simp [Point.mean])
    rw [hmean]
    exact mem_hull (hsub q (List.mem_cons_self ..))
  | q :: r :: qs, _, hsub => by
    have hrest := mean_mem_hull (r :: qs) (by simp) fun z hz => hsub z (List.mem_cons_of_mem _ hz)
    have hpos : (0 : ℚ) < (r :: qs).length + 1 := by positivity
    rw [Point.mean_cons (by simp)]
    exact mix_mem_hull (mem_hull (hsub q (List.mem_cons_self ..))) hrest (by positivity)
      ((div_le_one hpos).mpr (by linarith))

/-- The mean is no vertex, unless there is only one. -/
theorem mean_ne (hvertex : ∀ p ∈ ps, IsHullVertex ps p) (hp : p ∈ ps) (hz : z ∈ ps) (hne : z ≠ p) :
    Point.mean ps ≠ p := by
  intro heq
  obtain ⟨before, after, hsplit⟩ := List.append_of_mem hz
  have hperm : ps.Perm (z :: (before ++ after)) := hsplit ▸ List.perm_middle
  have hrest : before ++ after ≠ [] := by
    intro h
    rw [h] at hperm
    exact hne (List.mem_singleton.mp (hperm.mem_iff.mp hp)).symm
  have hpos : (0 : ℚ) < (before ++ after).length :=
    Nat.cast_pos.mpr (List.length_pos_iff.mpr hrest)
  have hmem : (Point.mean (before ++ after)).coords ∈ hull ps :=
    mean_mem_hull _ hrest fun q hq => hperm.mem_iff.mpr (List.mem_cons_of_mem _ hq)
  -- if `p` is the mean it is a mixture of `z` and the mean of the other points, and no vertex is
  -- one
  have hmix : p = mix ((before ++ after).length / ((before ++ after).length + 1)) z
      (Point.mean (before ++ after)) := by
    rw [← heq, Point.mean_perm hperm, Point.mean_cons hrest]
  exact hne ((hvertex p hp).eq_of_mix (mem_hull hz) hmem (div_pos hpos (by linarith))
    ((div_lt_one (by linarith)).mpr (by linarith)) hmix)

/-- Seen from the mean, points lie to the left of a direction as much as to the right of it. -/
theorem sum_cross_mean (hne : ps ≠ []) (d : Point ℚ) :
    (ps.map fun z => d.cross (z.sub (Point.mean ps))).sum = 0 := by
  -- around any center the sum is a form of the sums of the coordinates, which vanishes at the mean
  have hsum : ∀ (c : Point ℚ) (qs : List (Point ℚ)), (qs.map fun z => d.cross (z.sub c)).sum
      = d.x * ((qs.map Point.y).sum - qs.length * c.y)
        - d.y * ((qs.map Point.x).sum - qs.length * c.x) := by
    intro c qs
    induction qs with
    | nil => simp
    | cons q qs ih =>
      rw [List.map_cons, List.sum_cons, ih, List.map_cons, List.map_cons, List.sum_cons,
        List.sum_cons, List.length_cons, Nat.cast_succ]
      unfold Point.cross Point.sub
      ring
  have hlen := length_cast_ne_zero hne
  rw [hsum]
  simp only [Point.mean]
  rw [mul_div_cancel₀ _ hlen, mul_div_cancel₀ _ hlen]
  ring

/-- **To the left of every line through the mean there is a vertex.** -/
theorem exists_left (hvertex : ∀ p ∈ ps, IsHullVertex ps p) (hlen : 3 ≤ ps.length)
    (hnodup : ps.Nodup) (hd : d ≠ Point.origin) :
    ∃ z ∈ ps, 0 < d.cross (z.sub (Point.mean ps)) := by
  by_contra hnone
  have hle : ∀ z ∈ ps, d.cross (z.sub (Point.mean ps)) ≤ 0 := fun z hz =>
    not_lt.mp fun h => hnone ⟨z, hz, h⟩
  have hne : ps ≠ [] := fun h => by
    rw [h] at hlen
    exact absurd hlen (by simp)
  -- as the sum is zero, no point lies to the right either
  have hzero : ∀ z ∈ ps, d.cross (z.sub (Point.mean ps)) = 0 := by
    by_contra hsome
    push Not at hsome
    obtain ⟨z, hz, hcross⟩ := hsome
    have hlt := List.sum_lt_sum (fun z => d.cross (z.sub (Point.mean ps))) (fun _ => (0 : ℚ)) hle
      ⟨z, hz, lt_of_le_of_ne (hle z hz) hcross⟩
    rw [sum_cross_mean hne d] at hlt
    simp at hlt
  obtain ⟨p, q, r, rest, rfl⟩ : ∃ p q r rest, ps = p :: q :: r :: rest := by
    match ps, hlen with
    | p :: q :: r :: rest, _ => exact ⟨p, q, r, rest, rfl⟩
  -- so all points lie on one line, but three vertices do not
  simp only [List.nodup_cons, List.mem_cons, not_or] at hnodup
  obtain ⟨⟨hpq, hpr, -⟩, ⟨hqr, -⟩, -⟩ := hnodup
  refine cross_ne_zero (hvertex p (by simp)) (hvertex q (by simp)) (hvertex r (by simp)) hpq hpr
    hqr ?_
  have hline : ∀ u ∈ p :: q :: r :: rest, ∀ v ∈ p :: q :: r :: rest, d.cross (u.sub v) = 0 := by
    intro u hu v hv
    have hu' := hzero u hu
    have hv' := hzero v hv
    unfold Point.cross Point.sub at hu' hv' ⊢
    linear_combination hu' - hv'
  obtain ⟨s, -, hsx, hsy⟩ := exists_scale hd (hline q (by simp) p (by simp))
  obtain ⟨t, -, htx, hty⟩ := exists_scale hd (hline r (by simp) p (by simp))
  rw [Point.cross, hsx, hsy, htx, hty]
  ring

end Hull

end CornerPoint

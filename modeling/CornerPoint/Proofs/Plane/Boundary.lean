import Mathlib
import CornerPoint.Proofs.Plane.Hull
import CornerPoint.Proofs.Plane.Sweep

/-!
# Going around a convex polygon

The vertices of a convex polygon, sorted by their angle around their mean, are its boundary:

> `sort_counterclockwise`: between each vertex and the next one the boundary turns left, and no
> vertex lies to the right of the line through the two.

So the sorted points can be joined by straight lines in the order of the list, and the last
with the first, without any two of these lines crossing.

Angles end at half a turn, where the list is to be closed to a circle. `IsNext` says in which
order the angles of the list stand to those of two cyclic neighbours, and `exists_gap` takes
the seam out: going left from the first neighbour, the second one is met before any other
point is. This and `exists_left` put the mean to the left of the line through the two
(`cross_pos_of_isNext`), and a point on the other side would hide one of them.
-/

namespace CornerPoint

open Point (mean)

/-! ## Cyclic neighbours -/

/-- In the circle of the points of `l` with the angles `f`, no angle is between those of `p` and
`q`: either there is none in between, or `p` has the largest angle and `q` the smallest. -/
def IsNext (f : Point ℚ → ℝ) (l : List (Point ℚ)) (p q : Point ℚ) : Prop :=
  (f p ≤ f q ∧ ∀ z ∈ l, f z ≤ f p ∨ f q ≤ f z) ∨ ∀ z ∈ l, f q ≤ f z ∧ f z ≤ f p

section Neighbours

variable {f : Point ℚ → ℝ} {l rest : List (Point ℚ)} {p q : Point ℚ}

/-- In a sorted list cyclic neighbours have no angle between them. -/
theorem isNext_of_isRotated (hl : l.Pairwise fun u v => f u ≤ f v)
    (h : l.IsRotated (p :: q :: rest)) : IsNext f l p q := by
  obtain ⟨n, hn⟩ := h
  rw [List.rotate_eq_drop_append_take_mod] at hn
  have hsplit : l = l.take (n % l.length) ++ l.drop (n % l.length) :=
    (List.take_append_drop _ _).symm
  generalize l.take (n % l.length) = front at hn hsplit
  generalize l.drop (n % l.length) = back at hn hsplit
  -- the neighbours stand next to each other, or on both sides of the seam
  have hinner : ∀ before after, l = before ++ p :: q :: after → IsNext f l p q := by
    intro before after heq
    rw [heq] at hl ⊢
    obtain ⟨-, hback, hacross⟩ := List.pairwise_append.mp hl
    obtain ⟨hp, hq⟩ := List.pairwise_cons.mp hback
    refine Or.inl ⟨hp q (List.mem_cons_self ..), fun z hz => ?_⟩
    rw [List.mem_append, List.mem_cons, List.mem_cons] at hz
    rcases hz with hz | rfl | rfl | hz
    · exact Or.inl (hacross z hz p (List.mem_cons_self ..))
    · exact Or.inl (le_refl _)
    · exact Or.inr (le_refl _)
    · exact Or.inr ((List.pairwise_cons.mp hq).1 z hz)
  match back, hn with
  | [], hn => exact hinner [] rest (by rw [hsplit, ← hn]; simp)
  | [u], hn =>
    rw [List.singleton_append, List.cons.injEq] at hn
    obtain ⟨rfl, rfl⟩ := hn
    rw [hsplit] at hl ⊢
    obtain ⟨hfront, -, hacross⟩ := List.pairwise_append.mp hl
    refine Or.inr fun z hz => ?_
    rw [List.mem_append, List.mem_cons, List.mem_singleton] at hz
    rcases hz with (rfl | hz) | rfl
    · exact ⟨le_refl _, hacross z (List.mem_cons_self ..) u (List.mem_cons_self ..)⟩
    · exact ⟨(List.pairwise_cons.mp hfront).1 z hz,
        hacross z (List.mem_cons_of_mem _ hz) u (List.mem_cons_self ..)⟩
    · exact ⟨hacross q (List.mem_cons_self ..) z (List.mem_cons_self ..), le_refl _⟩
  | u :: v :: back, hn =>
    rw [List.cons_append, List.cons_append, List.cons.injEq, List.cons.injEq] at hn
    obtain ⟨rfl, rfl, -⟩ := hn
    exact hinner front back hsplit

/-- **The gap to the next point.** Turning left from `p`, the point `q` is met first: its turn
is at most that of every other point. Turns differ from differences of angles by a full turn
at most. -/
theorem IsNext.exists_gap (h : IsNext f l p q) (hpl : p ∈ l) (hlow : ∀ z, -Real.pi < f z)
    (hhigh : ∀ z, f z ≤ Real.pi) :
    ∃ gap, 0 ≤ gap ∧ gap ≤ 2 * Real.pi ∧ (gap = f q - f p ∨ gap = f q - f p + 2 * Real.pi) ∧
      ∀ z ∈ l, ∃ t, 0 ≤ t ∧ t ≤ 2 * Real.pi ∧
        (t = f z - f p ∨ t = f z - f p + 2 * Real.pi) ∧ (t = 0 ∨ gap ≤ t) := by
  have hp := hlow p
  have hp' := hhigh p
  have hq := hlow q
  have hq' := hhigh q
  rcases h with ⟨hle, h⟩ | h
  · refine ⟨f q - f p, by linarith, by linarith, Or.inl rfl, fun z hz => ?_⟩
    have hz1 := hlow z
    have hz2 := hhigh z
    -- points in front of `p` come last, after a full turn; `p` itself counts as not turned at all
    rcases h z hz with h | h
    · rcases h.eq_or_lt with heq | hlt
      · exact ⟨0, le_refl _, by linarith [Real.pi_pos], Or.inl (by linarith), Or.inl rfl⟩
      · exact ⟨f z - f p + 2 * Real.pi, by linarith, by linarith, Or.inr rfl,
          Or.inr (by linarith)⟩
    · exact ⟨f z - f p, by linarith, by linarith, Or.inl rfl, Or.inr (by linarith)⟩
  -- nothing lies behind `p`, so that `q` is the very first point and all others come a full turn
  -- later
  · have hqp := (h p hpl).1
    refine ⟨f q - f p + 2 * Real.pi, by linarith, by linarith, Or.inr rfl, fun z hz => ?_⟩
    have hz1 := hlow z
    obtain ⟨hqz, hzp⟩ := h z hz
    exact ⟨f z - f p + 2 * Real.pi, by linarith, by linarith, Or.inr rfl, Or.inr (by linarith)⟩

end Neighbours

/-! ## Around the mean -/

section Around

variable {ps : List (Point ℚ)} {p q z : Point ℚ} {gap t : ℝ}

/-- The angle in which the mean sees a point. -/
noncomputable def aspect (ps : List (Point ℚ)) (z : Point ℚ) : ℝ := (z.sub (mean ps)).arg

/-- A turn with a positive sine is less than half a turn. -/
theorem turn_of_sin_pos (h1 : t ≤ 2 * Real.pi) (h : 0 < Real.sin t) : t ≠ 0 ∧ t < Real.pi := by
  constructor
  · intro hzero
    rw [hzero, Real.sin_zero] at h
    exact lt_irrefl 0 h
  · by_contra hge
    rw [← Real.sin_sub_two_pi] at h
    exact absurd (Real.sin_nonpos_of_nonpos_of_neg_pi_le (by linarith) (by linarith))
      (not_le.mpr h)

/-- The turn from `p` to `z` may be a full turn longer than the difference of their angles. -/
theorem sin_of_turn (h : t = aspect ps z - aspect ps p ∨
    t = aspect ps z - aspect ps p + 2 * Real.pi) :
    Real.sin t = Real.sin (aspect ps z - aspect ps p) := by
  rcases h with rfl | rfl
  · rfl
  · exact Real.sin_add_two_pi _

/-- In a polygon the mean is no vertex. -/
theorem sub_mean_ne_origin (hvertex : ∀ p ∈ ps, IsHullVertex ps p) (hp : p ∈ ps) (hq : q ∈ ps)
    (hne : p ≠ q) (hz : z ∈ ps) : z.sub (mean ps) ≠ Point.origin := by
  by_cases h : z = p
  · exact sub_ne_origin (mean_ne hvertex hz hq (fun heq => hne (h.symm.trans heq.symm)))
  · exact sub_ne_origin (mean_ne hvertex hz hp (fun heq => h heq.symm))

/-- Two vertices are not in the same direction from the mean. -/
theorem aspect_ne (hvertex : ∀ p ∈ ps, IsHullVertex ps p) (hp : p ∈ ps) (hq : q ∈ ps)
    (hne : p ≠ q) : aspect ps q ≠ aspect ps p := by
  intro heq
  have hp0 := sub_mean_ne_origin hvertex hp hq hne hp
  have hq0 := sub_mean_ne_origin hvertex hp hq hne hq
  have hdiff : (q.sub (mean ps)).arg - (p.sub (mean ps)).arg = 0 := sub_eq_zero.mpr heq
  -- in one direction, both points lie on one ray from the mean, and only one end of a ray can be a
  -- vertex
  have hcross : (p.sub (mean ps)).cross (q.sub (mean ps)) = 0 := by
    have h := Point.cross_eq_sin (p.sub (mean ps)) (q.sub (mean ps))
    rw [hdiff, Real.sin_zero, mul_zero] at h
    exact_mod_cast h
  have hdot : 0 < (p.sub (mean ps)).dot (q.sub (mean ps)) := by
    have h := Point.dot_eq_cos (p.sub (mean ps)) (q.sub (mean ps))
    rw [hdiff, Real.cos_zero, mul_one] at h
    have hpos := mul_pos (Point.norm_pos hp0) (Point.norm_pos hq0)
    rw [← h] at hpos
    exact_mod_cast hpos
  obtain ⟨t, ht, hx, hy⟩ := exists_scale hp0 hcross
  have hself : 0 ≤ (p.sub (mean ps)).dot (p.sub (mean ps)) :=
    add_nonneg (mul_self_nonneg _) (mul_self_nonneg _)
  have htpos : 0 < t := by
    rw [← ht] at hdot
    exact pos_of_mul_pos_left hdot hself
  have hmean : (mean ps).coords ∈ hull ps :=
    mean_mem_hull ps (List.ne_nil_of_mem hp) fun _ h => h
  exact hne (eq_of_ray (hvertex p hp) (hvertex q hq) hmean (mean_ne hvertex hp hq hne.symm)
    (mean_ne hvertex hq hp hne) htpos hx hy)

/-- **The mean lies to the left of the way to the next vertex.** Otherwise no vertex would lie
to the left of the line from the mean through the first one. -/
theorem cross_pos_of_isNext (hlen : 3 ≤ ps.length) (hnodup : ps.Nodup)
    (hvertex : ∀ p ∈ ps, IsHullVertex ps p) (hp : p ∈ ps) (hq : q ∈ ps) (hne : p ≠ q)
    (h : IsNext (aspect ps) ps p q) :
    0 < (p.sub (mean ps)).cross (q.sub (mean ps)) := by
  have hp0 := sub_mean_ne_origin hvertex hp hq hne hp
  have hq0 := sub_mean_ne_origin hvertex hp hq hne hq
  obtain ⟨gap, hgap0, -, hgap, hturns⟩ := h.exists_gap hp (fun _ => Point.neg_pi_lt_arg _)
    fun _ => Point.arg_le_pi _
  rw [Point.cross_pos_iff hp0 hq0]
  show 0 < Real.sin (aspect ps q - aspect ps p)
  rw [← sin_of_turn hgap]
  have hgap_pos : 0 < gap := by
    refine lt_of_le_of_ne hgap0 fun hzero => ?_
    rcases hgap with hgap | hgap
    · exact aspect_ne hvertex hp hq hne (by linarith)
    · have hlow : -Real.pi < aspect ps q := Point.neg_pi_lt_arg _
      have hhigh : aspect ps p ≤ Real.pi := Point.arg_le_pi _
      linarith
  refine Real.sin_pos_of_pos_of_lt_pi hgap_pos (not_le.mp fun hwide => ?_)
  -- a gap of half a turn leaves no vertex to the left of `p`
  obtain ⟨z, hz, hleft⟩ := exists_left hvertex hlen hnodup hp0
  rw [Point.cross_pos_iff hp0 (sub_mean_ne_origin hvertex hp hq hne hz)] at hleft
  obtain ⟨t, -, ht1, ht, hskip⟩ := hturns z hz
  obtain ⟨hmoved, hhalf⟩ := turn_of_sin_pos ht1 ((sin_of_turn ht).symm ▸ hleft)
  have hlong := hskip.resolve_left hmoved
  linarith

/-- No vertex is seen between two neighbours. -/
theorem not_between_of_isNext (hvertex : ∀ p ∈ ps, IsHullVertex ps p) (hp : p ∈ ps) (hq : q ∈ ps)
    (hne : p ≠ q) (h : IsNext (aspect ps) ps p q) (hz : z ∈ ps) :
    ¬(0 < (p.sub (mean ps)).cross (z.sub (mean ps)) ∧
      0 < (z.sub (mean ps)).cross (q.sub (mean ps))) := by
  rintro ⟨hpz, hzq⟩
  have hz0 := sub_mean_ne_origin hvertex hp hq hne hz
  rw [Point.cross_pos_iff (sub_mean_ne_origin hvertex hp hq hne hp) hz0] at hpz
  rw [Point.cross_pos_iff hz0 (sub_mean_ne_origin hvertex hp hq hne hq)] at hzq
  obtain ⟨gap, hgap0, hgap1, hgap, hturns⟩ := h.exists_gap hp (fun _ => Point.neg_pi_lt_arg _)
    fun _ => Point.arg_le_pi _
  obtain ⟨t, -, ht1, ht, hskip⟩ := hturns z hz
  obtain ⟨hmoved, hhalf⟩ := turn_of_sin_pos ht1 ((sin_of_turn ht).symm ▸ hpz)
  -- the rest of the gap, up to full turns, is the turn from `z` to `q`
  have hrest : Real.sin (gap - t) = Real.sin (aspect ps q - aspect ps z) := by
    rcases hgap with rfl | rfl
    · rcases ht with rfl | rfl
      · rw [sub_sub_sub_cancel_right]
      · rw [← Real.sin_sub_two_pi (aspect ps q - aspect ps z)]
        congr 1
        ring
    · rcases ht with rfl | rfl
      · rw [← Real.sin_add_two_pi (aspect ps q - aspect ps z)]
        congr 1
        ring
      · congr 1
        ring
  have hlong := hskip.resolve_left hmoved
  have hnonpos : Real.sin (gap - t) ≤ 0 :=
    Real.sin_nonpos_of_nonpos_of_neg_pi_le (by linarith) (by linarith)
  rw [hrest] at hnonpos
  exact absurd hzq (not_lt.mpr hnonpos)

/-- No vertex lies to the right of the way from one vertex to the next. -/
theorem cross_nonneg_of_isNext (hlen : 3 ≤ ps.length) (hnodup : ps.Nodup)
    (hvertex : ∀ p ∈ ps, IsHullVertex ps p) (hp : p ∈ ps) (hq : q ∈ ps) (hne : p ≠ q)
    (h : IsNext (aspect ps) ps p q) (hz : z ∈ ps) : 0 ≤ (q.sub p).cross (z.sub p) := by
  have hD := cross_pos_of_isNext hlen hnodup hvertex hp hq hne h
  have hbetween := not_between_of_isNext hvertex hp hq hne h hz
  have hmean : (mean ps).coords ∈ hull ps :=
    mean_mem_hull ps (List.ne_nil_of_mem hp) fun _ h => h
  by_contra hright
  rw [not_le] at hright
  -- `z` in terms of `p` and `q`, all as seen from the mean
  have hsum : (p.sub (mean ps)).cross (q.sub (mean ps)) <
      (z.sub (mean ps)).cross (q.sub (mean ps)) + (p.sub (mean ps)).cross (z.sub (mean ps)) := by
    unfold Point.cross Point.sub at hright ⊢
    linarith
  rcases le_or_gt ((p.sub (mean ps)).cross (z.sub (mean ps))) 0 with hb | hb
  · have hzp : z = p := by
      refine eq_of_beyond (hvertex p hp) (mem_hull hz) (mem_hull hq) hmean hD hb hsum ?_ ?_
      · unfold Point.cross Point.sub
        ring
      · unfold Point.cross Point.sub
        ring
    rw [hzp] at hright
    exact absurd hright (by unfold Point.cross Point.sub; simp)
  · have ha : (z.sub (mean ps)).cross (q.sub (mean ps)) ≤ 0 := not_lt.mp fun ha => hbetween ⟨hb, ha⟩
    have hzq : z = q := by
      rw [add_comm] at hsum
      refine eq_of_beyond (hvertex q hq) (mem_hull hz) (mem_hull hp) hmean hD ha hsum ?_ ?_
      · unfold Point.cross Point.sub
        ring
      · unfold Point.cross Point.sub
        ring
    rw [hzq] at hright
    refine absurd hright (not_lt.mpr (le_of_eq ?_))
    unfold Point.cross Point.sub
    ring

end Around

/-! ## The sorted list -/

theorem Sweep.Exact.sort_pairwise {s : Sweep ℚ} (hs : s.Exact) (ps : List (Point ℚ)) :
    (s.sort ps).Pairwise fun u v => aspect ps u ≤ aspect ps v :=
  (s.sort_sorted ps).imp fun {u v} h => (hs (u.sub (mean ps)) (v.sub (mean ps))).mp h

/-- **The sorted vertices go around the polygon.** Three or more points that are all vertices
of their convex hull are sorted so that the way from each to the next turns left, in a circle,
and that no point lies to the right of it. -/
theorem sort_counterclockwise {s : Sweep ℚ} (hs : s.Exact) {ps : List (Point ℚ)}
    (hlen : 3 ≤ ps.length) (hnodup : ps.Nodup) (hvertex : ∀ p ∈ ps, IsHullVertex ps p) :
    (s.sort ps).Perm ps ∧ ∀ p q r rest, (s.sort ps).IsRotated (p :: q :: r :: rest) →
      0 < (q.sub p).cross (r.sub q) ∧ ∀ z ∈ ps, 0 ≤ (q.sub p).cross (z.sub p) := by
  have hperm := s.sort_perm ps
  refine ⟨hperm, fun p q r rest hrot => ?_⟩
  have hall : ∀ u ∈ p :: q :: r :: rest, u ∈ ps := fun u hu =>
    hperm.mem_iff.mp (hrot.mem_iff.mpr hu)
  have hp := hall p (by simp)
  have hq := hall q (by simp)
  have hr := hall r (by simp)
  have hdistinct := hrot.nodup_iff.mp (hperm.nodup_iff.mpr hnodup)
  simp only [List.nodup_cons, List.mem_cons, not_or] at hdistinct
  obtain ⟨⟨hpq, hpr, -⟩, ⟨hqr, -⟩, -⟩ := hdistinct
  -- the next point in the sorted list is the next one that is met turning left around the mean
  have hnext : IsNext (aspect ps) ps p q := by
    rcases isNext_of_isRotated (hs.sort_pairwise ps) hrot with ⟨hle, h⟩ | h
    · exact Or.inl ⟨hle, fun z hz => h z (hperm.mem_iff.mpr hz)⟩
    · exact Or.inr fun z hz => h z (hperm.mem_iff.mpr hz)
  have hside : ∀ z ∈ ps, 0 ≤ (q.sub p).cross (z.sub p) := fun z hz =>
    cross_nonneg_of_isNext hlen hnodup hvertex hp hq hpq hnext hz
  -- `r` is not on the right of the way to `q`, and not on its line either, where no third vertex is
  refine ⟨lt_of_le_of_ne ?_ fun hzero => ?_, hside⟩
  · have h := hside r hr
    unfold Point.cross Point.sub at h ⊢
    linarith
  · refine cross_ne_zero (hvertex p hp) (hvertex q hq) (hvertex r hr) hpq hpr hqr ?_
    unfold Point.cross Point.sub at hzero ⊢
    linarith

/-- A pentagon, in no particular order. -/
def pentagon : List (Point ℚ) := [⟨4, 3⟩, ⟨0, 0⟩, ⟨1, 5⟩, ⟨4, 0⟩, ⟨0, 2⟩]

/-- Each corner is the farthest one in some direction. -/
theorem pentagon_vertices : ∀ p ∈ pentagon, IsHullVertex pentagon p := by
  have hmem : ∀ v w : Point ℚ, v ∈ pentagon →
      (∀ z ∈ pentagon, ¬(z.x = v.x ∧ z.y = v.y) → w.dot z < w.dot v) → IsHullVertex pentagon v :=
    fun v w hv h => isHullVertex_of_dot_lt (w := w) hv fun z hz hne =>
      h z hz fun heq => hne (Point.ext heq.1 heq.2)
  simp only [pentagon, List.forall_mem_cons]
  refine ⟨hmem _ ⟨1, 1⟩ (by simp [pentagon]) (by decide +kernel),
    hmem _ ⟨-1, -1⟩ (by simp [pentagon]) (by decide +kernel),
    hmem _ ⟨0, 1⟩ (by simp [pentagon]) (by decide +kernel),
    hmem _ ⟨1, -1⟩ (by simp [pentagon]) (by decide +kernel),
    hmem _ ⟨-4, 1⟩ (by simp [pentagon]) (by decide +kernel), by simp⟩

theorem pentagon_nodup : pentagon.Nodup := by
  norm_num [pentagon, Point.ext_iff]

/-- The five vertices of a pentagon, given in another order. -/
theorem sort_counterclockwise_pentagon : 3 ≤ pentagon.length ∧ pentagon.Nodup ∧
    (∀ p ∈ pentagon, IsHullVertex pentagon p) ∧ (Sweep.diamond.sort pentagon).Perm pentagon ∧
    ∀ p q r rest, (Sweep.diamond.sort pentagon).IsRotated (p :: q :: r :: rest) →
      0 < (q.sub p).cross (r.sub q) ∧ ∀ z ∈ pentagon, 0 ≤ (q.sub p).cross (z.sub p) :=
  ⟨by decide, pentagon_nodup, pentagon_vertices,
    sort_counterclockwise Sweep.diamond_exact (by decide) pentagon_nodup pentagon_vertices⟩

example : Sweep.diamond.sort pentagon = [⟨0, 0⟩, ⟨4, 0⟩, ⟨4, 3⟩, ⟨1, 5⟩, ⟨0, 2⟩] := by cbv

end CornerPoint

import Mathlib
import CornerPoint.Plane.Candidate
import CornerPoint.Proofs.Plane.Corner

/-!
# Candidates and corners

Candidates are computed by formulas; here they are characterised by where they lie. An
intercept is the point that a line and an axis share, a crossing is the point that two lines
share, and `candidates` lists these points and the origin, as far as they lie in the quadrant.

> `IsCorner.mem_candidates`: a corner of the region is a candidate, unless it lies only on
> rows whose determinants are too small for the tolerance.

The exception is real. Two rows with small coefficients count as parallel however steeply
their lines cross, and their crossing is then no candidate.
-/

namespace CornerPoint

open Constraint (nonnegX nonnegY)

/-! ## Pairs -/

/-- Pairs are taken in the order of the list. -/
theorem mem_pairs_iff {α : Type} {l : List α} {a b : α} :
    (a, b) ∈ pairs l ↔ [a, b].Sublist l := by
  induction l with
  | nil => simp [pairs]
  | cons e l ih =>
    rw [pairs, List.mem_append, ih, List.sublist_cons_iff, List.mem_map]
    constructor
    · intro h
      -- a pair begins with the head of the list, or stands in the tail
      rcases h with ⟨f, hf, heq⟩ | h
      · obtain ⟨rfl, rfl⟩ := Prod.mk.injEq .. ▸ heq
        exact Or.inr ⟨[f], rfl, List.singleton_sublist.mpr hf⟩
      · exact Or.inl h
    · intro h
      rcases h with h | ⟨r, heq, hr⟩
      · exact Or.inr h
      · obtain ⟨rfl, rfl⟩ := (List.cons.injEq ..).mp heq
        exact Or.inl ⟨b, List.singleton_sublist.mp hr, rfl⟩

/-- Both sides of a pair are from the list. -/
theorem mem_of_mem_pairs {α : Type} {l : List α} {a b : α} (h : (a, b) ∈ pairs l) :
    a ∈ l ∧ b ∈ l := by
  have hsub : [a, b] ⊆ l := (mem_pairs_iff.mp h).subset
  exact ⟨hsub (by simp), hsub (by simp)⟩

/-- Two different elements form a pair in the order in which they stand. -/
theorem mem_pairs_or {α : Type} {l : List α} {a b : α} (ha : a ∈ l) (hb : b ∈ l)
    (hne : a ≠ b) : (a, b) ∈ pairs l ∨ (b, a) ∈ pairs l := by
  induction l with
  | nil => cases ha
  | cons e l ih =>
    rw [pairs, List.mem_append, List.mem_append, List.mem_map, List.mem_map]
    rcases List.mem_cons.mp ha with rfl | ha'
    · rcases List.mem_cons.mp hb with rfl | hb'
      · exact absurd rfl hne
      · exact Or.inl (Or.inl ⟨b, hb', rfl⟩)
    · rcases List.mem_cons.mp hb with rfl | hb'
      · exact Or.inr (Or.inl ⟨a, ha', rfl⟩)
      · exact (ih ha' hb').imp Or.inr Or.inr

theorem pairs_map {α β : Type} (f : α → β) :
    ∀ l : List α, pairs (l.map f) = (pairs l).map (Prod.map f f)
  | [] => rfl
  | a :: l => by
    rw [List.map_cons, pairs, pairs, pairs_map f l, List.map_append, List.map_map, List.map_map]
    rfl

/-- The pair `x` comes before the pair `y`: its first place does, or the first places are the
same and its second one does. -/
def Earlier {n : ℕ} (x y : Fin n × Fin n) : Prop := x.1 < y.1 ∨ x.1 = y.1 ∧ x.2 < y.2

/-- The pairs of an ordered list are in order. -/
theorem pairs_earlier {n : ℕ} :
    ∀ {l : List (Fin n)}, l.Pairwise (· < ·) → (pairs l).Pairwise Earlier
  | [], _ => List.Pairwise.nil
  | i :: l, h => by
    obtain ⟨hi, hl⟩ := List.pairwise_cons.mp h
    rw [pairs, List.pairwise_append]
    refine ⟨?_, pairs_earlier hl, ?_⟩
    · rw [List.pairwise_map]
      exact hl.imp fun hlt => Or.inr ⟨rfl, hlt⟩
    · intro x hx y hy
      obtain ⟨j, _, rfl⟩ := List.mem_map.mp hx
      have hfirst : y.1 ∈ l := (mem_of_mem_pairs hy).1
      exact Or.inl (hi y.1 hfirst)

/-- So the pairs of indices are the increasing ones. -/
theorem mem_pairs_finRange {n : ℕ} {i j : Fin n} : (i, j) ∈ pairs (List.finRange n) ↔ i < j := by
  have hordered : ∀ {i j : Fin n}, (i, j) ∈ pairs (List.finRange n) → i < j := by
    intro i j h
    have hpair := (List.pairwise_lt_finRange n).sublist (mem_pairs_iff.mp h)
    exact List.pairwise_pair.mp hpair
  refine ⟨hordered, fun h => ?_⟩
  rcases mem_pairs_or (List.mem_finRange i) (List.mem_finRange j) h.ne with hij | hji
  · exact hij
  · exact absurd (hordered hji) h.not_gt

/-- The pairs of a list are those of its places. -/
theorem pairs_eq_map_finRange {α : Type} (l : List α) :
    pairs l = (pairs (List.finRange l.length)).map fun ij => (l[ij.1], l[ij.2]) := by
  have hmap := pairs_map l.get (List.finRange l.length)
  rw [List.map_get_finRange] at hmap
  exact hmap

/-! ## Where candidates lie -/

namespace Constraint

variable {c d : Constraint ℚ} {p : Point ℚ} {eps : ℚ}

theorem det_self (c : Constraint ℚ) : c.det c = 0 := by
  rw [det_rat, sub_self]

theorem det_comm (c d : Constraint ℚ) : c.det d = -d.det c := by
  rw [det_rat, det_rat]
  ring

@[simp] theorem nonnegX_det (d : Constraint ℚ) : nonnegX.det d = d.b := by
  rw [det_rat, nonnegX, one_mul, mul_zero, sub_zero]

@[simp] theorem nonnegY_det (d : Constraint ℚ) : nonnegY.det d = -d.a := by
  rw [det_rat, nonnegY, zero_mul, mul_one, zero_sub]

/-- The lines of the two quadrant rows are the axes. -/
theorem nonnegX_tight : nonnegX.Tight p ↔ p.x = 0 := by
  rw [Tight, nonnegX_lhsAt, nonnegX]

theorem nonnegY_tight : nonnegY.Tight p ↔ p.y = 0 := by
  rw [Tight, nonnegY_lhsAt, nonnegY]

/-- Cramer's rule: two lines that are not parallel have one point in common. -/
theorem tight_and_tight_iff (hdet : c.det d ≠ 0) : c.Tight p ∧ d.Tight p ↔
    Point.mk ((c.rhs * d.b - d.rhs * c.b) / c.det d)
      ((c.a * d.rhs - d.a * c.rhs) / c.det d) = p := by
  rw [Tight, Tight, lhsAt_rat, lhsAt_rat]
  constructor
  · intro h
    obtain ⟨hc, hd⟩ := h
    refine Point.ext ?_ ?_
    · show (c.rhs * d.b - d.rhs * c.b) / c.det d = p.x
      rw [div_eq_iff hdet, det_rat, ← hc, ← hd]
      ring
    · show (c.a * d.rhs - d.a * c.rhs) / c.det d = p.y
      rw [div_eq_iff hdet, det_rat, ← hc, ← hd]
      ring
  · intro h
    rw [← h]
    -- both lines pass through the point of the formula
    dsimp only
    rw [← mul_div_assoc, ← mul_div_assoc, ← mul_div_assoc, ← mul_div_assoc, ← add_div,
      ← add_div, div_eq_iff hdet, div_eq_iff hdet, det_rat]
    exact ⟨by ring, by ring⟩

/-- A line that is not parallel to the first axis has one point on it. -/
theorem tight_and_y_iff (ha : c.a ≠ 0) : c.Tight p ∧ p.y = 0 ↔ Point.mk (c.rhs / c.a) 0 = p := by
  have hdet : c.det nonnegY = c.a := by rw [det_comm, nonnegY_det, neg_neg]
  have hmeet : c.Tight p ∧ nonnegY.Tight p ↔ _ := tight_and_tight_iff (hdet.trans_ne ha)
  rw [nonnegY_tight, hdet] at hmeet
  simpa [nonnegY] using hmeet

/-- A line that is not parallel to the second axis has one point on it. -/
theorem tight_and_x_iff (hb : c.b ≠ 0) : c.Tight p ∧ p.x = 0 ↔ Point.mk 0 (c.rhs / c.b) = p := by
  have hdet : nonnegX.det c = c.b := nonnegX_det c
  have hmeet : nonnegX.Tight p ∧ c.Tight p ↔ _ := tight_and_tight_iff (hdet.trans_ne hb)
  rw [nonnegX_tight, hdet, and_comm] at hmeet
  simpa [nonnegX] using hmeet

/-- The x-intercept is where the line of the row meets that axis, as long as it is not parallel to
it. -/
theorem xIntercept_eq_some_iff : c.xIntercept = some p ↔
    c.a ≠ 0 ∧ (c.Tight p ∧ p.y = 0) ∧ p.inQuadrant = true := by
  unfold xIntercept
  by_cases ha : c.a = 0
  · rw [if_pos (beq_iff_eq.mpr ha)]
    exact ⟨fun h => absurd h (by simp), fun h => absurd ha h.1⟩
  · rw [if_neg (fun h => ha (beq_iff_eq.mp h)), Option.filter_eq_some_iff, Option.some.injEq,
      tight_and_y_iff ha]
    exact ⟨fun h => ⟨ha, h⟩, fun h => h.2⟩

/-- Likewise on the other axis. -/
theorem yIntercept_eq_some_iff : c.yIntercept = some p ↔
    c.b ≠ 0 ∧ (c.Tight p ∧ p.x = 0) ∧ p.inQuadrant = true := by
  unfold yIntercept
  by_cases hb : c.b = 0
  · rw [if_pos (beq_iff_eq.mpr hb)]
    exact ⟨fun h => absurd h (by simp), fun h => absurd hb h.1⟩
  · rw [if_neg (fun h => hb (beq_iff_eq.mp h)), Option.filter_eq_some_iff, Option.some.injEq,
      tight_and_x_iff hb]
    exact ⟨fun h => ⟨hb, h⟩, fun h => h.2⟩

/-- The crossing of two lines is the one point on both. -/
theorem crossing_eq_some_iff (heps : 0 < eps) : c.crossing eps d = some p ↔
    eps ≤ |c.det d| ∧ c.Tight p ∧ d.Tight p := by
  unfold crossing
  rw [Scalar.abs_rat]
  by_cases hdet : |c.det d| < eps
  · rw [if_pos hdet]
    exact ⟨fun h => absurd h (by simp), fun h => absurd hdet (not_lt.mpr h.1)⟩
  · rw [if_neg hdet, Option.some.injEq]
    rw [not_lt] at hdet
    rw [tight_and_tight_iff (abs_pos.mp (heps.trans_le hdet))]
    exact ⟨fun h => ⟨hdet, h⟩, fun h => h.2⟩

/-- An intercept may be found on both axes, which is the origin. -/
theorem mem_intercepts_iff : p ∈ c.intercepts ↔
    p.inQuadrant = true ∧ c.Tight p ∧ (c.a ≠ 0 ∧ p.y = 0 ∨ c.b ≠ 0 ∧ p.x = 0) := by
  rw [intercepts, List.mem_append, Option.mem_toList, Option.mem_toList,
    xIntercept_eq_some_iff, yIntercept_eq_some_iff]
  constructor
  · intro h
    rcases h with ⟨ha, ⟨htight, hy⟩, hquad⟩ | ⟨hb, ⟨htight, hx⟩, hquad⟩
    · exact ⟨hquad, htight, Or.inl ⟨ha, hy⟩⟩
    · exact ⟨hquad, htight, Or.inr ⟨hb, hx⟩⟩
  · intro h
    rcases h with ⟨hquad, htight, ⟨ha, hy⟩ | ⟨hb, hx⟩⟩
    · exact Or.inl ⟨ha, ⟨htight, hy⟩, hquad⟩
    · exact Or.inr ⟨hb, ⟨htight, hx⟩, hquad⟩

end Constraint

section Candidates

variable {cs : List (Constraint ℚ)} {eps : ℚ} {p v : Point ℚ}

/-- The point lies on the line of the row and on an axis that is not parallel to it. -/
def Constraint.MeetsAxis (c : Constraint ℚ) (p : Point ℚ) : Prop :=
  c.Tight p ∧ (c.a ≠ 0 ∧ p.y = 0 ∨ c.b ≠ 0 ∧ p.x = 0)

/-- Degenerate rows are left out, but they would meet no axis anyway. -/
theorem mem_rowCandidates_iff :
    (∃ c ∈ cs.filter (!·.isDegenerate), p ∈ c.intercepts) ↔
      p.inQuadrant = true ∧ ∃ c ∈ cs, c.MeetsAxis p := by
  constructor
  · intro h
    obtain ⟨c, hc, hp⟩ := h
    obtain ⟨hquad, hmeets⟩ := Constraint.mem_intercepts_iff.mp hp
    exact ⟨hquad, c, (List.mem_filter.mp hc).1, hmeets⟩
  · intro h
    obtain ⟨hquad, c, hc, hmeets⟩ := h
    refine ⟨c, List.mem_filter.mpr ⟨hc, ?_⟩, Constraint.mem_intercepts_iff.mpr ⟨hquad, hmeets⟩⟩
    rw [Bool.not_eq_true', ← Bool.not_eq_true, Constraint.isDegenerate_iff]
    intro hzero
    rcases hmeets.2 with h | h
    · exact h.1 hzero.1
    · exact h.1 hzero.2

/-- The crossings that become candidates: rows whose determinant the tolerance can see. -/
theorem mem_pairCandidates_iff (heps : 0 < eps) :
    (∃ cd ∈ pairs cs, (cd.1.crossing eps cd.2).filter Point.inQuadrant = some p) ↔
      p.inQuadrant = true ∧
        ∃ c d, (c, d) ∈ pairs cs ∧ eps ≤ |c.det d| ∧ c.Tight p ∧ d.Tight p := by
  constructor
  · intro h
    obtain ⟨⟨c, d⟩, hcd, hp⟩ := h
    obtain ⟨hcross, hquad⟩ := Option.filter_eq_some_iff.mp hp
    exact ⟨hquad, c, d, hcd, (Constraint.crossing_eq_some_iff heps).mp hcross⟩
  · intro h
    obtain ⟨hquad, c, d, hcd, hcross⟩ := h
    exact ⟨(c, d), hcd, Option.filter_eq_some_iff.mpr
      ⟨(Constraint.crossing_eq_some_iff heps).mpr hcross, hquad⟩⟩

/-- **Where candidates lie.** A candidate lies in the quadrant, and it is the origin, the
meeting point of a row and an axis that are not parallel, or the meeting point of two rows
whose determinant reaches the tolerance. -/
theorem mem_candidates_iff (heps : 0 < eps) : p ∈ candidates cs eps ↔ p.inQuadrant = true ∧
    (p = Point.origin ∨ (∃ c ∈ cs, c.MeetsAxis p)
      ∨ ∃ c d, (c, d) ∈ pairs cs ∧ eps ≤ |c.det d| ∧ c.Tight p ∧ d.Tight p) := by
  have horigin : p = Point.origin → p.inQuadrant = true := by
    intro h
    rw [h]
    exact Point.inQuadrant_iff.mpr ⟨le_refl _, le_refl _⟩
  rw [candidates, List.cons_append, List.mem_cons, List.mem_append, List.mem_flatMap,
    List.mem_filterMap, mem_rowCandidates_iff, mem_pairCandidates_iff heps, and_or_left,
    and_or_left, and_iff_right_of_imp horigin]

/-! ## Corners are candidates -/

theorem Constraint.MeetsAxis.of_nonnegX {c : Constraint ℚ} (hc : c.Tight v)
    (hx : nonnegX.Tight v) (hdet : nonnegX.det c ≠ 0) : c.MeetsAxis v :=
  ⟨hc, Or.inr ⟨Constraint.nonnegX_det c ▸ hdet, Constraint.nonnegX_tight.mp hx⟩⟩

theorem Constraint.MeetsAxis.of_nonnegY {c : Constraint ℚ} (hc : c.Tight v)
    (hy : nonnegY.Tight v) (hdet : nonnegY.det c ≠ 0) : c.MeetsAxis v := by
  rw [Constraint.nonnegY_det, neg_ne_zero] at hdet
  exact ⟨hc, Or.inl ⟨hdet, Constraint.nonnegY_tight.mp hy⟩⟩

/-- Two walls through a corner, sorted by how many of them are axes. -/
theorem IsCorner.cases (hv : IsCorner cs v) :
    v = Point.origin ∨ (∃ c ∈ cs, c.MeetsAxis v)
      ∨ ∃ c d, (c, d) ∈ pairs cs ∧ c.det d ≠ 0 ∧ c.Tight v ∧ d.Tight v := by
  obtain ⟨_, c, hc, d, hd, hctight, hdtight, hdet⟩ := hv
  have horigin : nonnegX.Tight v → nonnegY.Tight v → v = Point.origin := fun hx hy =>
    Point.ext (Constraint.nonnegX_tight.mp hx) (Constraint.nonnegY_tight.mp hy)
  have hdet' : d.det c ≠ 0 := by
    rw [Constraint.det_comm]
    exact neg_ne_zero.mpr hdet
  rcases mem_walls.mp hc with rfl | rfl | hc
  · rcases mem_walls.mp hd with rfl | rfl | hd
    · exact absurd (Constraint.det_self _) hdet
    · exact Or.inl (horigin hctight hdtight)
    · exact Or.inr (Or.inl ⟨d, hd, .of_nonnegX hdtight hctight hdet⟩)
  · rcases mem_walls.mp hd with rfl | rfl | hd
    · exact Or.inl (horigin hdtight hctight)
    · exact absurd (Constraint.det_self _) hdet
    · exact Or.inr (Or.inl ⟨d, hd, .of_nonnegY hdtight hctight hdet⟩)
  · rcases mem_walls.mp hd with rfl | rfl | hd
    · exact Or.inr (Or.inl ⟨c, hc, .of_nonnegX hctight hdtight hdet'⟩)
    · exact Or.inr (Or.inl ⟨c, hc, .of_nonnegY hctight hdtight hdet'⟩)
    · have hne : c ≠ d := fun heq => hdet (heq ▸ Constraint.det_self c)
      -- the pair is listed in the order of the rows, which need not be that of the walls
      rcases mem_pairs_or hc hd hne with h | h
      · exact Or.inr (Or.inr ⟨c, d, h, hdet, hctight, hdtight⟩)
      · exact Or.inr (Or.inr ⟨d, c, h, hdet', hdtight, hctight⟩)

/-- **A corner is a candidate,** or else it is the crossing of two rows whose determinant is
not zero but below the tolerance. -/
theorem IsCorner.mem_candidates (heps : 0 < eps) (hv : IsCorner cs v) :
    v ∈ candidates cs eps
      ∨ ∃ c d, (c, d) ∈ pairs cs ∧ c.det d ≠ 0 ∧ |c.det d| < eps ∧ c.Tight v ∧ d.Tight v := by
  have hquad : v.inQuadrant = true := Point.inQuadrant_iff.mpr hv.1.1
  rcases hv.cases with h | h | ⟨c, d, hcd, hdet, hc, hd⟩
  · exact Or.inl ((mem_candidates_iff heps).mpr ⟨hquad, Or.inl h⟩)
  · exact Or.inl ((mem_candidates_iff heps).mpr ⟨hquad, Or.inr (Or.inl h)⟩)
  · rcases lt_or_ge |c.det d| eps with hsmall | hlarge
    · exact Or.inr ⟨c, d, hcd, hdet, hsmall, hc, hd⟩
    · exact Or.inl ((mem_candidates_iff heps).mpr
        ⟨hquad, Or.inr (Or.inr ⟨c, d, hcd, hlarge, hc, hd⟩)⟩)

end Candidates

end CornerPoint

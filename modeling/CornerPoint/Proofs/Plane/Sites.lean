import Mathlib
import CornerPoint.Proofs.Plane.Candidates

/-!
# Where candidates come from

A candidate comes from a site: the two axes, a row and one of the axes, or two rows, in the order
in which they stand. `mem_candidates_iff` says which points there are candidates for; here they
are counted, as a point may be a candidate more than once, and put in order.

> `candidates_enumerated`: every site whose lines cross in the quadrant contributes their one
> common point, once, and no other site contributes anything. The points are in the order of
> their sites: the origin, the points on the axes by rows, the crossings of rows by pairs.

Sites are compared by `Site.Before`, which knows nothing of how the candidates are generated, and
a list of sites in this order is determined by its members.
-/

namespace CornerPoint

open Constraint (nonnegX nonnegY)

/-- Two lines that may meet in a candidate. Rows are given by their places in a list. -/
inductive Site (n : ℕ) where
  | axes
  /-- The row and the axis of the first variable. -/
  | first (i : Fin n)
  /-- The row and the axis of the second variable. -/
  | second (i : Fin n)
  | rows (i j : Fin n)

namespace Site

variable {n : ℕ} {cs : List (Constraint ℚ)} {eps : ℚ} {p : Point ℚ}

/-- The order of sites: the axes, then the sites on axes by rows, the first axis before the second,
then the pairs of rows, by the first row and then by the second. -/
def Before : Site n → Site n → Prop
  | axes, axes => False
  | axes, _ => True
  | first i, first j => i < j
  | first i, second j => i ≤ j
  | second i, first j => i < j
  | second i, second j => i < j
  | first _, rows _ _ => True
  | second _, rows _ _ => True
  | rows i j, rows k l => Earlier (i, j) (k, l)
  | _, _ => False

/-- No site stands before itself. -/
theorem before_irrefl : ∀ s : Site n, ¬s.Before s
  | axes => id
  | first i => lt_irrefl i
  | second i => lt_irrefl i
  | rows i j => fun h => h.elim (lt_irrefl i) fun h => lt_irrefl j h.2

/-- Two rows of a site stand in the order of the list. -/
def Ordered : Site n → Prop
  | rows i j => i < j
  | _ => True

/-- The two lines of a site. -/
def lines (cs : List (Constraint ℚ)) : Site cs.length → Constraint ℚ × Constraint ℚ
  | axes => (nonnegX, nonnegY)
  | first i => (cs[i], nonnegY)
  | second i => (cs[i], nonnegX)
  | rows i j => (cs[i], cs[j])

/-- The lines of the site count as crossing: a row is not parallel to the axis, and two rows have a
determinant that reaches the tolerance. -/
def Crosses (eps : ℚ) (cs : List (Constraint ℚ)) : Site cs.length → Prop
  | axes => True
  | first i => cs[i].a ≠ 0
  | second i => cs[i].b ≠ 0
  | rows i j => eps ≤ |cs[i].det cs[j]|

/-- The point lies on both lines of the site. -/
def Marks (cs : List (Constraint ℚ)) (s : Site cs.length) (p : Point ℚ) : Prop :=
  (s.lines cs).1.Tight p ∧ (s.lines cs).2.Tight p

/-! ## Points of sites -/

/-- Lines that cross are not parallel. -/
theorem det_lines_ne_zero (heps : 0 < eps) {s : Site cs.length} (h : s.Crosses eps cs) :
    (s.lines cs).1.det (s.lines cs).2 ≠ 0 := by
  cases s with
  | axes =>
    show nonnegX.det nonnegY ≠ 0
    rw [Constraint.nonnegX_det]
    exact one_ne_zero
  | first i =>
    show cs[i].det nonnegY ≠ 0
    rw [Constraint.det_comm, Constraint.nonnegY_det, neg_neg]
    exact h
  | second i =>
    show cs[i].det nonnegX ≠ 0
    rw [Constraint.det_comm, Constraint.nonnegX_det]
    exact neg_ne_zero.mpr h
  | rows i j => exact abs_pos.mp (heps.trans_le h)

/-- **Lines that cross have one point in common.** -/
theorem existsUnique_marks (heps : 0 < eps) {s : Site cs.length} (h : s.Crosses eps cs) :
    ∃! p, s.Marks cs p := by
  have hmeet := fun p => Constraint.tight_and_tight_iff (p := p) (det_lines_ne_zero heps h)
  exact ⟨_, (hmeet _).mpr rfl, fun p hp => ((hmeet p).mp hp).symm⟩

/-- The candidate that a site contributes. -/
def point? (eps : ℚ) (cs : List (Constraint ℚ)) : Site cs.length → Option (Point ℚ)
  | axes => some Point.origin
  | first i => cs[i].xIntercept
  | second i => cs[i].yIntercept
  | rows i j => (cs[i].crossing eps cs[j]).filter Point.inQuadrant

/-- What is computed at a site is the point that it marks, if that is in the quadrant. -/
theorem point?_eq_some_iff (heps : 0 < eps) {s : Site cs.length} :
    s.point? eps cs = some p ↔ s.Crosses eps cs ∧ s.Marks cs p ∧ 0 ≤ p.x ∧ 0 ≤ p.y := by
  cases s with
  | axes =>
    rw [point?, Option.some.injEq, Crosses, true_and, Marks, lines, Constraint.nonnegX_tight,
      Constraint.nonnegY_tight]
    constructor
    · intro h
      rw [← h]
      exact ⟨⟨rfl, rfl⟩, le_refl _, le_refl _⟩
    · intro h
      exact Point.ext h.1.1.symm h.1.2.symm
  | first i =>
    rw [point?, Constraint.xIntercept_eq_some_iff, Point.inQuadrant_iff, Crosses, Marks, lines,
      Constraint.nonnegY_tight]
  | second i =>
    rw [point?, Constraint.yIntercept_eq_some_iff, Point.inQuadrant_iff, Crosses, Marks, lines,
      Constraint.nonnegX_tight]
  | rows i j =>
    rw [point?, Option.filter_eq_some_iff, Constraint.crossing_eq_some_iff heps,
      Point.inQuadrant_iff, Crosses, Marks, lines, and_assoc]

/-! ## The list of sites -/

/-- All sites with their rows in order. -/
def all (n : ℕ) : List (Site n) :=
  axes :: (List.finRange n).flatMap (fun i => [first i, second i])
    ++ (pairs (List.finRange n)).map fun ij => rows ij.1 ij.2

/-- No site is left out. Two rows are taken in one order only. -/
theorem mem_all_iff {s : Site n} : s ∈ all n ↔ s.Ordered := by
  rw [all, List.cons_append, List.mem_cons, List.mem_append, List.mem_flatMap, List.mem_map]
  cases s with
  | axes => simp [Ordered]
  | first i => simp [Ordered]
  | second i => simp [Ordered]
  | rows i j => simp [Ordered, mem_pairs_finRange]

/-- The list of all sites is in order. -/
theorem all_pairwise (n : ℕ) : (all n).Pairwise Before := by
  -- on the axes the sites go row by row, and for each row along the first axis before the second
  have haxis : ((List.finRange n).flatMap fun i => [first i, second i]).Pairwise Before := by
    refine List.pairwise_flatMap.mpr ⟨fun i _ => List.pairwise_pair.mpr (le_refl i), ?_⟩
    refine (List.pairwise_lt_finRange n).imp fun {i j} hij => ?_
    simp only [List.forall_mem_cons, List.not_mem_nil]
    exact ⟨⟨hij, hij.le, by simp⟩, ⟨hij, hij, by simp⟩, by simp⟩
  have hrows : ((pairs (List.finRange n)).map fun ij => rows ij.1 ij.2).Pairwise Before :=
    List.pairwise_map.mpr (pairs_earlier (List.pairwise_lt_finRange n))
  -- crossings of rows come behind all sites on the axes
  have hmem : ∀ s ∈ (List.finRange n).flatMap (fun i => [first i, second i]),
      axes.Before s ∧ ∀ i j, s.Before (rows i j) := by
    intro s hs
    obtain ⟨i, _, hi⟩ := List.mem_flatMap.mp hs
    rw [List.mem_pair] at hi
    rcases hi with rfl | rfl
    · exact ⟨trivial, fun _ _ => trivial⟩
    · exact ⟨trivial, fun _ _ => trivial⟩
  refine List.pairwise_append.mpr
    ⟨List.pairwise_cons.mpr ⟨fun s hs => (hmem s hs).1, haxis⟩, hrows, ?_⟩
  intro s hs t ht
  obtain ⟨⟨i, j⟩, _, rfl⟩ := List.mem_map.mp ht
  rcases List.mem_cons.mp hs with rfl | hs
  · exact trivial
  · exact (hmem s hs).2 i j

end Site

/-- Rows without variables are left out, but they would meet no axis anyway. -/
theorem flatMap_intercepts_filter : ∀ cs : List (Constraint ℚ),
    (cs.filter (!·.isDegenerate)).flatMap Constraint.intercepts = cs.flatMap Constraint.intercepts
  | [] => rfl
  | c :: cs => by
    cases h : c.isDegenerate with
    | false =>
      rw [List.filter_cons_of_pos (by rw [h]; rfl), List.flatMap_cons, List.flatMap_cons,
        flatMap_intercepts_filter cs]
    | true =>
      obtain ⟨ha, hb⟩ := Constraint.isDegenerate_iff.mp h
      have hnone : c.intercepts = [] := List.eq_nil_iff_forall_not_mem.mpr fun p hp => by
        rcases (Constraint.mem_intercepts_iff.mp hp).2.2 with h | h
        · exact h.1 ha
        · exact h.1 hb
      rw [List.filter_cons_of_neg (by rw [h]; decide), List.flatMap_cons, hnone, List.nil_append,
        flatMap_intercepts_filter cs]

/-- **Candidates are the points of the sites in their order.** -/
theorem candidates_eq_filterMap (eps : ℚ) (cs : List (Constraint ℚ)) :
    candidates cs eps = (Site.all cs.length).filterMap (Site.point? eps cs) := by
  have hrow : ∀ i : Fin cs.length,
      [Site.first i, Site.second i].filterMap (Site.point? eps cs) = cs[i].intercepts := fun i => by
    rw [Constraint.intercepts, List.filterMap_cons, List.filterMap_cons]
    simp only [Site.point?]
    cases cs[i].xIntercept <;> cases cs[i].yIntercept <;> rfl
  have haxis : cs.flatMap Constraint.intercepts = ((List.finRange cs.length).flatMap
      fun i => [Site.first i, Site.second i]).filterMap (Site.point? eps cs) := by
    have hmap := List.flatMap_map cs.get Constraint.intercepts (List.finRange cs.length)
    rw [List.map_get_finRange] at hmap
    rw [List.filterMap_flatMap, hmap]
    simp only [hrow]
    rfl
  rw [candidates, flatMap_intercepts_filter, haxis, pairs_eq_map_finRange cs, Site.all,
    List.filterMap_append, List.filterMap_cons, List.filterMap_map, List.filterMap_map]
  rfl

/-! ## The candidates -/

/-- What a partial function yields on a list, beside the elements that it is defined for. -/
theorem forall₂_filterMap {α β : Type} (f : α → Option β) : ∀ l : List α,
    List.Forall₂ (fun a b => f a = some b) (l.filter fun a => (f a).isSome) (l.filterMap f)
  | [] => .nil
  | a :: l => by
    cases h : f a with
    | none =>
      rw [List.filter_cons_of_neg (by simp [h]), List.filterMap_cons_none h]
      exact forall₂_filterMap f l
    | some b =>
      rw [List.filter_cons_of_pos (by rw [h]; rfl), List.filterMap_cons_some h]
      exact .cons h (forall₂_filterMap f l)

/-- What two entries have in common can be said of their places. -/
theorem exists_mem_pairs_iff {α : Type} {l : List α} {P : α → α → Prop} :
    (∃ a b, (a, b) ∈ pairs l ∧ P a b) ↔ ∃ i j : Fin l.length, i < j ∧ P l[i] l[j] := by
  rw [pairs_eq_map_finRange]
  constructor
  · intro h
    obtain ⟨a, b, hab, hP⟩ := h
    obtain ⟨⟨i, j⟩, hij, heq⟩ := List.mem_map.mp hab
    obtain ⟨rfl, rfl⟩ := Prod.mk.injEq .. ▸ heq
    exact ⟨i, j, mem_pairs_finRange.mp hij, hP⟩
  · intro h
    obtain ⟨i, j, hij, hP⟩ := h
    exact ⟨l[i], l[j], List.mem_map.mpr ⟨(i, j), mem_pairs_finRange.mpr hij, rfl⟩, hP⟩

/-- The points that are candidates, with the rows given by their places. -/
theorem mem_candidates_iff_places {eps : ℚ} (heps : 0 < eps) {cs : List (Constraint ℚ)}
    {p : Point ℚ} : p ∈ candidates cs eps ↔ (0 ≤ p.x ∧ 0 ≤ p.y) ∧
      (p = Point.origin ∨ (∃ i : Fin cs.length, cs[i].MeetsAxis p) ∨
        ∃ i j : Fin cs.length, i < j ∧
          eps ≤ |cs[i].det cs[j]| ∧ cs[i].Tight p ∧ cs[j].Tight p) := by
  rw [mem_candidates_iff heps, Point.inQuadrant_iff, exists_mem_pairs_iff, List.exists_mem_iff_get]
  rfl

/-- **The candidates, all of them and in order.** A point is a candidate if it lies in the quadrant
and is the origin, or lies on a row and an axis that are not parallel, or on two rows whose
determinant reaches the tolerance. Lines that cross have one point in common. The list of
candidates runs through the sites whose common point lies in the quadrant, each of them once and
in their order, and gives that point for each. Rows without variables need not be excluded; they
cross nothing. -/
theorem candidates_enumerated {eps : ℚ} (heps : 0 < eps) (cs : List (Constraint ℚ)) :
    (∀ p, p ∈ candidates cs eps ↔ (0 ≤ p.x ∧ 0 ≤ p.y) ∧
      (p = Point.origin ∨ (∃ i : Fin cs.length, cs[i].MeetsAxis p) ∨
        ∃ i j : Fin cs.length, i < j ∧ eps ≤ |cs[i].det cs[j]| ∧ cs[i].Tight p ∧ cs[j].Tight p)) ∧
    (∀ s : Site cs.length, s.Crosses eps cs → ∃! p, s.Marks cs p) ∧
    ∃ sites : List (Site cs.length), sites.Pairwise Site.Before ∧ sites.Nodup ∧
      (∀ s, s ∈ sites ↔
        s.Ordered ∧ s.Crosses eps cs ∧ ∃ p, s.Marks cs p ∧ 0 ≤ p.x ∧ 0 ≤ p.y) ∧
      List.Forall₂ (fun s p => s.Marks cs p) sites (candidates cs eps) := by
  have hsorted : ((Site.all cs.length).filter fun s => (s.point? eps cs).isSome).Pairwise
      Site.Before := (Site.all_pairwise _).filter _
  -- the sites of the list are those at which a point is computed
  refine ⟨fun p => mem_candidates_iff_places heps, fun s => Site.existsUnique_marks heps, _,
    hsorted, hsorted.imp fun {s t} h heq => ?_, fun s => ?_, ?_⟩
  · rw [heq] at h
    exact Site.before_irrefl t h
  · rw [List.mem_filter, Site.mem_all_iff, Option.isSome_iff_exists]
    simp only [Site.point?_eq_some_iff heps, exists_and_left]
  · rw [candidates_eq_filterMap]
    exact (forall₂_filterMap (Site.point? eps cs) _).imp fun s p h =>
      ((Site.point?_eq_some_iff heps).mp h).2.1

/-- Three rows that cross in the quadrant, one of which meets the second axis outside of it. -/
def crossroads : List (Constraint ℚ) :=
  [⟨"total", 1, 1, .le, 10⟩, ⟨"weight", 2, 1, .le, 15⟩, ⟨"lead", 1, -1, .ge, 2⟩]

/-- The first row and the last one. -/
def crossroadsSite : Site crossroads.length := .rows ⟨0, by decide⟩ ⟨2, by decide⟩

theorem crossroadsSite_crosses : crossroadsSite.Crosses (1 / 1000) crossroads := by
  show (1 / 1000 : ℚ) ≤ |Constraint.det ⟨"total", 1, 1, .le, 10⟩ ⟨"lead", 1, -1, .ge, 2⟩|
  norm_num [Constraint.det_rat]

/-- Three rows that cross each other and the axes. No candidate stands twice in the list. -/
theorem candidates_enumerated_crossroads : (0 : ℚ) < 1 / 1000 ∧
    candidates crossroads (1 / 1000) = [⟨0, 0⟩, ⟨10, 0⟩, ⟨0, 10⟩, ⟨15 / 2, 0⟩, ⟨0, 15⟩, ⟨2, 0⟩,
      ⟨5, 5⟩, ⟨6, 4⟩, ⟨17 / 3, 11 / 3⟩] ∧
    crossroadsSite.Crosses (1 / 1000) crossroads ∧ (∃! p, crossroadsSite.Marks crossroads p) ∧
    ∃ sites : List (Site crossroads.length), sites.Pairwise Site.Before ∧ sites.Nodup ∧
      (∀ s, s ∈ sites ↔ s.Ordered ∧ s.Crosses (1 / 1000) crossroads ∧
        ∃ p, s.Marks crossroads p ∧ 0 ≤ p.x ∧ 0 ≤ p.y) ∧
      List.Forall₂ (fun s p => s.Marks crossroads p) sites (candidates crossroads (1 / 1000)) := by
  have heps : (0 : ℚ) < 1 / 1000 := by norm_num
  obtain ⟨_, hunique, hsites⟩ := candidates_enumerated heps crossroads
  exact ⟨heps, by cbv, crossroadsSite_crosses, hunique _ crossroadsSite_crosses, hsites⟩

end CornerPoint

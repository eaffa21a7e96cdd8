import Mathlib
import CornerPoint.Proofs.Program.Conflict

/-!
# Local causes of infeasibility

A program without a feasible corner is explained as far as one row or two parallel rows are to
blame. This file says that both searches are exact:

> `conflicts_exact`: a row is reported alone exactly if every point of the quadrant violates it
> by more than the tolerance, and two parallel rows are reported together exactly if the bounds
> that they put on one form miss each other by more than the tolerance.

For a single row the question is about infinitely many points. Over the quadrant its form takes
every value, unless its coefficients agree in sign, and then it takes the values on one side of
zero (`exists_lhsAt_eq`). For two rows, what one of them says about the form is the set of values
that the form takes where the row holds (`values`). The second row's form is a multiple of the
first row's, so its set is a ray or a point as well (`values_of_det_eq_zero`), and tightening
bounds by a relation adds exactly the bounds of that ray (`lowers_tighten`, `uppers_tighten`).
-/

namespace CornerPoint

/-! ## What bounds say -/

namespace Relation

variable {rel : Relation} {x r k : ℚ}

/-- Dividing by a number that is not zero turns the relation around if the number is negative. -/
theorem holds_mul_iff (hk : k ≠ 0) :
    rel.Holds (k * x) r ↔ (if 0 < k then rel else rel.flip).Holds x (r / k) := by
  rcases hk.lt_or_gt with hneg | hpos
  · rw [if_neg hneg.not_gt]
    cases rel with
    | le => exact (div_le_iff_of_neg' hneg).symm
    | ge => exact (le_div_iff_of_neg' hneg).symm
    | eq => exact (eq_div_iff hk).trans (by rw [mul_comm]; rfl) |>.symm
  · rw [if_pos hpos]
    cases rel with
    | le => exact (le_div_iff₀' hpos).symm
    | ge => exact (div_le_iff₀' hpos).symm
    | eq => exact (eq_div_iff hk).trans (by rw [mul_comm]; rfl) |>.symm

end Relation

namespace Bounds

variable {b : Bounds ℚ} {rel : Relation} {l u r eps : ℚ}

/-- The numbers that are no greater than the lower bound, if there is one. -/
def lowers (b : Bounds ℚ) : Set ℚ := {l | ∃ m ∈ b.lower, l ≤ m}

/-- The numbers that are no smaller than the upper bound, if there is one. -/
def uppers (b : Bounds ℚ) : Set ℚ := {u | ∃ m ∈ b.upper, m ≤ u}

theorem lowers_free : free.lowers = ∅ := by simp [lowers, free]

theorem uppers_free : free.uppers = ∅ := by simp [uppers, free]

/-- A tightened lower bound is the old one or the new one. -/
theorem le_greater_iff {o : Option ℚ} : l ≤ greater o r ↔ (∃ m ∈ o, l ≤ m) ∨ l ≤ r := by
  cases o with
  | none => simp [greater]
  | some m =>
    simp only [greater, Option.mem_some_iff, exists_eq_left']
    split
    next h => exact ⟨Or.inr, fun hl => hl.elim (fun hm => hm.trans h.le) id⟩
    next h => exact ⟨Or.inl, fun hl => hl.elim id fun hr => hr.trans (not_lt.mp h)⟩

/-- And so is a tightened upper bound. -/
theorem smaller_le_iff {o : Option ℚ} : smaller o r ≤ u ↔ (∃ m ∈ o, m ≤ u) ∨ r ≤ u := by
  cases o with
  | none => simp [smaller]
  | some m =>
    simp only [smaller, Option.mem_some_iff, exists_eq_left']
    split
    next h => exact ⟨Or.inr, fun hu => hu.elim (fun hm => h.le.trans hm) id⟩
    next h => exact ⟨Or.inl, fun hu => hu.elim id fun hr => (not_lt.mp h).trans hr⟩

/-- Tightening adds the lower bounds of what the relation allows. -/
theorem lowers_tighten :
    (b.tighten rel r).lowers = b.lowers ∪ lowerBounds {x | rel.Holds x r} := by
  have hnew : ∀ l, (∃ m ∈ some (greater b.lower r), l ≤ m) ↔ l ∈ b.lowers ∨ l ≤ r := fun l => by
    simp only [Option.mem_some_iff, exists_eq_left', le_greater_iff]
    rfl
  cases rel with
  | le =>
    have hnone : lowerBounds (Set.Iic r) = ∅ :=
      Set.not_nonempty_iff_eq_empty.mp (not_bddBelow_Iic r)
    exact (Set.union_empty _).symm.trans (congrArg (b.lowers ∪ ·) hnone.symm)
  | ge =>
    have hray : lowerBounds (Set.Ici r) = Set.Iic r := lowerBounds_Ici
    exact (Set.ext hnew).trans (congrArg (b.lowers ∪ ·) hray.symm)
  | eq =>
    have hpoint : lowerBounds {r} = Set.Iic r := lowerBounds_singleton
    exact (Set.ext hnew).trans (congrArg (b.lowers ∪ ·) hpoint.symm)

/-- Tightening adds the upper bounds of what the relation allows. -/
theorem uppers_tighten :
    (b.tighten rel r).uppers = b.uppers ∪ upperBounds {x | rel.Holds x r} := by
  have hnew : ∀ u, (∃ m ∈ some (smaller b.upper r), m ≤ u) ↔ u ∈ b.uppers ∨ r ≤ u := fun u => by
    simp only [Option.mem_some_iff, exists_eq_left', smaller_le_iff]
    rfl
  cases rel with
  | ge =>
    have hnone : upperBounds (Set.Ici r) = ∅ :=
      Set.not_nonempty_iff_eq_empty.mp (not_bddAbove_Ici r)
    exact (Set.union_empty _).symm.trans (congrArg (b.uppers ∪ ·) hnone.symm)
  | le =>
    have hray : upperBounds (Set.Iic r) = Set.Ici r := upperBounds_Iic
    exact (Set.ext hnew).trans (congrArg (b.uppers ∪ ·) hray.symm)
  | eq =>
    have hpoint : upperBounds {r} = Set.Ici r := upperBounds_singleton
    exact (Set.ext hnew).trans (congrArg (b.uppers ∪ ·) hpoint.symm)

/-- The lower bound of a form is the greatest number that is known to be below it. -/
theorem isGreatest_lowers_iff : IsGreatest b.lowers l ↔ b.lower = some l := by
  constructor
  · rintro ⟨⟨m, hm, hle⟩, hgreatest⟩
    rw [Option.mem_def.mp hm, hle.antisymm (hgreatest ⟨m, hm, le_rfl⟩)]
  · intro h
    refine ⟨⟨l, h, le_rfl⟩, ?_⟩
    rintro l' ⟨m, hm, hle⟩
    obtain rfl : l = m := Option.some.inj (h.symm.trans hm)
    exact hle

/-- And its upper bound is the least number above it. -/
theorem isLeast_uppers_iff : IsLeast b.uppers u ↔ b.upper = some u := by
  constructor
  · rintro ⟨⟨m, hm, hle⟩, hleast⟩
    rw [Option.mem_def.mp hm, hle.antisymm' (hleast ⟨m, hm, le_rfl⟩)]
  · intro h
    refine ⟨⟨u, h, le_rfl⟩, ?_⟩
    rintro u' ⟨m, hm, hle⟩
    obtain rfl : u = m := Option.some.inj (h.symm.trans hm)
    exact hle

/-- Bounds exclude each other if the greatest lower bound exceeds the least upper bound by more
than the tolerance. -/
theorem exclude_iff : b.exclude eps = true ↔
    ∃ l u, IsGreatest b.lowers l ∧ IsLeast b.uppers u ∧ u + eps < l := by
  simp only [isGreatest_lowers_iff, isLeast_uppers_iff]
  unfold exclude
  split
  next l u hl hu =>
    rw [hl, hu, decide_eq_true_iff]
    simp
  next hmissing =>
    refine ⟨fun h => Bool.noConfusion h, ?_⟩
    rintro ⟨l, u, hl, hu, _⟩
    exact absurd hu (hmissing l u hl)

end Bounds

/-! ## One row -/

namespace Constraint

variable {c d : Constraint ℚ} {eps r : ℚ}

/-- The point violates the row by more than `eps`. -/
def ViolatedAt (c : Constraint ℚ) (eps : ℚ) (q : Point ℚ) : Prop :=
  match c.relation with
  | .le => c.rhs + eps < c.lhsAt q
  | .ge => c.lhsAt q < c.rhs - eps
  | .eq => eps < |c.lhsAt q - c.rhs|

theorem lhsAt_origin (c : Constraint ℚ) : c.lhsAt Point.origin = 0 := by
  rw [lhsAt_rat]
  show c.a * 0 + c.b * 0 = 0
  ring

theorem coefficient_ne_zero (hc : c.isDegenerate = false) : c.a ≠ 0 ∨ c.b ≠ 0 := by
  rw [← not_and_or, ← isDegenerate_iff, hc]
  exact Bool.false_ne_true

/-- In the quadrant the form takes every value, except those of one sign when no coefficient
has that sign. -/
theorem exists_lhsAt_eq (c : Constraint ℚ) (r : ℚ) :
    (∃ q : Point ℚ, 0 ≤ q.x ∧ 0 ≤ q.y ∧ c.lhsAt q = r)
      ∨ (0 ≤ c.a ∧ 0 ≤ c.b ∧ r < 0) ∨ (c.a ≤ 0 ∧ c.b ≤ 0 ∧ 0 < r) := by
  by_cases hx : c.a ≠ 0 ∧ 0 ≤ r / c.a
  · refine Or.inl ⟨⟨r / c.a, 0⟩, hx.2, le_rfl, ?_⟩
    rw [lhsAt_rat, mul_zero, add_zero, mul_div_cancel₀ r hx.1]
  by_cases hy : c.b ≠ 0 ∧ 0 ≤ r / c.b
  · refine Or.inl ⟨⟨0, r / c.b⟩, le_rfl, hy.2, ?_⟩
    rw [lhsAt_rat, mul_zero, zero_add, mul_div_cancel₀ r hy.1]
  -- a coefficient that has the sign of `r` would give an intercept in the quadrant
  have hneg : ∀ {k : ℚ}, ¬(k ≠ 0 ∧ 0 ≤ r / k) → r < 0 → 0 ≤ k := by
    intro k hk hr
    by_contra hlt
    exact hk ⟨(not_le.mp hlt).ne, div_nonneg_of_nonpos hr.le (not_le.mp hlt).le⟩
  have hpos : ∀ {k : ℚ}, ¬(k ≠ 0 ∧ 0 ≤ r / k) → 0 < r → k ≤ 0 := by
    intro k hk hr
    by_contra hlt
    exact hk ⟨(not_le.mp hlt).ne', div_nonneg hr.le (not_le.mp hlt).le⟩
  rcases lt_trichotomy r 0 with hr | rfl | hr
  · exact Or.inr (Or.inl ⟨hneg hx hr, hneg hy hr, hr⟩)
  · exact Or.inl ⟨Point.origin, le_rfl, le_rfl, c.lhsAt_origin⟩
  · exact Or.inr (Or.inr ⟨hpos hx hr, hpos hy hr, hr⟩)

/-- The form stays above a number in the whole quadrant exactly if it cannot be negative and the
number is. -/
theorem forall_lt_lhsAt_iff :
    (∀ q : Point ℚ, 0 ≤ q.x → 0 ≤ q.y → r < c.lhsAt q) ↔ 0 ≤ c.a ∧ 0 ≤ c.b ∧ r < 0 := by
  constructor
  · intro h
    have horigin : r < 0 := c.lhsAt_origin ▸ h Point.origin le_rfl le_rfl
    rcases c.exists_lhsAt_eq r with ⟨q, hx, hy, hq⟩ | hsign | hsign
    · exact absurd (h q hx hy) (by rw [hq]; exact lt_irrefl r)
    · exact hsign
    · exact absurd hsign.2.2 horigin.not_gt
  · rintro ⟨ha, hb, hr⟩ q hx hy
    rw [lhsAt_rat]
    exact hr.trans_le (add_nonneg (mul_nonneg ha hx) (mul_nonneg hb hy))

/-- The form stays below a number in the whole quadrant exactly if it cannot be positive and the
number is. -/
theorem forall_lhsAt_lt_iff :
    (∀ q : Point ℚ, 0 ≤ q.x → 0 ≤ q.y → c.lhsAt q < r) ↔ c.a ≤ 0 ∧ c.b ≤ 0 ∧ 0 < r := by
  constructor
  · intro h
    have horigin : 0 < r := c.lhsAt_origin ▸ h Point.origin le_rfl le_rfl
    rcases c.exists_lhsAt_eq r with ⟨q, hx, hy, hq⟩ | hsign | hsign
    · exact absurd (h q hx hy) (by rw [hq]; exact lt_irrefl r)
    · exact absurd hsign.2.2 horigin.not_gt
    · exact hsign
  · rintro ⟨ha, hb, hr⟩ q hx hy
    rw [lhsAt_rat]
    exact (add_nonpos (mul_nonpos_of_nonpos_of_nonneg ha hx)
      (mul_nonpos_of_nonpos_of_nonneg hb hy)).trans_lt hr

/-- The form stays away from a number in the whole quadrant exactly if it stays on one side of
it. -/
theorem forall_lt_abs_iff (heps : 0 < eps) :
    (∀ q : Point ℚ, 0 ≤ q.x → 0 ≤ q.y → eps < |c.lhsAt q - r|) ↔
      (∀ q : Point ℚ, 0 ≤ q.x → 0 ≤ q.y → r + eps < c.lhsAt q)
        ∨ ∀ q : Point ℚ, 0 ≤ q.x → 0 ≤ q.y → c.lhsAt q < r - eps := by
  rw [forall_lt_lhsAt_iff, forall_lhsAt_lt_iff]
  constructor
  · intro h
    -- the origin tells on which side the form stays, and a form that takes the value `r` is out of
    -- the question
    have horigin : eps < |0 - r| := c.lhsAt_origin ▸ h Point.origin le_rfl le_rfl
    rcases c.exists_lhsAt_eq r with ⟨q, hx, hy, hq⟩ | ⟨ha, hb, hr⟩ | ⟨ha, hb, hr⟩
    · have hzero := h q hx hy
      rw [hq, sub_self, abs_zero] at hzero
      exact absurd hzero heps.not_gt
    · rw [zero_sub, abs_neg, abs_of_neg hr] at horigin
      exact Or.inl ⟨ha, hb, by linarith⟩
    · rw [zero_sub, abs_neg, abs_of_pos hr] at horigin
      exact Or.inr ⟨ha, hb, by linarith⟩
  · intro h q hx hy
    rw [← forall_lt_lhsAt_iff, ← forall_lhsAt_lt_iff] at h
    rcases h with h | h
    · exact lt_abs.mpr (Or.inl (by linarith [h q hx hy]))
    · exact lt_abs.mpr (Or.inr (by linarith [h q hx hy]))

/-- **A row excludes the quadrant** exactly if every point of it violates the row by more than
the tolerance. -/
theorem excludesQuadrant_iff (heps : 0 < eps) :
    c.excludesQuadrant eps = true ↔
      ∀ q : Point ℚ, 0 ≤ q.x → 0 ≤ q.y → c.ViolatedAt eps q := by
  -- what the form stays away from depends on the relation; the test looks at signs only
  have hbelow : c.rhs < -eps ↔ c.rhs + eps < 0 := by
    constructor <;> intro h <;> linarith
  have habove : eps < c.rhs ↔ 0 < c.rhs - eps := sub_pos.symm
  unfold excludesQuadrant ViolatedAt
  cases hrel : c.relation with
  | le =>
    rw [forall_lt_lhsAt_iff, ← hbelow]
    simp only [Bool.and_eq_true, decide_eq_true_eq, and_assoc]
  | ge =>
    rw [forall_lhsAt_lt_iff, ← habove]
    simp only [Bool.and_eq_true, decide_eq_true_eq, and_assoc]
  | eq =>
    rw [forall_lt_abs_iff heps, forall_lt_lhsAt_iff, forall_lhsAt_lt_iff, ← hbelow,
      ← habove]
    simp only [Bool.or_eq_true, Bool.and_eq_true, decide_eq_true_eq, and_assoc]

/-! ## Two parallel rows -/

/-- The values that the form of the first row takes where the second one holds. -/
def values (c d : Constraint ℚ) : Set ℚ := c.lhsAt '' {q | d.Satisfied q}

/-- The bounds that two rows put on the form of the first miss each other by more than `eps`: the
greatest lower bound that one of them puts on it is beyond the least upper bound. -/
def NoRoom (eps : ℚ) (c d : Constraint ℚ) : Prop :=
  ∃ l u, IsGreatest (lowerBounds (c.values c) ∪ lowerBounds (c.values d)) l
    ∧ IsLeast (upperBounds (c.values c) ∪ upperBounds (c.values d)) u ∧ u + eps < l

/-- On the whole plane the form takes every value. -/
theorem lhsAt_surjective (hc : c.isDegenerate = false) : Function.Surjective c.lhsAt := by
  intro x
  rcases coefficient_ne_zero hc with ha | hb
  · refine ⟨⟨x / c.a, 0⟩, ?_⟩
    rw [lhsAt_rat, mul_zero, add_zero, mul_div_cancel₀ x ha]
  · refine ⟨⟨0, x / c.b⟩, ?_⟩
    rw [lhsAt_rat, mul_zero, zero_add, mul_div_cancel₀ x hb]

/-- A row allows the values on its right side. -/
theorem values_self (hc : c.isDegenerate = false) :
    c.values c = {x | c.relation.Holds x c.rhs} :=
  Set.image_preimage_eq {x | c.relation.Holds x c.rhs} (lhsAt_surjective hc)

/-- Parallel rows with variables are multiples of each other, neither of them by zero. -/
theorem ratio_ne_zero (hc : c.isDegenerate = false) (hd : d.isDegenerate = false)
    (hdet : c.det d = 0) : c.ratio d ≠ 0 := by
  intro hk
  obtain ⟨q, hq⟩ := lhsAt_surjective hd 1
  rw [lhsAt_eq_ratio_mul hc hdet, hk, zero_mul] at hq
  exact zero_ne_one hq

/-- A parallel row holds where the form of the first is related to a number as well. -/
theorem values_of_det_eq_zero (hc : c.isDegenerate = false) (hd : d.isDegenerate = false)
    (hdet : c.det d = 0) : c.values d =
      {x | (if 0 < c.ratio d then d.relation else d.relation.flip).Holds x
        (d.rhs / c.ratio d)} := by
  have hpre : {q | d.Satisfied q} = Set.preimage c.lhsAt {x |
      (if 0 < c.ratio d then d.relation else d.relation.flip).Holds x (d.rhs / c.ratio d)} := by
    ext q
    show d.relation.Holds (d.lhsAt q) d.rhs ↔ _
    rw [lhsAt_eq_ratio_mul hc hdet, Relation.holds_mul_iff (ratio_ne_zero hc hd hdet)]
    rfl
  rw [values, hpre, Set.image_preimage_eq _ (lhsAt_surjective hc)]

/-- **Parallel rows exclude each other** exactly if the bounds that they put on the form of the
first miss each other by more than the tolerance. -/
theorem excludes_iff_noRoom (heps : 0 < eps) (hc : c.isDegenerate = false)
    (hd : d.isDegenerate = false) (hdet : c.det d = 0) :
    c.excludes eps d = true ↔ NoRoom eps c d := by
  have hsmall : ¬eps ≤ |c.det d| := by rw [hdet, abs_zero]; exact heps.not_ge
  rw [excludes, jointBounds?_eq_some hsmall (ratio_ne_zero hc hd hdet), Option.any_some,
    Bounds.exclude_iff, NoRoom, values_self hc, values_of_det_eq_zero hc hd hdet]
  simp only [Bounds.lowers_tighten, Bounds.uppers_tighten, Bounds.lowers_free,
    Bounds.uppers_free, Set.empty_union]

end Constraint

/-! ## The report -/

namespace LinearProgram

variable {p : LinearProgram ℚ} {sweep : Sweep ℚ} {eps : ℚ}

/-- The report of a program, by the places of its rows. -/
theorem conflicts_eq_places (p : LinearProgram ℚ) (eps : ℚ) :
    p.conflicts eps =
      ((List.finRange p.constraints.length).filter
          (p.constraints[·].excludesQuadrant eps)).map (.outside p.constraints[·])
        ++ ((pairs (List.finRange p.constraints.length)).filter
          fun ij => p.constraints[ij.1].excludes eps p.constraints[ij.2]).map
            fun ij => .apart p.constraints[ij.1] p.constraints[ij.2] := by
  have hrows : p.constraints = (List.finRange p.constraints.length).map (p.constraints[·]) :=
    (List.map_get_finRange p.constraints).symm
  have halone : (p.constraints.filter (·.excludesQuadrant eps)).map Conflict.outside =
      ((List.finRange p.constraints.length).filter
        (p.constraints[·].excludesQuadrant eps)).map (.outside p.constraints[·]) := by
    conv_lhs => rw [hrows]
    rw [List.filter_map, List.map_map]
    rfl
  rw [conflicts, halone, pairs_eq_map_finRange p.constraints, List.filter_map, List.map_map]
  rfl

/-- What it means that the conflicts `fs` are exact for a program: they are the rows `alone` and,
behind them, the pairs of rows `apart`, given by their places. -/
structure ExactReport (p : LinearProgram ℚ) (eps : ℚ) (fs : List (Conflict ℚ))
    (alone : List (Fin p.constraints.length))
    (apart : List (Fin p.constraints.length × Fin p.constraints.length)) : Prop where
  report : fs = alone.map (.outside p.constraints[·])
    ++ apart.map fun ij => .apart p.constraints[ij.1] p.constraints[ij.2]
  /-- Single rows come in the order of the program, each once. -/
  alone_ordered : alone.Pairwise (· < ·)
  /-- They are the rows that every point of the quadrant violates by more than the tolerance. -/
  mem_alone_iff : ∀ i, i ∈ alone ↔
    ∀ q : Point ℚ, 0 ≤ q.x → 0 ≤ q.y → p.constraints[i].ViolatedAt eps q
  /-- Pairs come in lexicographic order, each once. -/
  apart_ordered : apart.Pairwise Earlier
  apart_lt : ∀ ij ∈ apart, ij.1 < ij.2
  /-- Two parallel rows form one if they leave no room for their common form. -/
  mem_apart_iff : ∀ i j, i < j →
    p.constraints[i].a * p.constraints[j].b = p.constraints[j].a * p.constraints[i].b →
    ((i, j) ∈ apart ↔ Constraint.NoRoom eps p.constraints[i] p.constraints[j])
  /-- Two parallel rows with a point in common form none. -/
  not_mem_apart : ∀ i j, i < j →
    p.constraints[i].a * p.constraints[j].b = p.constraints[j].a * p.constraints[i].b →
    ∀ q, p.constraints[i].Satisfied q → p.constraints[j].Satisfied q → (i, j) ∉ apart

/-- **Conflicts are exact where the cause is local.** For an infeasible program they are the rows
that every point of the quadrant violates by more than the tolerance, and behind them pairs of
rows; of the pairs that are parallel, exactly those whose bounds on a common form miss each other
by more than the tolerance. -/
theorem conflicts_exact (sweep : Sweep ℚ) (heps : 0 < eps) (hp : p.validate = .ok ())
    {s : Solution ℚ} (hs : p.solve sweep eps = .ok s) (hinf : s.isOptimal = false) :
    ∃ alone apart, p.ExactReport eps s.conflicts alone apart := by
  have hdefect := validate_eq_ok_iff.mp hp
  have hrow : ∀ i : Fin p.constraints.length, p.constraints[i].isDegenerate = false := fun i =>
    defect?_eq_none_iff.mp hdefect _ (List.getElem_mem i.isLt)
  have hdet : ∀ i j : Fin p.constraints.length,
      p.constraints[i].a * p.constraints[j].b = p.constraints[j].a * p.constraints[i].b →
      p.constraints[i].det p.constraints[j] = 0 := fun i j hparallel => by
    rw [Constraint.det_rat, hparallel, sub_self]
  obtain rfl := solution_eq_of_solve heps hp hs
  have hreport : (p.solution sweep eps).conflicts = p.conflicts eps := by
    rcases solution_cases sweep eps p with ⟨_, heq⟩ | ⟨top, _, heq⟩
    · rw [heq]
      rfl
    · rw [heq] at hinf
      exact absurd hinf (by simp [Solution.isOptimal])
  -- first the rows that fail alone, then the pairs: each time their order and what they are
  refine ⟨_, _, hreport.trans (conflicts_eq_places p eps), ?_, ?_, ?_, ?_, ?_, ?_⟩
  · exact (List.pairwise_lt_finRange _).filter _
  · intro i
    rw [List.mem_filter, and_iff_right (List.mem_finRange i)]
    exact Constraint.excludesQuadrant_iff heps
  · exact (pairs_earlier (List.pairwise_lt_finRange _)).filter _
  · intro ij hij
    exact mem_pairs_finRange.mp (List.mem_filter.mp hij).1
  · intro i j hij hparallel
    rw [List.mem_filter, and_iff_right (mem_pairs_finRange.mpr hij)]
    exact Constraint.excludes_iff_noRoom heps (hrow i) (hrow j) (hdet i j hparallel)
  · intro i j _ hparallel q hi hj hmem
    have hexcl := (List.mem_filter.mp hmem).2
    exact Constraint.not_satisfied_of_excludes heps (hrow i) (hdet i j hparallel) hexcl ⟨hi, hj⟩

/-- Two rows that no point of the quadrant satisfies, and two pairs of parallel rows with nothing
between them. The forms of each pair have opposite signs, and those of the second pair lack a
variable. -/
def quarrel : LinearProgram ℚ where
  vars := .standard
  objective := ⟨1, 1, .maximize⟩
  constraints := [⟨"low", 2, 2, .le, 4⟩, ⟨"debt", 1, 0, .eq, -1⟩, ⟨"high", -1, -1, .le, -5⟩,
    ⟨"fixed", 0, -2, .eq, 6⟩, ⟨"floor", 0, 1, .ge, 1⟩]

/-- The rows of the quarrel leave nothing over. -/
theorem quarrel_isOptimal : (quarrel.solution .diamond (1 / 1000)).isOptimal = false := by
  decide +kernel

/-- Two equations fail alone, and two pairs of rows leave each other no room. -/
theorem conflicts_exact_quarrel : (0 : ℚ) < 1 / 1000 ∧ quarrel.validate = .ok () ∧
    (quarrel.conflicts (1 / 1000)).map (·.names)
      = [["debt"], ["fixed"], ["low", "high"], ["fixed", "floor"]] ∧
    ∃ s, quarrel.solve .diamond (1 / 1000) = .ok s ∧ s.isOptimal = false ∧
      ∃ alone apart, quarrel.ExactReport (1 / 1000) s.conflicts alone apart := by
  have hval : quarrel.validate = .ok () := by rfl
  have hs : quarrel.solve .diamond (1 / 1000) = .ok (quarrel.solution .diamond (1 / 1000)) :=
    solve_eq_ok (by norm_num) (validate_eq_ok_iff.mp hval)
  exact ⟨by norm_num, hval, by cbv, _, hs, quarrel_isOptimal,
    conflicts_exact .diamond (by norm_num) hval hs quarrel_isOptimal⟩

end LinearProgram

end CornerPoint

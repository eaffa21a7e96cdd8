import Mathlib
import CornerPoint.Proofs.Program.Optimality

/-!
# Conflicts

A conflict says that no point of the quadrant satisfies its constraints. For a single
constraint that is so. For two constraints it is so if they are parallel: then one form is a
multiple of the other, and what both say about it bounds it from below by more than from above.

But the test for parallel lines asks whether the determinant is below the tolerance, so rows
with small coefficients are compared as if they were parallel.

> `conflict_genuine_iff`: a reported conflict is genuine, unless it is between two rows that
> cross at a determinant below the tolerance and one of their own candidates satisfies both.

`conflict_not_genuine` shows that this happens: two such rows are said to leave no room
between them, and a point satisfies both.
-/

namespace CornerPoint

/-! ## Bounds on a form -/

namespace Bounds

variable {b : Bounds ℚ} {rel : Relation} {x r eps : ℚ}

/-- The number keeps the bounds. -/
def Contains (b : Bounds ℚ) (x : ℚ) : Prop := (∀ l ∈ b.lower, l ≤ x) ∧ ∀ u ∈ b.upper, x ≤ u

theorem contains_free : Bounds.free.Contains x :=
  ⟨fun _ h => absurd h (by simp [free]), fun _ h => absurd h (by simp [free])⟩

/-- The greater of two lower bounds is one that implies both. -/
theorem greater_le_iff {l : Option ℚ} : greater l r ≤ x ↔ (∀ m ∈ l, m ≤ x) ∧ r ≤ x := by
  cases l with
  | none => simp [greater]
  | some m =>
    simp only [greater, Option.mem_some_iff, forall_eq']
    split
    next h => exact ⟨fun hr => ⟨(h.trans_le hr).le, hr⟩, fun hr => hr.2⟩
    next h => exact ⟨fun hm => ⟨hm, (not_lt.mp h).trans hm⟩, fun hr => hr.1⟩

/-- And so is the smaller of two upper bounds. -/
theorem le_smaller_iff {u : Option ℚ} : x ≤ smaller u r ↔ (∀ m ∈ u, x ≤ m) ∧ x ≤ r := by
  cases u with
  | none => simp [smaller]
  | some m =>
    simp only [smaller, Option.mem_some_iff, forall_eq']
    split
    next h => exact ⟨fun hr => ⟨(hr.trans_lt h).le, hr⟩, fun hr => hr.2⟩
    next h => exact ⟨fun hm => ⟨hm, hm.trans (not_lt.mp h)⟩, fun hr => hr.1⟩

/-- Tightened bounds say what the bounds said and what the relation says. -/
theorem contains_tighten_iff :
    (b.tighten rel r).Contains x ↔ b.Contains x ∧ rel.Holds x r := by
  have hlower : (∀ l ∈ some (greater b.lower r), l ≤ x) ↔ (∀ m ∈ b.lower, m ≤ x) ∧ r ≤ x := by
    simp only [Option.mem_some_iff, forall_eq', greater_le_iff]
  have hupper : (∀ u ∈ some (smaller b.upper r), x ≤ u) ↔ (∀ m ∈ b.upper, x ≤ m) ∧ x ≤ r := by
    simp only [Option.mem_some_iff, forall_eq', le_smaller_iff]
  unfold tighten Contains Relation.Holds
  cases rel with
  | le => rw [hupper, and_assoc]
  | ge => rw [hlower, and_right_comm]
  | eq =>
    rw [hlower, hupper, and_and_and_comm]
    exact and_congr_right fun _ => and_comm.trans le_antisymm_iff.symm

/-- Bounds that exclude each other contain nothing. -/
theorem not_contains_of_exclude (heps : 0 < eps) (h : b.exclude eps = true) : ¬b.Contains x := by
  intro hx
  unfold exclude at h
  split at h
  next l u hl hu =>
    have hlx := hx.1 l hl
    have hxu := hx.2 u hu
    have hlt : u + eps < l := of_decide_eq_true h
    linarith
  next => exact Bool.noConfusion h

end Bounds

namespace Relation

/-- Both sides may be divided by a positive number. -/
theorem Holds.div_pos {rel : Relation} {l r k : ℚ} (h : rel.Holds l r) (hk : 0 < k) :
    rel.Holds (l / k) (r / k) := by
  cases rel with
  | le => exact div_le_div_of_nonneg_right h hk.le
  | ge => exact div_le_div_of_nonneg_right (show r ≤ l from h) hk.le
  | eq => exact congrArg (· / k) h

/-- A negative divisor turns the relation around. -/
theorem Holds.div_neg {rel : Relation} {l r k : ℚ} (h : rel.Holds l r) (hk : k < 0) :
    rel.flip.Holds (l / k) (r / k) := by
  cases rel with
  | le => exact div_le_div_of_nonpos_of_le hk.le h
  | ge => exact div_le_div_of_nonpos_of_le hk.le h
  | eq => exact congrArg (· / k) h

end Relation

/-! ## Single constraints and pairs -/

namespace Constraint

variable {c d : Constraint ℚ} {p : Point ℚ} {eps : ℚ}

/-- A constraint that is said to exclude the quadrant does. -/
theorem not_satisfied_of_excludesQuadrant (heps : 0 < eps) (h : c.excludesQuadrant eps = true)
    (hx : 0 ≤ p.x) (hy : 0 ≤ p.y) : ¬c.Satisfied p := by
  -- on the quadrant a form with coefficients of one sign has that sign itself
  have hbelow : 0 ≤ c.a → 0 ≤ c.b → c.rhs < -eps → c.rhs < c.lhsAt p := fun ha hb hr => by
    have hform : 0 ≤ c.a * p.x + c.b * p.y := add_nonneg (mul_nonneg ha hx) (mul_nonneg hb hy)
    rw [lhsAt_rat]
    linarith
  have habove : c.a ≤ 0 → c.b ≤ 0 → eps < c.rhs → c.lhsAt p < c.rhs := fun ha hb hr => by
    have hform : c.a * p.x + c.b * p.y ≤ 0 :=
      add_nonpos (mul_nonpos_of_nonpos_of_nonneg ha hx) (mul_nonpos_of_nonpos_of_nonneg hb hy)
    rw [lhsAt_rat]
    linarith
  unfold excludesQuadrant at h
  unfold Satisfied
  cases hrel : c.relation with
  | le =>
    simp only [hrel, Bool.and_eq_true, decide_eq_true_eq] at h
    exact not_le.mpr (hbelow h.1.1 h.1.2 h.2)
  | ge =>
    simp only [hrel, Bool.and_eq_true, decide_eq_true_eq] at h
    exact not_le.mpr (habove h.1.1 h.1.2 h.2)
  | eq =>
    simp only [hrel, Bool.or_eq_true, Bool.and_eq_true, decide_eq_true_eq] at h
    rcases h with h | h
    · exact (hbelow h.1.1 h.1.2 h.2).ne'
    · exact (habove h.1.1 h.1.2 h.2).ne

/-- The forms of parallel constraints are multiples of each other. -/
theorem lhsAt_eq_ratio_mul (hc : c.isDegenerate = false) (hdet : c.det d = 0) (p : Point ℚ) :
    d.lhsAt p = c.ratio d * c.lhsAt p := by
  rw [det_rat] at hdet
  have hne : c.a ≠ 0 ∨ c.b ≠ 0 := by
    rw [← not_and_or, ← isDegenerate_iff, hc]
    exact Bool.false_ne_true
  rw [lhsAt_rat, lhsAt_rat, ratio, Scalar.abs_rat, Scalar.abs_rat]
  -- the ratio divides by the larger coefficient of the first row, which is not zero
  split
  next h =>
    have ha : c.a ≠ 0 := fun h0 => by
      rw [h0, abs_zero] at h
      exact hne.elim (· h0) (· (abs_nonpos_iff.mp h))
    field_simp
    linear_combination p.y * hdet
  next h =>
    have hb : c.b ≠ 0 := fun h0 => h (by rw [h0, abs_zero]; exact abs_nonneg _)
    field_simp
    linear_combination -p.x * hdet

/-- Two rows are not compared when they cross, or when one of them says nothing about the form of
the other. -/
theorem jointBounds?_eq_none (h : eps ≤ |c.det d| ∨ c.ratio d = 0) :
    c.jointBounds? eps d = none := by
  unfold jointBounds?
  rw [Scalar.abs_rat]
  split
  next => rfl
  next hdet =>
    have hk : (c.ratio d == 0) = true := beq_iff_eq.mpr (h.resolve_left hdet)
    simp only [hk, Bool.or_true, if_true]

/-- When they are compared, the second row is divided by the ratio, which may turn its relation
around. -/
theorem jointBounds?_eq_some (hdet : ¬eps ≤ |c.det d|) (hk : c.ratio d ≠ 0) :
    c.jointBounds? eps d = some ((Bounds.free.tighten c.relation c.rhs).tighten
      (if 0 < c.ratio d then d.relation else d.relation.flip) (d.rhs / c.ratio d)) := by
  have hguard : (!Scalar.isFinite (c.ratio d) || c.ratio d == 0) = false :=
    beq_eq_false_iff_ne.mpr hk
  unfold jointBounds?
  rw [Scalar.abs_rat, if_neg hdet]
  dsimp only
  rw [if_neg (Bool.eq_false_iff.mp hguard)]

/-- What two parallel constraints say about the form of the first bounds its values. -/
theorem contains_of_jointBounds? {b : Bounds ℚ} (hc : c.isDegenerate = false)
    (hdet : c.det d = 0) (h : c.jointBounds? eps d = some b) (hcp : c.Satisfied p)
    (hdp : d.Satisfied p) : b.Contains (c.lhsAt p) := by
  unfold jointBounds? at h
  split at h
  next => cases h
  next =>
    dsimp only at h
    split at h
    next => cases h
    next hk =>
      have hk0 : c.ratio d ≠ 0 := fun h0 => hk (by rw [h0]; rfl)
      -- as the rows are parallel, the second form is a multiple of the first
      have hform : c.lhsAt p = d.lhsAt p / c.ratio d := by
        rw [lhsAt_eq_ratio_mul hc hdet, mul_div_cancel_left₀ _ hk0]
      rw [← Option.some.inj h, Bounds.contains_tighten_iff, Bounds.contains_tighten_iff]
      refine ⟨⟨Bounds.contains_free, hcp⟩, ?_⟩
      rw [hform]
      split
      next hpos => exact Relation.Holds.div_pos hdp hpos
      next hneg => exact Relation.Holds.div_neg hdp ((not_lt.mp hneg).lt_of_ne hk0)

/-- Parallel constraints that are said to exclude each other do. -/
theorem not_satisfied_of_excludes (heps : 0 < eps) (hc : c.isDegenerate = false)
    (hdet : c.det d = 0) (h : c.excludes eps d = true) : ¬(c.Satisfied p ∧ d.Satisfied p) := by
  intro hp
  unfold excludes at h
  cases hb : c.jointBounds? eps d with
  | none => rw [hb] at h; exact Bool.noConfusion h
  | some b =>
    rw [hb] at h
    exact Bounds.not_contains_of_exclude heps h (contains_of_jointBounds? hc hdet hb hp.1 hp.2)

/-- The determinant of constraints that are compared is below the tolerance. -/
theorem abs_det_lt_of_excludes (h : c.excludes eps d = true) : |c.det d| < eps := by
  unfold excludes jointBounds? at h
  split at h
  next => cases h
  next hdet => rwa [Scalar.abs_rat, not_le] at hdet

end Constraint

/-! ## Reported conflicts -/

namespace Conflict

variable {p : LinearProgram ℚ} {sweep : Sweep ℚ} {eps : ℚ} {c d : Constraint ℚ} {f : Conflict ℚ}

/-- No point of the quadrant satisfies the constraints that are in conflict. -/
def Genuine (f : Conflict ℚ) : Prop := region f.constraints = ∅

/-- What is reported, and on what grounds. -/
theorem mem_conflicts_iff : f ∈ p.conflicts eps ↔
    (∃ c ∈ p.constraints, c.excludesQuadrant eps = true ∧ f = .outside c)
      ∨ ∃ c d, (c, d) ∈ pairs p.constraints ∧ c.excludes eps d = true ∧ f = .apart c d := by
  rw [LinearProgram.conflicts, List.mem_append, List.mem_map, List.mem_map]
  simp only [List.mem_filter, Prod.exists, and_assoc, eq_comm (b := f)]

/-- A conflict of a single constraint is genuine. -/
theorem genuine_outside (heps : 0 < eps) (h : c.excludesQuadrant eps = true) :
    (outside c).Genuine :=
  Set.eq_empty_iff_forall_notMem.mpr fun _ hq =>
    Constraint.not_satisfied_of_excludesQuadrant heps h hq.1.1 hq.1.2
      (hq.2 c (List.mem_singleton_self c))

/-- A conflict of two constraints means that no point of the quadrant satisfies both. -/
theorem genuine_apart_iff :
    (apart c d).Genuine ↔ ∀ q : Point ℚ, 0 ≤ q.x → 0 ≤ q.y → ¬(c.Satisfied q ∧ d.Satisfied q) := by
  rw [Genuine, Set.eq_empty_iff_forall_notMem]
  simp [region, constraints]

/-- A conflict of two parallel constraints is genuine. -/
theorem genuine_of_det_eq_zero (heps : 0 < eps) (hc : c.isDegenerate = false)
    (hdet : c.det d = 0) (h : c.excludes eps d = true) : (apart c d).Genuine :=
  genuine_apart_iff.mpr fun _ _ _ => Constraint.not_satisfied_of_excludes heps hc hdet h

/-- Whether two lines that cross leave room between them is decided at their own
candidates. -/
theorem genuine_iff_candidates (hdet : c.det d ≠ 0) : (apart c d).Genuine ↔
    ∀ q ∈ candidates [c, d] |c.det d|, ¬(c.Satisfied q ∧ d.Satisfied q) := by
  have hpos : 0 < |c.det d| := abs_pos.mpr hdet
  have hpair : ∀ {e f}, (e, f) ∈ pairs [c, d] → e = c ∧ f = d := by simp [pairs]
  rw [genuine_apart_iff]
  constructor
  · intro h q hq
    obtain ⟨hx, hy⟩ := Point.inQuadrant_iff.mp ((mem_candidates_iff hpos).mp hq).1
    exact h q hx hy
  · intro h q hx hy hq
    -- a common point gives a corner of what the two leave, and corners are candidates
    have hmem : q ∈ region [c, d] := ⟨⟨hx, hy⟩, by simpa using hq⟩
    obtain ⟨v, hv⟩ := exists_corner hmem
    have hsat : c.Satisfied v ∧ d.Satisfied v := by simpa using hv.1.2
    rcases hv.mem_candidates hpos with hcandidate | ⟨e, f, hef, _, hsmall, _⟩
    · exact h v hcandidate hsat
    · obtain ⟨rfl, rfl⟩ := hpair hef
      exact lt_irrefl _ hsmall

end Conflict

namespace LinearProgram

variable {p : LinearProgram ℚ} {sweep : Sweep ℚ} {eps : ℚ}

/-- An outcome reports no other conflicts than those of its program. -/
theorem mem_conflicts_of_solution {f : Conflict ℚ}
    (hf : f ∈ (p.solution sweep eps).conflicts) : f ∈ p.conflicts eps := by
  rcases solution_cases sweep eps p with ⟨_, heq⟩ | ⟨top, _, heq⟩
  · rwa [heq] at hf
  · rw [heq] at hf
    exact absurd hf List.not_mem_nil

/-- **When a reported conflict is genuine.** Conflicts of single constraints and of parallel
ones always are; a conflict of two constraints that cross is exactly if none of their own
candidates satisfies both. Such constraints are only compared when their determinant is below
the tolerance. -/
theorem conflict_genuine_iff (sweep : Sweep ℚ) (heps : 0 < eps) (hp : p.validate = .ok ())
    {s : Solution ℚ} (hs : p.solve sweep eps = .ok s) {f : Conflict ℚ} (hf : f ∈ s.conflicts) :
    f.Genuine ↔ ∀ c d, f = .apart c d → c.det d ≠ 0 → |c.det d| < eps →
      ∀ q ∈ candidates [c, d] |c.det d|, ¬(c.Satisfied q ∧ d.Satisfied q) := by
  have hdefect := validate_eq_ok_iff.mp hp
  obtain rfl := solution_eq_of_solve heps hp hs
  rcases Conflict.mem_conflicts_iff.mp (mem_conflicts_of_solution hf)
    with ⟨c, _, hc, rfl⟩ | ⟨c, d, hcd, hexcl, rfl⟩
  -- a single constraint is not what the condition speaks of
  · exact ⟨fun _ _ _ h => absurd h (by simp), fun _ => Conflict.genuine_outside heps hc⟩
  · constructor
    · intro hgenuine c' d' heq hdet _
      obtain ⟨rfl, rfl⟩ : c = c' ∧ d = d' := by simpa using heq
      exact (Conflict.genuine_iff_candidates hdet).mp hgenuine
    · intro h
      -- truly parallel rows are not spoken of either
      by_cases hdet : c.det d = 0
      · have hmem : c ∈ p.constraints := (mem_of_mem_pairs hcd).1
        exact Conflict.genuine_of_det_eq_zero heps (defect?_eq_none_iff.mp hdefect c hmem) hdet
          hexcl
      · exact (Conflict.genuine_iff_candidates hdet).mpr
          (h c d rfl hdet (Constraint.abs_det_lt_of_excludes hexcl))

/-- Two rows that cross at (32, 32), with coefficients as small as those of `faint`, and a
third row that this point violates. -/
def accused : LinearProgram ℚ where
  vars := .standard
  objective := ⟨1, 1, .maximize⟩
  constraints := [⟨"sum", 1 / 64, 1 / 64, .eq, 1⟩, ⟨"diff", 1 / 64, -1 / 64, .eq, 0⟩,
    ⟨"cap", 1, 0, .le, 10⟩]

/-- The conflict that is reported: the first two rows, though they have a point in common. -/
def accusation : Conflict ℚ :=
  .apart ⟨"sum", 1 / 64, 1 / 64, .eq, 1⟩ ⟨"diff", 1 / 64, -1 / 64, .eq, 0⟩

theorem accused_defect? : accused.defect? = none := by cbv

/-- The cap keeps out the only point that the other two rows allow. -/
theorem accused_isOptimal : (accused.solution .diamond (1 / 1000)).isOptimal = false := by
  cbv

/-- The pair is accused of leaving no room. -/
theorem accusation_mem : accusation ∈ accused.conflicts (1 / 1000) :=
  Conflict.mem_conflicts_iff.mpr (.inr ⟨_, _, List.mem_cons_self, by cbv, rfl⟩)

theorem accusation_reported : accusation ∈ (accused.solution .diamond (1 / 1000)).conflicts := by
  rcases solution_cases .diamond (1 / 1000) accused with ⟨_, heq⟩ | ⟨top, _, heq⟩
  · rw [heq]
    exact accusation_mem
  · exact absurd (heq ▸ accused_isOptimal) (by simp [Solution.isOptimal])

/-- There is room: the two lines cross in the quadrant. -/
theorem accusation_common : (⟨32, 32⟩ : Point ℚ) ∈ region accusation.constraints := by
  refine ⟨⟨by norm_num, by norm_num⟩, ?_⟩
  norm_num [accusation, Conflict.constraints, Constraint.Satisfied, Relation.Holds,
    Constraint.lhsAt_rat]

/-- **A reported conflict can be no conflict.** Its two rows are satisfied at one point. -/
theorem conflict_not_genuine : accused.validate = .ok () ∧
    (∃ s, accused.solve .diamond (1 / 1000) = .ok s ∧ s.isOptimal = false ∧
      accusation ∈ s.conflicts) ∧
    (⟨32, 32⟩ : Point ℚ) ∈ region accusation.constraints :=
  ⟨validate_eq_ok_iff.mpr accused_defect?,
    ⟨_, solve_eq_ok (by norm_num) accused_defect?, accused_isOptimal, accusation_reported⟩,
    accusation_common⟩

/-- The two rows that cross at a small determinant are accused of being parallel. -/
theorem conflict_genuine_iff_accused : (0 : ℚ) < 1 / 1000 ∧ accused.validate = .ok () ∧
    ∃ s, accused.solve .diamond (1 / 1000) = .ok s ∧ accusation ∈ s.conflicts ∧
      (accusation.Genuine ↔ ∀ c d, accusation = .apart c d → c.det d ≠ 0 →
        |c.det d| < 1 / 1000 → ∀ q ∈ candidates [c, d] |c.det d|,
          ¬(c.Satisfied q ∧ d.Satisfied q)) := by
  have hval : accused.validate = .ok () := validate_eq_ok_iff.mpr accused_defect?
  have hs : accused.solve .diamond (1 / 1000) = .ok (accused.solution .diamond (1 / 1000)) :=
    solve_eq_ok (by norm_num) accused_defect?
  exact ⟨by norm_num, hval, _, hs, accusation_reported,
    conflict_genuine_iff .diamond (by norm_num) hval hs accusation_reported⟩

end LinearProgram

end CornerPoint

import Mathlib
import CornerPoint.Proofs.Program.Solve

/-!
# Rows in another order, variables in each other's roles

A program says the same whichever of its variables comes first and in whatever order its rows
are written. The candidates are the same points then, up to the exchange of coordinates, but
they are generated in another order. Of several near ones another one may be kept, so that the
listed corners and the optimum can differ, though not by much.

> `mem_feasibleCandidates_of_rearranges`: the feasible candidates are the same points.
> `solve_rearranged`: the verdict is the same, every corner of one outcome is near a corner of
> the other, and the values of the optima differ by at most what a near point may lose.

A rearrangement can be taken back by one of the same kind (`Rearranges.symm`), so every fact
about two outcomes is proved in one direction only.
-/

namespace CornerPoint

/-- Whether the two variables change places. -/
inductive Roles where
  | kept
  | exchanged

namespace Roles

variable {K : Type}

/-- The point in the new roles. -/
def point : Roles → Point K → Point K
  | kept, p => p
  | exchanged, p => ⟨p.y, p.x⟩

/-- The constraint in the new roles. -/
def constraint : Roles → Constraint K → Constraint K
  | kept, c => c
  | exchanged, c => { c with a := c.b, b := c.a }

/-- The objective in the new roles. -/
def objective : Roles → Objective K → Objective K
  | kept, o => o
  | exchanged, o => { o with a := o.b, b := o.a }

@[simp] theorem point_point (r : Roles) (p : Point K) : r.point (r.point p) = p := by
  cases r <;> rfl

@[simp] theorem constraint_constraint (r : Roles) (c : Constraint K) :
    r.constraint (r.constraint c) = c := by
  cases r <;> rfl

@[simp] theorem objective_objective (r : Roles) (o : Objective K) :
    r.objective (r.objective o) = o := by
  cases r <;> rfl

@[simp] theorem objective_sense (r : Roles) (o : Objective K) :
    (r.objective o).sense = o.sense := by
  cases r <;> rfl

@[simp] theorem constraint_relation (r : Roles) (c : Constraint K) :
    (r.constraint c).relation = c.relation := by
  cases r <;> rfl

@[simp] theorem constraint_rhs (r : Roles) (c : Constraint K) :
    (r.constraint c).rhs = c.rhs := by
  cases r <;> rfl

theorem point_origin [Scalar K] (r : Roles) : r.point (Point.origin : Point K) = .origin := by
  cases r <;> rfl

variable (r : Roles) {c d : Constraint ℚ} {o : Objective ℚ} {p q : Point ℚ} {eps : ℚ}

@[simp] theorem lhsAt_point : (r.constraint c).lhsAt (r.point p) = c.lhsAt p := by
  cases r with
  | kept => rfl
  | exchanged => exact add_comm (c.b * p.y) (c.a * p.x)

@[simp] theorem valueAt_point : (r.objective o).valueAt (r.point p) = o.valueAt p := by
  cases r with
  | kept => rfl
  | exchanged => exact add_comm (o.b * p.y) (o.a * p.x)

theorem inQuadrant_point : (r.point p).inQuadrant = p.inQuadrant := by
  cases r with
  | kept => rfl
  | exchanged => exact Bool.and_comm _ _

/-- A row with the roles of the variables exchanged holds where the point has them exchanged too. -/
theorem holds_point : (r.constraint c).holds eps (r.point p) = c.holds eps p := by
  unfold Constraint.holds
  rw [constraint_relation, lhsAt_point, constraint_rhs]

theorem tight_point : (r.constraint c).Tight (r.point p) ↔ c.Tight p := by
  rw [Constraint.Tight, lhsAt_point, constraint_rhs, Constraint.Tight]

/-- Exchanging the variables changes the sign of a determinant. -/
theorem abs_det : |(r.constraint c).det (r.constraint d)| = |c.det d| := by
  cases r with
  | kept => rfl
  | exchanged =>
    rw [Constraint.det_comm c d, abs_neg, Constraint.det_rat, Constraint.det_rat]
    exact congrArg abs (by show c.b * d.a - d.b * c.a = d.a * c.b - c.a * d.b; ring)

theorem isDegenerate_constraint : (r.constraint c).isDegenerate = c.isDegenerate := by
  cases r with
  | kept => rfl
  | exchanged => exact Bool.and_comm _ _

theorem meetsAxis_point (h : c.MeetsAxis p) : (r.constraint c).MeetsAxis (r.point p) := by
  refine ⟨r.tight_point.mpr h.1, ?_⟩
  cases r with
  | kept => exact h.2
  | exchanged => exact h.2.symm

/-- The weights of a tolerance in values are the same in both roles. -/
theorem abs_add_abs_objective :
    |(r.objective o).a| + |(r.objective o).b| = |o.a| + |o.b| := by
  cases r with
  | kept => rfl
  | exchanged => exact add_comm _ _

end Roles

/-! ## Rearranged programs -/

/-- The second program is the first one with its rows in some order and its variables in the
given roles. The names of variables and what the rows are called do not matter. -/
structure LinearProgram.Rearranges (r : Roles) (p q : LinearProgram ℚ) : Prop where
  objective : q.objective = r.objective p.objective
  constraints : q.constraints.Perm (p.constraints.map r.constraint)

namespace LinearProgram.Rearranges

variable {r : Roles} {p q : LinearProgram ℚ} {eps : ℚ} {v : Point ℚ}

/-- A rearrangement is taken back by the same exchange. -/
theorem symm (h : Rearranges r p q) : Rearranges r q p where
  objective := by rw [h.objective, Roles.objective_objective]
  constraints := by
    have hback := h.constraints.symm.map r.constraint
    rw [List.map_map, show r.constraint ∘ r.constraint = id from
      funext r.constraint_constraint, List.map_id] at hback
    exact hback

theorem mem_constraints (h : Rearranges r p q) {c : Constraint ℚ} (hc : c ∈ p.constraints) :
    r.constraint c ∈ q.constraints :=
  h.constraints.mem_iff.mpr (List.mem_map_of_mem hc)

/-- Every row of the second program is a row of the first in the new roles. -/
theorem exists_constraint (h : Rearranges r p q) {d : Constraint ℚ} (hd : d ∈ q.constraints) :
    ∃ c ∈ p.constraints, r.constraint c = d :=
  List.mem_map.mp (h.constraints.mem_iff.mp hd)

/-- A program stays sound when it is rearranged. -/
theorem defect?_eq_none (h : Rearranges r p q) (hp : p.defect? = none) : q.defect? = none := by
  rw [defect?_eq_none_iff] at hp ⊢
  intro d hd
  obtain ⟨c, hc, rfl⟩ := h.exists_constraint hd
  rw [r.isDegenerate_constraint]
  exact hp c hc

/-- Two rows that are not parallel are a pair in both programs, in one order or the other. -/
theorem exists_pair (h : Rearranges r p q) {c d : Constraint ℚ} (hcd : (c, d) ∈ pairs p.constraints)
    (hdet : c.det d ≠ 0) : ∃ c' d', (c', d') ∈ pairs q.constraints ∧
      (c' = r.constraint c ∧ d' = r.constraint d ∨ c' = r.constraint d ∧ d' = r.constraint c) := by
  have hc := h.mem_constraints (mem_of_mem_pairs hcd).1
  have hd := h.mem_constraints (mem_of_mem_pairs hcd).2
  have hne : r.constraint c ≠ r.constraint d := by
    intro heq
    have habs := r.abs_det (c := c) (d := d)
    rw [heq, Constraint.det_self, abs_zero] at habs
    exact hdet (abs_eq_zero.mp habs.symm)
  rcases mem_pairs_or hc hd hne with hpair | hpair
  · exact ⟨_, _, hpair, Or.inl ⟨rfl, rfl⟩⟩
  · exact ⟨_, _, hpair, Or.inr ⟨rfl, rfl⟩⟩

/-- Candidates are generated again, with the roles of their coordinates. -/
theorem mem_candidates (h : Rearranges r p q) (heps : 0 < eps)
    (hv : v ∈ candidates p.constraints eps) : r.point v ∈ candidates q.constraints eps := by
  obtain ⟨hquad, hplace⟩ := (mem_candidates_iff heps).mp hv
  rw [mem_candidates_iff heps, r.inQuadrant_point]
  refine ⟨hquad, ?_⟩
  rcases hplace with rfl | ⟨c, hc, hmeets⟩ | ⟨c, d, hcd, hdet, hctight, hdtight⟩
  · exact Or.inl r.point_origin
  · exact Or.inr (Or.inl ⟨_, h.mem_constraints hc, r.meetsAxis_point hmeets⟩)
  · have hc' := r.tight_point.mpr hctight
    have hd' := r.tight_point.mpr hdtight
    -- the two rows may stand in the other order now
    obtain ⟨c', d', hpair, heq⟩ := h.exists_pair hcd (abs_pos.mp (heps.trans_le hdet))
    refine Or.inr (Or.inr ⟨c', d', hpair, ?_⟩)
    rcases heq with ⟨rfl, rfl⟩ | ⟨rfl, rfl⟩
    · exact ⟨by rw [r.abs_det]; exact hdet, hc', hd'⟩
    · exact ⟨by rw [r.abs_det, Constraint.det_comm, abs_neg]; exact hdet, hd', hc'⟩

theorem feasible (h : Rearranges r p q) (hv : feasible p.constraints eps v = true) :
    CornerPoint.feasible q.constraints eps (r.point v) = true := by
  rw [feasible_iff] at hv ⊢
  intro d hd
  obtain ⟨c, hc, rfl⟩ := h.exists_constraint hd
  rw [r.holds_point]
  exact hv c hc

/-- **The feasible candidates are the same points.** -/
theorem mem_feasibleCandidates_of_rearranges (h : Rearranges r p q) (heps : 0 < eps)
    (hv : v ∈ feasibleCandidates p.constraints eps) :
    r.point v ∈ feasibleCandidates q.constraints eps := by
  obtain ⟨hgen, hfeas⟩ := List.mem_filter.mp hv
  exact List.mem_filter.mpr ⟨h.mem_candidates heps hgen, h.feasible hfeas⟩

/-! ## Their outcomes -/

variable {sweep sweep' : Sweep ℚ}

/-- Every corner of the first program is near a corner of the second. -/
theorem exists_near_corner (h : Rearranges r p q) (sweep' : Sweep ℚ) (heps : 0 < eps)
    (hv : v ∈ corners sweep p.constraints eps) :
    ∃ w ∈ corners sweep' q.constraints eps, w.near (r.point v) eps = true := by
  have hv' : v ∈ feasibleCandidates p.constraints eps :=
    List.mem_filter.mpr (mem_feasibleCandidates_of_mem_corners hv)
  obtain ⟨hgen, hfeas⟩ := List.mem_filter.mp (h.mem_feasibleCandidates_of_rearranges heps hv')
  exact exists_near_mem_corners sweep' heps hgen hfeas

/-- A region with a corner has one in any spelling, however the corners are sorted. -/
theorem corners_ne_nil (h : Rearranges r p q) (sweep' : Sweep ℚ) (heps : 0 < eps)
    (hne : corners sweep p.constraints eps ≠ []) : corners sweep' q.constraints eps ≠ [] := by
  obtain ⟨v, hv⟩ := List.exists_mem_of_ne_nil _ hne
  obtain ⟨w, hw, _⟩ := h.exists_near_corner sweep' heps hv
  exact List.ne_nil_of_mem hw

/-- The optimum of the second program is hardly worse than that of the first. -/
theorem merit_le (h : Rearranges r p q) (heps : 0 < eps) {top top' : Optimum ℚ}
    (htop : p.objective.FirstBest (corners sweep p.constraints eps) top)
    (htop' : q.objective.FirstBest (corners sweep' q.constraints eps) top') :
    p.objective.sense.merit top.value
      ≤ p.objective.sense.merit top'.value + (|p.objective.a| + |p.objective.b|) * eps := by
  obtain ⟨w, hw, hnear⟩ := h.exists_near_corner sweep' heps htop.mem
  -- near the first optimum there is a corner of the second program, which loses little and is not
  -- better than its optimum
  have hloss := Objective.merit_le_of_near (o := q.objective) hnear
  have hbest := Objective.not_improves_iff.mp (htop'.not_improves hw)
  have hsense : q.objective.sense = p.objective.sense := by
    rw [h.objective, Roles.objective_sense]
  rw [hsense] at hloss hbest
  rw [h.objective, Roles.valueAt_point, Roles.abs_add_abs_objective, ← h.objective] at hloss
  calc p.objective.sense.merit top.value
      = p.objective.sense.merit (p.objective.valueAt top.point) := by rw [htop.value_eq]
    _ ≤ p.objective.sense.merit (q.objective.valueAt w)
          + (|p.objective.a| + |p.objective.b|) * eps := hloss
    _ ≤ p.objective.sense.merit top'.value + (|p.objective.a| + |p.objective.b|) * eps :=
        add_le_add_left hbest _

/-- And the other way round, so that the values of the two optima are close. -/
theorem abs_value_sub_le (h : Rearranges r p q) (heps : 0 < eps) {top top' : Optimum ℚ}
    (htop : p.objective.FirstBest (corners sweep p.constraints eps) top)
    (htop' : q.objective.FirstBest (corners sweep' q.constraints eps) top') :
    |top.value - top'.value| ≤ (|p.objective.a| + |p.objective.b|) * eps := by
  have hle := h.merit_le heps htop htop'
  have hge := h.symm.merit_le heps htop' htop
  rw [h.objective, Roles.objective_sense, Roles.abs_add_abs_objective] at hge
  rw [abs_le]
  cases hsense : p.objective.sense with
  | maximize =>
    rw [hsense] at hle hge
    simp only [Sense.merit] at hle hge
    exact ⟨by linarith, by linarith⟩
  | minimize =>
    rw [hsense] at hle hge
    simp only [Sense.merit] at hle hge
    exact ⟨by linarith, by linarith⟩

end LinearProgram.Rearranges

/-- Two outcomes agree up to a tolerance when the points of the second are read in the given
roles. -/
structure Solution.Agree (r : Roles) (o : Objective ℚ) (eps : ℚ) (s t : Solution ℚ) : Prop where
  isOptimal : s.isOptimal = t.isOptimal
  corner : ∀ v ∈ s.corners, ∃ w ∈ t.corners, (r.point v).near w eps = true
  corner_back : ∀ w ∈ t.corners, ∃ v ∈ s.corners, (r.point w).near v eps = true
  value : ∀ top top', s.optimum? = some top → t.optimum? = some top' →
    |top.value - top'.value| ≤ (|o.a| + |o.b|) * eps

namespace LinearProgram

/-- The verdicts agree because both programs have a corner or neither has. -/
theorem Rearranges.agree {r : Roles} {p q : LinearProgram ℚ} {eps : ℚ} (h : Rearranges r p q)
    (sweep sweep' : Sweep ℚ) (heps : 0 < eps) :
    (p.solution sweep eps).Agree r p.objective eps (q.solution sweep' eps) := by
  have hnear : ∀ {u w : Point ℚ}, w.near u eps = true → u.near w eps = true :=
    fun hw => Point.near_comm.trans hw
  rcases solution_cases sweep eps p with ⟨hnil, heq⟩ | ⟨top, htop, heq⟩
  · rcases solution_cases sweep' eps q with ⟨_, heq'⟩ | ⟨top', htop', _⟩
    · rw [heq, heq']
      exact ⟨rfl, fun v hv => absurd hv List.not_mem_nil, fun w hw => absurd hw List.not_mem_nil,
        fun _ _ htop _ => absurd htop (by simp [Solution.optimum?])⟩
    -- a corner of one program has a corner of the other one close to it
    · exact absurd hnil (h.symm.corners_ne_nil sweep heps (List.ne_nil_of_mem htop'.mem))
  · rcases solution_cases sweep' eps q with ⟨hnil', _⟩ | ⟨top', htop', heq'⟩
    · exact absurd hnil' (h.corners_ne_nil sweep' heps (List.ne_nil_of_mem htop.mem))
    · rw [heq, heq']
      refine ⟨rfl, fun v hv => ?_, fun w hw => ?_, fun t t' ht ht' => ?_⟩
      · obtain ⟨w, hw, hclose⟩ := h.exists_near_corner sweep' heps hv
        exact ⟨w, hw, hnear hclose⟩
      · obtain ⟨v, hv, hclose⟩ := h.symm.exists_near_corner sweep heps hw
        exact ⟨v, hv, hnear hclose⟩
      · obtain rfl : top = t := Option.some.inj ht
        obtain rfl : top' = t' := Option.some.inj ht'
        exact h.abs_value_sub_le heps htop htop'

/-- **Neither the order of the rows nor the roles of the variables matter** beyond the
tolerance. Both programs have an outcome, whatever sweeps order the corners, and the outcomes
agree. -/
theorem solve_rearranged {r : Roles} {p q : LinearProgram ℚ} {eps : ℚ} (sweep sweep' : Sweep ℚ)
    (heps : 0 < eps) (hp : p.validate = .ok ()) (h : Rearranges r p q) :
    ∃ s t, p.solve sweep eps = .ok s ∧ q.solve sweep' eps = .ok t ∧
      s.Agree r p.objective eps t := by
  have hdefect := validate_eq_ok_iff.mp hp
  exact ⟨_, _, solve_eq_ok heps hdefect, solve_eq_ok heps (h.defect?_eq_none hdefect),
    h.agree sweep sweep' heps⟩

/-- Two parallel rows so close to each other that the corner on either is feasible. -/
def rails : LinearProgram ℚ where
  vars := .standard
  objective := ⟨1, 0, .maximize⟩
  constraints := [⟨"inner", 1, 0, .le, 1⟩, ⟨"outer", 1, 0, .le, 2001 / 2000⟩]

/-- The rails in the other order and along the other axis. -/
def railsTurned : LinearProgram ℚ where
  vars := .standard
  objective := ⟨0, 1, .maximize⟩
  constraints := [⟨"outer", 0, 1, .le, 2001 / 2000⟩, ⟨"inner", 0, 1, .le, 1⟩]

/-- The rails, with the variables exchanged and the rows in another order. -/
theorem rearranges_rails : Rearranges .exchanged rails railsTurned :=
  ⟨rfl, List.Perm.swap _ _ _⟩

/-- Another one of the two near corners is kept, so that the optima differ by half the
tolerance. -/
theorem solve_rearranged_rails : (0 : ℚ) < 1 / 1000 ∧ rails.validate = .ok () ∧
    Rearranges .exchanged rails railsTurned ∧
    ∃ s t, rails.solve .diamond (1 / 1000) = .ok s ∧
      railsTurned.solve .diamond (1 / 1000) = .ok t ∧
      s.optimum? = some ⟨⟨1, 0⟩, 1⟩ ∧ t.optimum? = some ⟨⟨0, 2001 / 2000⟩, 2001 / 2000⟩ ∧
      s.Agree .exchanged rails.objective (1 / 1000) t := by
  have heps : (0 : ℚ) < 1 / 1000 := by norm_num
  have hval : rails.validate = .ok () := by rfl
  have hturned : railsTurned.validate = .ok () := by rfl
  obtain ⟨s, t, hs, ht, hagree⟩ :=
    solve_rearranged .diamond .diamond heps hval rearranges_rails
  obtain rfl := solution_eq_of_solve heps hval hs
  obtain rfl := solution_eq_of_solve heps hturned ht
  exact ⟨heps, hval, rearranges_rails, _, _, hs, ht, by cbv, by cbv, hagree⟩

end LinearProgram

end CornerPoint

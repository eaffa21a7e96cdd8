import Mathlib
import CornerPoint.Proofs.Program.Optimality

/-!
# A wider tolerance

One tolerance goes into every stage of the method, and the stages do not agree on what a larger
one means. The test of feasibility accepts more points, and the test for parallel lines
discards more crossings. So the verdict optimal is not monotone in the tolerance, and this file
says what it loses:

> `mem_candidates_widened_iff`: a candidate stays one, unless it lies off the axes and every
> two rows through it have a determinant below the wider tolerance (`Faded`).
> `isOptimal_widened_iff`: the verdict stays optimal exactly when some candidate that is
> feasible at the wider tolerance has not faded.

In particular nothing is lost when no determinant lies between the two tolerances. Otherwise
everything may be lost: the two rows of `faint` cross in their only feasible point, and the
point fades (`optimal_lost`).
-/

namespace CornerPoint

section Stages

variable {cs : List (Constraint ℚ)} {eps₁ eps₂ : ℚ} {q : Point ℚ}

/-! ## Feasibility -/

/-- A test is passed at every wider tolerance. -/
theorem Constraint.holds_mono {c : Constraint ℚ} (hle : eps₁ ≤ eps₂)
    (h : c.holds eps₁ q = true) : c.holds eps₂ q = true := by
  rw [Constraint.holds_iff] at h ⊢
  cases hrel : c.relation with
  | le =>
    simp only [hrel] at h ⊢
    linarith
  | ge =>
    simp only [hrel] at h ⊢
    linarith
  | eq =>
    simp only [hrel] at h ⊢
    exact h.trans_le hle

/-- A wider tolerance accepts every point that a narrow one accepts. -/
theorem feasible_mono (hle : eps₁ ≤ eps₂) (h : feasible cs eps₁ q = true) :
    feasible cs eps₂ q = true := by
  rw [feasible_iff] at h ⊢
  intro c hc
  exact Constraint.holds_mono hle (h c hc)

/-! ## Candidates -/

/-- The point lies off the axes, and every two rows through it count as parallel. -/
structure Faded (eps : ℚ) (cs : List (Constraint ℚ)) (q : Point ℚ) : Prop where
  offX : q.x ≠ 0
  offY : q.y ≠ 0
  parallel : ∀ c d, (c, d) ∈ pairs cs → c.Tight q → d.Tight q → |c.det d| < eps

/-- Two rows that cross on an axis: one of them is not parallel to it, and meets it there. -/
theorem exists_meetsAxis {c d : Constraint ℚ} (hcd : (c, d) ∈ pairs cs) (hdet : c.det d ≠ 0)
    (hc : c.Tight q) (hd : d.Tight q) (haxis : q.x = 0 ∨ q.y = 0) : ∃ e ∈ cs, e.MeetsAxis q := by
  obtain ⟨hcmem, hdmem⟩ := mem_of_mem_pairs hcd
  rw [Constraint.det_rat] at hdet
  rcases haxis with hx | hy
  -- rows that cross are not both parallel to one axis
  · by_cases hcb : c.b = 0
    · have hdb : d.b ≠ 0 := by
        intro hdb
        rw [hcb, hdb] at hdet
        simp at hdet
      exact ⟨d, hdmem, hd, Or.inr ⟨hdb, hx⟩⟩
    · exact ⟨c, hcmem, hc, Or.inr ⟨hcb, hx⟩⟩
  · by_cases hca : c.a = 0
    · have hda : d.a ≠ 0 := by
        intro hda
        rw [hca, hda] at hdet
        simp at hdet
      exact ⟨d, hdmem, hd, Or.inl ⟨hda, hy⟩⟩
    · exact ⟨c, hcmem, hc, Or.inl ⟨hca, hy⟩⟩

/-- On the axes the candidates do not depend on the tolerance. -/
theorem mem_candidates_of_axis (h₁ : 0 < eps₁) (h₂ : 0 < eps₂) (hq : q ∈ candidates cs eps₁)
    (haxis : q.x = 0 ∨ q.y = 0) : q ∈ candidates cs eps₂ := by
  rw [mem_candidates_iff h₁] at hq
  rw [mem_candidates_iff h₂]
  obtain ⟨hquad, horigin | hmeets | ⟨c, d, hcd, hdet, hc, hd⟩⟩ := hq
  · exact ⟨hquad, Or.inl horigin⟩
  · exact ⟨hquad, Or.inr (Or.inl hmeets)⟩
  · have hne : c.det d ≠ 0 := abs_pos.mp (h₁.trans_le hdet)
    exact ⟨hquad, Or.inr (Or.inl (exists_meetsAxis hcd hne hc hd haxis))⟩

/-- A wider tolerance generates no new candidates. -/
theorem candidates_anti (h₁ : 0 < eps₁) (hle : eps₁ ≤ eps₂) :
    candidates cs eps₂ ⊆ candidates cs eps₁ := by
  intro q hq
  rw [mem_candidates_iff (h₁.trans_le hle)] at hq
  rw [mem_candidates_iff h₁]
  obtain ⟨hquad, horigin | hmeets | ⟨c, d, hcd, hdet, hcross⟩⟩ := hq
  · exact ⟨hquad, Or.inl horigin⟩
  · exact ⟨hquad, Or.inr (Or.inl hmeets)⟩
  · exact ⟨hquad, Or.inr (Or.inr ⟨c, d, hcd, hle.trans hdet, hcross⟩)⟩

/-- What the candidates have in common: none of them has faded at their own tolerance. -/
theorem not_faded_of_mem_candidates (h₁ : 0 < eps₁) (hq : q ∈ candidates cs eps₁) :
    ¬Faded eps₁ cs q := by
  intro hfaded
  rw [mem_candidates_iff h₁] at hq
  obtain ⟨_, horigin | ⟨c, _, _, ⟨_, hy⟩ | ⟨_, hx⟩⟩ | ⟨c, d, hcd, hdet, hc, hd⟩⟩ := hq
  · exact hfaded.offX (by rw [horigin]; rfl)
  · exact hfaded.offY hy
  · exact hfaded.offX hx
  · exact absurd (hfaded.parallel c d hcd hc hd) (not_lt.mpr hdet)

/-- **What a wider tolerance does to the candidates.** Those that have faded are lost. -/
theorem mem_candidates_widened_iff (h₁ : 0 < eps₁) (hle : eps₁ ≤ eps₂) :
    q ∈ candidates cs eps₂ ↔ q ∈ candidates cs eps₁ ∧ ¬Faded eps₂ cs q := by
  have h₂ : 0 < eps₂ := h₁.trans_le hle
  constructor
  · intro hq
    exact ⟨candidates_anti h₁ hle hq, not_faded_of_mem_candidates h₂ hq⟩
  · intro h
    obtain ⟨hq, hkept⟩ := h
    by_cases hx : q.x = 0
    · exact mem_candidates_of_axis h₁ h₂ hq (Or.inl hx)
    · by_cases hy : q.y = 0
      · exact mem_candidates_of_axis h₁ h₂ hq (Or.inr hy)
      · -- off the axes, only two rows that still count as crossing can have kept the point
        have hcross : ∃ c d, (c, d) ∈ pairs cs ∧ eps₂ ≤ |c.det d| ∧ c.Tight q ∧ d.Tight q := by
          by_contra hnone
          refine hkept ⟨hx, hy, fun c d hcd hc hd => ?_⟩
          by_contra hdet
          exact hnone ⟨c, d, hcd, not_lt.mp hdet, hc, hd⟩
        have hquad : q.inQuadrant = true := ((mem_candidates_iff h₁).mp hq).1
        exact (mem_candidates_iff h₂).mpr ⟨hquad, Or.inr (Or.inr hcross)⟩

/-- Without a determinant between the two tolerances no candidate fades. -/
theorem not_faded_of_gap (h₁ : 0 < eps₁)
    (hgap : ∀ c d, (c, d) ∈ pairs cs → |c.det d| < eps₁ ∨ eps₂ ≤ |c.det d|)
    (hq : q ∈ candidates cs eps₁) : ¬Faded eps₂ cs q := by
  intro hfaded
  refine not_faded_of_mem_candidates h₁ hq ⟨hfaded.offX, hfaded.offY, fun c d hcd hc hd => ?_⟩
  rcases hgap c d hcd with hsmall | hlarge
  · exact hsmall
  · exact absurd (hfaded.parallel c d hcd hc hd) (not_lt.mpr hlarge)

end Stages

namespace LinearProgram

variable {p : LinearProgram ℚ} {sweep : Sweep ℚ} {eps : ℚ}

/-! ## The verdict -/

/-- The corners of an outcome are the listed corners, whatever the verdict. -/
theorem solution_corners (sweep : Sweep ℚ) (eps : ℚ) (p : LinearProgram ℚ) :
    (p.solution sweep eps).corners = corners sweep p.constraints eps := by
  rcases solution_cases sweep eps p with ⟨hnil, heq⟩ | ⟨top, _, heq⟩
  · rw [heq, hnil]
    rfl
  · rw [heq]
    rfl

/-- Where there is an optimum there is a corner. -/
theorem exists_mem_corners (heps : 0 < eps) (h : (p.solution sweep eps).isOptimal = true) :
    ∃ v, v ∈ corners sweep p.constraints eps := by
  rw [(solution_consistent sweep eps heps p).isOptimal_iff_corners, solution_corners] at h
  exact List.exists_mem_of_ne_nil _ h

/-- The verdict is optimal exactly when some candidate is feasible. -/
theorem isOptimal_iff (heps : 0 < eps) : (p.solution sweep eps).isOptimal = true ↔
    ∃ q ∈ candidates p.constraints eps, feasible p.constraints eps q = true := by
  constructor
  · intro h
    obtain ⟨v, hv⟩ := exists_mem_corners heps h
    exact ⟨v, mem_feasibleCandidates_of_mem_corners hv⟩
  · intro h
    obtain ⟨q, hq, hfeas⟩ := h
    obtain ⟨v, hv, _⟩ := exists_near_mem_corners sweep heps hq hfeas
    obtain ⟨_, _, hopt, _⟩ := solution_of_mem_corners hv
    exact hopt

/-- **Which verdicts survive a wider tolerance.** A program that is optimal at one tolerance has
an outcome at every wider one. That outcome is optimal exactly when some candidate that is now
feasible has not faded; every listed corner that has not faded is still listed, up to a near
duplicate; and all of them are, when no determinant lies between the tolerances. -/
theorem isOptimal_widened_iff (sweep : Sweep ℚ) {eps₁ eps₂ : ℚ} (h₁ : 0 < eps₁)
    (hle : eps₁ ≤ eps₂) (hp : p.validate = .ok ()) {s₁ : Solution ℚ}
    (hs₁ : p.solve sweep eps₁ = .ok s₁) (hopt : s₁.isOptimal = true) :
    ∃ s₂, p.solve sweep eps₂ = .ok s₂ ∧
      (s₂.isOptimal = true ↔ ∃ q ∈ candidates p.constraints eps₁,
        feasible p.constraints eps₂ q = true ∧ ¬Faded eps₂ p.constraints q) ∧
      (∀ v ∈ s₁.corners, ¬Faded eps₂ p.constraints v →
        ∃ u ∈ s₂.corners, u.near v eps₂ = true) ∧
      ((∀ c d, (c, d) ∈ pairs p.constraints → |c.det d| < eps₁ ∨ eps₂ ≤ |c.det d|) →
        s₂.isOptimal = true) := by
  have h₂ : 0 < eps₂ := h₁.trans_le hle
  have hdefect : p.defect? = none := validate_eq_ok_iff.mp hp
  obtain rfl := solution_eq_of_solve h₁ hp hs₁
  -- the candidates of the wide tolerance are those of the narrow one that have not faded
  have hverdict : (p.solution sweep eps₂).isOptimal = true ↔
      ∃ q ∈ candidates p.constraints eps₁,
        feasible p.constraints eps₂ q = true ∧ ¬Faded eps₂ p.constraints q := by
    rw [isOptimal_iff h₂]
    simp only [mem_candidates_widened_iff h₁ hle]
    tauto
  refine ⟨p.solution sweep eps₂, solve_eq_ok h₂ hdefect, hverdict, ?_, ?_⟩
  · intro v hv hkept
    rw [solution_corners] at hv ⊢
    obtain ⟨hcand, hfeas⟩ := mem_feasibleCandidates_of_mem_corners hv
    exact exists_near_mem_corners sweep h₂ ((mem_candidates_widened_iff h₁ hle).mpr ⟨hcand, hkept⟩)
      (feasible_mono hle hfeas)
  · intro hgap
    obtain ⟨v, hv⟩ := exists_mem_corners h₁ hopt
    obtain ⟨hcand, hfeas⟩ := mem_feasibleCandidates_of_mem_corners hv
    exact hverdict.mpr ⟨v, hcand, feasible_mono hle hfeas, not_faded_of_gap h₁ hgap hcand⟩

/-- The determinant of the two rows is `-1`. -/
theorem blend_gap : ∀ c d, (c, d) ∈ pairs blend.constraints →
    |c.det d| < (1 / 1000 : ℚ) ∨ (1 / 100 : ℚ) ≤ |c.det d| := by
  have hall : ∀ cd ∈ pairs blend.constraints, (1 / 100 : ℚ) ≤ |cd.1.det cd.2| := by
    decide +kernel
  intro c d hcd
  exact Or.inr (hall (c, d) hcd)

/-- No determinant lies between the two tolerances, so that the verdict stays. -/
theorem isOptimal_widened_iff_blend : (0 : ℚ) < 1 / 1000 ∧ (1 / 1000 : ℚ) ≤ 1 / 100 ∧
    blend.validate = .ok () ∧
    ∃ s₁ s₂, blend.solve .diamond (1 / 1000) = .ok s₁ ∧ s₁.isOptimal = true ∧
      blend.solve .diamond (1 / 100) = .ok s₂ ∧ s₂.isOptimal = true := by
  have hdefect : blend.defect? = none := by decide +kernel
  have hs : blend.solve .diamond (1 / 1000) = .ok (blend.solution .diamond (1 / 1000)) :=
    solve_eq_ok (by norm_num) hdefect
  have hsome : (candidates blend.constraints (1 / 1000)).any (feasible blend.constraints (1 / 1000))
      = true := by decide +kernel
  have hopt : (blend.solution .diamond (1 / 1000)).isOptimal = true :=
    (isOptimal_iff (by norm_num)).mpr (List.any_eq_true.mp hsome)
  obtain ⟨s₂, hs₂, _, _, hkept⟩ := isOptimal_widened_iff .diamond (by norm_num)
    (by norm_num : (1 / 1000 : ℚ) ≤ 1 / 100) (validate_eq_ok_iff.mpr hdefect) hs hopt
  exact ⟨by norm_num, by norm_num, validate_eq_ok_iff.mpr hdefect, _, s₂, hs, hopt, hs₂,
    hkept blend_gap⟩

/-- **A wider tolerance can lose the verdict.** The crossing of the two rows of `faint` is found
at one ten-thousandth, and at one thousandth the same program is infeasible. -/
theorem optimal_lost : (0 : ℚ) < 1 / 10000 ∧ (1 / 10000 : ℚ) ≤ 1 / 1000 ∧
    faint.validate = .ok () ∧
    (∃ s, faint.solve .diamond (1 / 10000) = .ok s ∧ s.isOptimal = true) ∧
    ∃ s, faint.solve .diamond (1 / 1000) = .ok s ∧ s.isOptimal = false := by
  have hopt : (faint.solution .diamond (1 / 10000)).isOptimal = true := by decide +kernel
  exact ⟨by norm_num, by norm_num, validate_eq_ok_iff.mpr faint_defect?,
    ⟨_, solve_eq_ok (by norm_num) faint_defect?, hopt⟩,
    ⟨_, solve_eq_ok (by norm_num) faint_defect?, faint_isOptimal⟩⟩

end LinearProgram

end CornerPoint

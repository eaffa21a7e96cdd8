import Mathlib
import CornerPoint.Proofs.Compile.WellFormed

/-!
# Constraints without variables

A linear program names a degenerate row by its index. Compiling makes one row of each constraint,
in order, so this index is one of a constraint as well; and the row is degenerate because no
variable is left in the difference of the sides of the constraint. So the constraint can be told
from the source alone:

> `exists_firstVanishing`: the index of a degenerate row is that of the first constraint whose
> sides have a difference without variables.
-/

namespace CornerPoint.Compile

open Source

variable {K : Type} [Scalar K] {v : Variables} {p : Problem K}

/-- Both sides of the constraint have linear forms over `v`, and no variable occurs in their
difference. -/
def Vanishes (v : Variables) (line : ConstraintLine K) : Prop :=
  ∃ l r, lower v line.lhs = .ok l ∧ lower v line.rhs = .ok r ∧ (l.sub r).isConstant = true

/-- The constraint with the index `i` is the first one of the problem that vanishes. -/
def FirstVanishing (v : Variables) (p : Problem K) (i : Nat) (line : ConstraintLine K) : Prop :=
  p.constraints[i]? = some line ∧ Vanishes v line ∧
    ∀ j < i, ∀ earlier, p.constraints[j]? = some earlier → ¬ Vanishes v earlier

theorem plain_beq_zero (hzero : ((0 : K) == 0) = true) (k : K) : (plain k == 0) = (k == 0) := by
  unfold plain
  split
  next h => rw [hzero, h]
  next => rfl

/-- A row has no variable exactly if the difference of the sides of its constraint has none. -/
theorem isDegenerate_rowOf (hzero : ((0 : K) == 0) = true) {label : String}
    {line : ConstraintLine K} {row : Constraint K} (h : rowOf v label line = .ok row) :
    row.isDegenerate = true ↔ Vanishes v line := by
  unfold rowOf at h
  split at h
  next => cases h
  next => cases h
  next l r hl hr =>
    cases h
    have hsame : ∀ d : Linear K, (plain d.a == 0 && plain d.b == 0) = d.isConstant := fun d => by
      rw [plain_beq_zero hzero, plain_beq_zero hzero, Linear.isConstant]
    simp only [Constraint.isDegenerate, hsame, Vanishes, hl, hr, Except.ok.injEq]
    constructor
    · intro h
      exact ⟨l, r, rfl, rfl, h⟩
    · rintro ⟨l', r', rfl, rfl, h⟩
      exact h

section Steps

variable {name label : String} {index : Nat} {lp : LinearProgram K}

omit [Scalar K] in
/-- The variables are never blamed for a defect of a program. -/
theorem variablesOf_ne_invalid {defect : Defect} :
    variablesOf p ≠ .error (.invalid name defect) := by
  unfold variablesOf
  split
  next => simp
  next =>
    split
    next => split <;> simp
    next => simp

/-- An objective has defects of its own, but not that of a row without variables. -/
theorem objectiveOf_ne_degenerate :
    objectiveOf p v ≠ .error (.invalid name (.degenerate index label)) := by
  unfold objectiveOf
  split
  next => simp
  next =>
    split
    next => simp
    next =>
      split
      next => simp
      next => split <;> simp
  next => simp

/-- Rows are made without a look at their coefficients: those are checked in the program as a
whole. -/
theorem rowsFrom_ne_invalid {problem : String} {defect : Defect} :
    ∀ (lines : List (ConstraintLine K)) (i : Nat) (used : List String),
      rowsFrom problem v i used lines ≠ .error (.invalid name defect)
  | [], _, _ => by simp [rowsFrom]
  | line :: rest, i, used => by
    have ih : rowsFrom problem v (i + 1) (labelOf i line :: used) rest ≠
        .error (.invalid name defect) := rowsFrom_ne_invalid rest _ _
    rw [rowsFrom]
    split
    next => simp
    next =>
      split
      next => simp
      next =>
        split
        next e he => rw [he] at ih; simpa using ih
        next => simp

/-- A degenerate row is found in a program, when all other checks have been passed. -/
theorem exists_program (h : programOf p = .error (.invalid name (.degenerate index label))) :
    ∃ lp : LinearProgram K, variablesOf p = .ok lp.vars ∧
      rowsFrom p.name lp.vars 0 [] p.constraints = .ok lp.constraints ∧
      Constraint.firstDefect? 0 lp.constraints = some (.degenerate index label) := by
  unfold programOf at h
  split at h
  next e he => cases h; exact absurd he variablesOf_ne_invalid
  next v hv =>
    split at h
    next e he => cases h; exact absurd he objectiveOf_ne_degenerate
    next o ho =>
      split at h
      next e he => cases h; exact absurd he (rowsFrom_ne_invalid _ _ _)
      next rows hrows =>
        dsimp only at h
        split at h
        -- the error comes from here: the earlier stages cannot make it
        next defect hdefect =>
          cases h
          refine ⟨⟨v, o, rows⟩, hv, hrows, ?_⟩
          unfold LinearProgram.defect? at hdefect
          split at hdefect
          next => cases hdefect
          next => exact hdefect
        next => cases h

/-- Only a degenerate row has this defect. -/
theorem defectAt_eq_degenerate {i : Nat} {row : Constraint K} (h : ¬row.Sound)
    (hdefect : row.defectAt i = .degenerate index label) : i = index ∧ row.isDegenerate = true := by
  unfold Constraint.defectAt at hdefect
  split at hdefect
  next hfinite =>
    cases hdefect
    exact ⟨rfl, by_contra fun hnot => h ⟨hfinite, Bool.eq_false_iff.mpr hnot⟩⟩
  next => cases hdefect

/-- Rows and constraints are in step. -/
theorem exists_row {rows : List (Constraint K)} (hrows : loweredRows v p = rows.map .ok) {i : Nat}
    {line : ConstraintLine K} (hline : p.constraints[i]? = some line) :
    ∃ row, rows[i]? = some row ∧ rowOf v (labelOf i line) line = .ok row := by
  have hi : (loweredRows v p)[i]? = some (rowOf v (labelOf i line) line) := by
    rw [loweredRows, List.getElem?_mapIdx, hline]
    rfl
  rw [hrows, List.getElem?_map] at hi
  obtain ⟨row, hrow, heq⟩ := Option.map_eq_some_iff.mp hi
  exact ⟨row, hrow, heq.symm⟩

theorem exists_line {rows : List (Constraint K)} (hrows : loweredRows v p = rows.map .ok) {i : Nat}
    {row : Constraint K} (hrow : rows[i]? = some row) : ∃ line, p.constraints[i]? = some line := by
  have hlength := congrArg List.length hrows
  rw [loweredRows, List.length_mapIdx, List.length_map] at hlength
  exact ⟨_, List.getElem?_eq_getElem (hlength ▸ (List.getElem?_eq_some_iff.mp hrow).1)⟩

/-- The index of a degenerate row is that of the first constraint that vanishes. -/
theorem exists_firstVanishing (hzero : ((0 : K) == 0) = true)
    (h : programOf p = .error (.invalid name (.degenerate index label))) :
    ∃ v line, Declares p v ∧ FirstVanishing v p index line := by
  obtain ⟨lp, hv, hrows, hdefect⟩ := exists_program h
  have hlowered := (rowsFrom_start.mp hrows).1
  have hbad : ∃ row ∈ lp.constraints, ¬row.Sound := by
    by_contra hall
    push Not at hall
    rw [(Constraint.firstDefect?_eq_none_iff _ 0).mpr hall] at hdefect
    cases hdefect
  obtain ⟨i, row, hrow, hunsound, hfirst⟩ := exists_first_unsound hbad
  rw [Constraint.firstDefect?_of_first _ 0 i hrow hunsound hfirst, Nat.zero_add,
    Option.some.injEq] at hdefect
  obtain ⟨rfl, hdegenerate⟩ := defectAt_eq_degenerate hunsound hdefect
  obtain ⟨line, hline⟩ := exists_line hlowered hrow
  obtain ⟨row', hrow', hof⟩ := exists_row hlowered hline
  obtain rfl := Option.some.inj (hrow.symm.trans hrow')
  refine ⟨lp.vars, line, variablesOf_eq_ok_iff.mp hv, hline,
    (isDegenerate_rowOf hzero hof).mp hdegenerate, fun j hj earlier hearlier hvanish => ?_⟩
  -- a constraint in front of it has a sound row
  obtain ⟨other, hother, hof⟩ := exists_row hlowered hearlier
  have hsound := (hfirst j hj other hother).2
  rw [(isDegenerate_rowOf hzero hof).mpr hvanish] at hsound
  cases hsound

end Steps

end CornerPoint.Compile

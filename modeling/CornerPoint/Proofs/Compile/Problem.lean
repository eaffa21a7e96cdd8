import Mathlib.Data.List.Basic
import CornerPoint.Compile.Problem

/-!
# The steps of compiling a problem

Compiling goes through variables, objective, rows and defects in this order and stops at the
first failure. Here it is said of every step what it accepts and what it makes of that, whatever
the numbers are:

> `variablesOf_eq_ok_iff`, `objectiveOf_eq_ok_iff`, `rowsFrom_eq_ok_iff`: the single steps.
> `programOf_eq_ok_iff`: a program comes out when all steps succeed and nothing is defective.

Labels are compared while rows are lowered, each with those in front of it, and this amounts to
all labels being different (`labels`).
-/

namespace CornerPoint.Compile

open Source

variable {K : Type}

/-- The problem is about the variables `v`: the standard ones if it lists none, and otherwise
the two different names that it lists. -/
def Declares (p : Problem K) (v : Variables) : Prop :=
  p.vars = none ∧ v = .standard ∨
    ∃ list, p.vars = some list ∧ list.names = [v.x, v.y] ∧ v.x ≠ v.y

/-- The labels of the constraints: their own, or made from their places. -/
def labels (p : Problem K) : List String := p.constraints.mapIdx labelOf

variable [Scalar K]

/-- The rows of the constraints, as far as both sides have linear forms. -/
def loweredRows (v : Variables) (p : Problem K) : List (Except ExprError (Constraint K)) :=
  p.constraints.mapIdx fun i line => rowOf v (labelOf i line) line

/-! ## Variables and objective -/

section Parts

variable {p : Problem K} {v : Variables}

omit [Scalar K] in
/-- The variables of a problem are those it declares, or the standard ones. -/
theorem variablesOf_eq_ok_iff : variablesOf p = .ok v ↔ Declares p v := by
  unfold variablesOf Declares
  cases hvars : p.vars with
  | none => simp [eq_comm]
  | some list =>
    simp only [reduceCtorEq, false_and, false_or, Option.some.injEq, exists_eq_left']
    split
    next x y hnames =>
      rw [hnames]
      split
      -- two names, but the same name twice
      next heq =>
        refine ⟨fun h => absurd h (by simp), fun h => ?_⟩
        obtain ⟨hlist, hne⟩ := h
        obtain ⟨rfl, rfl⟩ : x = v.x ∧ y = v.y := by simpa using hlist
        exact absurd heq hne
      next hne =>
        constructor
        · intro h
          obtain rfl := Except.ok.inj h
          exact ⟨rfl, hne⟩
        · intro h
          obtain ⟨rfl, rfl⟩ : x = v.x ∧ y = v.y := by simpa using h.1
          rfl
    -- a list of another length declares nothing
    next names hnames =>
      refine ⟨fun h => absurd h (by simp), fun h => ?_⟩
      exact absurd h.1 (hnames v.x v.y)

omit [Scalar K] in
/-- The two variables of a problem have different names. -/
theorem Declares.ne (h : Declares p v) : v.x ≠ v.y := by
  rcases h with ⟨_, rfl⟩ | ⟨_, _, _, hne⟩
  · decide
  · exact hne

/-- The objective is the only objective line, lowered to a finite form without a constant. -/
theorem objectiveOf_eq_ok_iff {o : Objective K} : objectiveOf p v = .ok o ↔
    ∃ line l, p.objectives = [line] ∧ lower v line.expr = .ok l ∧ l.isFinite = true ∧
      (l.c == 0) = true ∧ o = ⟨plain l.a, plain l.b, line.sense⟩ := by
  constructor
  · intro h
    unfold objectiveOf at h
    split at h
    next => exact absurd h (by simp)
    next line hline =>
      split at h
      next => exact absurd h (by simp)
      next l hl =>
        split at h
        next => exact absurd h (by simp)
        next hfin =>
          split at h
          next hc =>
            -- all four checks are passed on this branch only
            rw [Bool.not_eq_true', Bool.not_eq_false] at hfin
            exact ⟨line, l, hline, hl, hfin, hc, (Except.ok.inj h).symm⟩
          next => exact absurd h (by simp)
    next => exact absurd h (by simp)
  · intro h
    obtain ⟨line, l, hline, hl, hfin, hc, rfl⟩ := h
    unfold objectiveOf
    rw [hline]
    dsimp only
    rw [hl]
    dsimp only
    rw [hfin, hc]
    rfl

end Parts

/-! ## Rows -/

section Rows

variable {v : Variables} {problem label : String}

/-- A line has a row when both of its sides can be lowered. -/
theorem rowOf_isOk_iff {line : ConstraintLine K} : (∃ row, rowOf v label line = .ok row) ↔
    (∃ l, lower v line.lhs = .ok l) ∧ ∃ r, lower v line.rhs = .ok r := by
  unfold rowOf
  cases lower v line.lhs with
  | error e => simp
  | ok l =>
    cases lower v line.rhs with
    | error e => simp
    | ok r => simp

/-- A row bears the label that it was made with. -/
theorem rowOf_name {line : ConstraintLine K} {row : Constraint K}
    (h : rowOf v label line = .ok row) : row.name = label := by
  unfold rowOf at h
  split at h
  next => exact absurd h (by simp)
  next => exact absurd h (by simp)
  next => exact (Except.ok.inj h) ▸ rfl

/-- The labels of constraints, the first of which has the given index. -/
def labelsFrom (index : Nat) (lines : List (ConstraintLine K)) : List String :=
  lines.mapIdx fun i line => labelOf (index + i) line

/-- The rows of constraints, the first of which has the given index. -/
def loweredFrom (v : Variables) (index : Nat) (lines : List (ConstraintLine K)) :
    List (Except ExprError (Constraint K)) :=
  lines.mapIdx fun i line => rowOf v (labelOf (index + i) line) line

omit [Scalar K] in
theorem labelsFrom_cons (index : Nat) (line : ConstraintLine K)
    (rest : List (ConstraintLine K)) :
    labelsFrom index (line :: rest) = labelOf index line :: labelsFrom (index + 1) rest := by
  simp only [labelsFrom, List.mapIdx_cons, Nat.add_zero, Nat.add_assoc, Nat.add_comm 1]

theorem loweredFrom_cons (index : Nat) (line : ConstraintLine K)
    (rest : List (ConstraintLine K)) :
    loweredFrom v index (line :: rest)
      = rowOf v (labelOf index line) line :: loweredFrom v (index + 1) rest := by
  simp only [loweredFrom, List.mapIdx_cons, Nat.add_zero, Nat.add_assoc, Nat.add_comm 1]

/-- Rows come out when all constraints have one and no label is used before. -/
theorem rowsFrom_eq_ok_iff :
    ∀ (lines : List (ConstraintLine K)) (index : Nat) (used : List String)
      (rows : List (Constraint K)), rowsFrom problem v index used lines = .ok rows ↔
        loweredFrom v index lines = rows.map .ok ∧ (labelsFrom index lines).Nodup ∧
          ∀ label ∈ labelsFrom index lines, label ∉ used
  | [], _, _, rows => by
    simp [rowsFrom, loweredFrom, labelsFrom, eq_comm]
  | line :: rest, index, used, rows => by
    have ih := rowsFrom_eq_ok_iff rest (index + 1) (labelOf index line :: used)
    rw [rowsFrom, loweredFrom_cons, labelsFrom_cons, List.nodup_cons, List.forall_mem_cons]
    -- a used label stops before the line is lowered
    by_cases hused : labelOf index line ∈ used
    · rw [if_pos (List.contains_iff_mem.mpr hused)]
      exact ⟨fun h => absurd h (by simp), fun h => absurd hused h.2.2.1⟩
    · rw [if_neg fun h => hused (List.contains_iff_mem.mp h)]
      constructor
      · intro h
        split at h
        next => exact absurd h (by simp)
        next row hrow =>
          split at h
          next => exact absurd h (by simp)
          next rows' hrest =>
            obtain rfl := Except.ok.inj h
            obtain ⟨hlowered, hnodup, hfresh⟩ := (ih rows').mp hrest
            have hhead : labelOf index line ∉ labelsFrom (index + 1) rest := fun hmem =>
              hfresh _ hmem List.mem_cons_self
            exact ⟨by rw [hrow, hlowered, List.map_cons], ⟨hhead, hnodup⟩, hused,
              fun label hlabel hmem => hfresh label hlabel (List.mem_cons_of_mem _ hmem)⟩
      · intro h
        obtain ⟨hlowered, ⟨hhead, hnodup⟩, _, hfresh⟩ := h
        obtain ⟨row, rows', rfl, hrow, hrest⟩ := List.map_eq_cons_iff.mp hlowered.symm
        -- the label of the head joins the used ones, so the induction asks that it does not come
        -- back
        have htail : ∀ label ∈ labelsFrom (index + 1) rest, label ∉ labelOf index line :: used := by
          intro label hlabel hmem
          rcases List.mem_cons.mp hmem with rfl | hmem
          · exact hhead hlabel
          · exact hfresh label hlabel hmem
        rw [← hrow, (ih rows').mpr ⟨hrest.symm, hnodup, htail⟩]

/-- From the first row on: all lines are lowered, and no label comes twice. -/
theorem rowsFrom_start {p : Problem K} {rows : List (Constraint K)} :
    rowsFrom problem v 0 [] p.constraints = .ok rows ↔
      loweredRows v p = rows.map .ok ∧ (labels p).Nodup := by
  rw [rowsFrom_eq_ok_iff]
  simp [loweredFrom, labelsFrom, loweredRows, labels]

end Rows

/-! ## Programs -/

section Programs

variable {p : Problem K} {lp : LinearProgram K}

/-- What the program of a problem is made of, and that it has no defect. -/
theorem programOf_eq_ok_iff : programOf p = .ok lp ↔
    variablesOf p = .ok lp.vars ∧ objectiveOf p lp.vars = .ok lp.objective ∧
      rowsFrom p.name lp.vars 0 [] p.constraints = .ok lp.constraints ∧ lp.defect? = none := by
  constructor
  · intro h
    -- four stages, each of which has to succeed
    unfold programOf at h
    split at h
    next => exact absurd h (by simp)
    next v hv =>
      split at h
      next => exact absurd h (by simp)
      next o ho =>
        split at h
        next => exact absurd h (by simp)
        next rows hrows =>
          dsimp only at h
          split at h
          next => exact absurd h (by simp)
          next hdefect =>
            obtain rfl := Except.ok.inj h
            exact ⟨hv, ho, hrows, hdefect⟩
  · intro h
    obtain ⟨hv, ho, hrows, hdefect⟩ := h
    simp only [programOf, hv, ho, hrows, hdefect]

/-- When everything else succeeds, the first defect of the program is the failure. -/
theorem programOf_of_defect {defect : Defect} (hv : variablesOf p = .ok lp.vars)
    (ho : objectiveOf p lp.vars = .ok lp.objective)
    (hrows : rowsFrom p.name lp.vars 0 [] p.constraints = .ok lp.constraints)
    (hdefect : lp.defect? = some defect) : programOf p = .error (.invalid p.name defect) := by
  simp only [programOf, hv, ho, hrows, hdefect]

theorem compile_isOk_iff : (∃ r, compile p = .ok r) ↔ ∃ lp, programOf p = .ok lp := by
  unfold compile
  cases programOf p with
  | error e => simp
  | ok lp => simp

/-- What is compiled of a problem holds its program. -/
theorem programOf_of_compile {r : Compiled K} (h : compile p = .ok r) :
    programOf p = .ok r.program := by
  unfold compile at h
  split at h
  next => exact absurd h (by simp)
  next lp hlp =>
    obtain rfl := Except.ok.inj h
    exact hlp

theorem compile_of_error {e : CompileError} (h : programOf p = .error e) :
    compile p = .error e := by
  simp only [compile, h]

end Programs

end CornerPoint.Compile

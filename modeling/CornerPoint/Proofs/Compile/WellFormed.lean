import Mathlib
import CornerPoint.Compile.Catalog
import CornerPoint.Proofs.Compile.Catalog
import CornerPoint.Proofs.Compile.Problem
import CornerPoint.Proofs.Program.Solve

/-!
# Which problems compile

The checks of a problem are spread over the steps of its compilation, and those of its rows are
made only at the end, on the whole program. Put together, they say when a problem is well formed,
and that is all there is to check:

> `programOf_isOk_iff`: a program comes out of exactly the well formed problems.
> `programOf_of_unsound`: if only rows are at fault, the earliest of them is reported.
> `compile_wellFormed`: both for the problems of a catalog, and what can be relied on in a
> program that has come out; above all that it has an outcome at every tolerance.

Nothing is asked of the numbers but that zero is finite, because a coefficient that equals zero
is replaced by zero.
-/

namespace CornerPoint

variable {K : Type} [Scalar K]

/-- With a finite objective, only rows can be defective. -/
theorem LinearProgram.defect?_of_objective {lp : LinearProgram K}
    (h : (Scalar.isFinite lp.objective.a && Scalar.isFinite lp.objective.b) = true) :
    lp.defect? = Constraint.firstDefect? 0 lp.constraints := by
  rw [defect?, h]
  rfl

namespace Compile

open Source

/-! ## Well formed problems -/

/-- Everything is in order with the problem but maybe its rows: it is about the variables `v`,
it has one objective, which is finite and has no constant term, both sides of every constraint
have linear forms, and no two labels are the same. -/
structure Settled (p : Problem K) (v : Variables) : Prop where
  vars : Declares p v
  objective : ∃ line l, p.objectives = [line] ∧ lower v line.expr = .ok l ∧
    l.isFinite = true ∧ (l.c == 0) = true
  sides : ∀ line ∈ p.constraints,
    (∃ l, lower v line.lhs = .ok l) ∧ ∃ r, lower v line.rhs = .ok r
  labels : (labels p).Nodup

/-- In addition every row is finite and has a coefficient that is not zero. -/
def WellFormed (p : Problem K) : Prop :=
  ∃ v, Settled p v ∧ ∀ row, .ok row ∈ loweredRows v p → row.Sound

section Rows

variable {p : Problem K} {v : Variables} {rows : List (Constraint K)}

/-- All constraints have rows when all their sides have linear forms. -/
theorem exists_rows_iff : (∃ rows : List (Constraint K), loweredRows v p = rows.map .ok) ↔
    ∀ line ∈ p.constraints, (∃ l, lower v line.lhs = .ok l) ∧ ∃ r, lower v line.rhs = .ok r := by
  have hrange : (∃ rows : List (Constraint K), loweredRows v p = rows.map .ok) ↔
      ∀ x ∈ loweredRows v p, ∃ row, x = .ok row := by
    have hlist := Set.range_list_map (α := Constraint K) (Except.ok (ε := ExprError))
    simpa only [Set.mem_range, Set.mem_ofPred_eq, eq_comm] using
      Set.ext_iff.mp hlist (loweredRows v p)
  rw [hrange]
  constructor
  · intro h line hline
    obtain ⟨i, hi, rfl⟩ := List.getElem_of_mem hline
    obtain ⟨row, hrow⟩ := h _ (List.mem_mapIdx.mpr ⟨i, hi, rfl⟩)
    exact rowOf_isOk_iff.mp ⟨row, hrow⟩
  · intro h x hx
    obtain ⟨i, hi, rfl⟩ := List.mem_mapIdx.mp hx
    exact rowOf_isOk_iff.mpr (h _ (List.getElem_mem hi))

/-- When all lines are lowered, the rows of the program are the rows of the lines. -/
theorem mem_loweredRows (hrows : loweredRows v p = rows.map .ok) {row : Constraint K} :
    .ok row ∈ loweredRows v p ↔ row ∈ rows := by
  rw [hrows]
  exact List.mem_map_of_injective fun _ _ => Except.ok.inj

theorem getElem?_loweredRows (hrows : loweredRows v p = rows.map .ok) {i : Nat}
    {row : Constraint K} : (loweredRows v p)[i]? = some (.ok row) ↔ rows[i]? = some row := by
  rw [hrows, List.getElem?_map]
  simp

/-- Each row has the label of its constraint. -/
theorem names_of_loweredRows (hrows : loweredRows v p = rows.map .ok) :
    rows.map (·.name) = labels p := by
  refine List.ext_getElem? fun i => ?_
  rw [List.getElem?_map, labels, List.getElem?_mapIdx]
  have hi := congrArg (·[i]?) hrows
  simp only [loweredRows, List.getElem?_mapIdx, List.getElem?_map] at hi
  cases hline : p.constraints[i]? with
  | none =>
    rw [hline] at hi
    rw [Option.map_eq_none_iff.mp hi.symm]
    rfl
  | some line =>
    rw [hline] at hi
    obtain ⟨row, hrow, heq⟩ := Option.map_eq_some_iff.mp hi.symm
    rw [hrow]
    exact congrArg some (rowOf_name heq.symm)

/-- Among rows that are not all sound there is an earliest that is not. -/
theorem exists_first_unsound (h : ∃ row ∈ rows, ¬row.Sound) :
    ∃ (i : Nat) (row : Constraint K), rows[i]? = some row ∧ ¬row.Sound ∧
      ∀ j < i, ∀ d, rows[j]? = some d → d.Sound := by
  classical
  have hex : ∃ (i : Nat) (row : Constraint K), rows[i]? = some row ∧ ¬row.Sound := by
    obtain ⟨row, hmem, hbad⟩ := h
    obtain ⟨i, hi⟩ := List.getElem?_of_mem hmem
    exact ⟨i, row, hi, hbad⟩
  obtain ⟨row, hrow, hbad⟩ := Nat.find_spec hex
  refine ⟨Nat.find hex, row, hrow, hbad, fun j hj d hd => ?_⟩
  by_contra hunsound
  exact Nat.find_min hex hj ⟨d, hd, hunsound⟩

end Rows

/-! ## Programs of well formed problems -/

section Programs

variable {p : Problem K} {v : Variables} {lp : LinearProgram K}

theorem isFinite_plain (hzero : Scalar.isFinite (0 : K) = true) {k : K}
    (h : Scalar.isFinite k = true) : Scalar.isFinite (plain k) = true := by
  unfold plain
  split
  · exact hzero
  · exact h

/-- The objective of a problem is finite. -/
theorem isFinite_objectiveOf (hzero : Scalar.isFinite (0 : K) = true) {o : Objective K}
    (h : objectiveOf p v = .ok o) : (Scalar.isFinite o.a && Scalar.isFinite o.b) = true := by
  obtain ⟨line, l, _, _, hfin, _, rfl⟩ := objectiveOf_eq_ok_iff.mp h
  rw [Linear.isFinite, Bool.and_eq_true, Bool.and_eq_true] at hfin
  rw [isFinite_plain hzero hfin.1.1, isFinite_plain hzero hfin.1.2]
  rfl

/-- All steps before the last check succeed when the problem is settled. -/
theorem settled_iff : Settled p v ↔ ∃ lp : LinearProgram K, lp.vars = v ∧
    variablesOf p = .ok v ∧ objectiveOf p v = .ok lp.objective ∧
    rowsFrom p.name v 0 [] p.constraints = .ok lp.constraints := by
  constructor
  · intro h
    obtain ⟨line, l, hline, hl, hfin, hc⟩ := h.objective
    obtain ⟨rows, hrows⟩ := exists_rows_iff.mpr h.sides
    exact ⟨⟨v, _, rows⟩, rfl, variablesOf_eq_ok_iff.mpr h.vars,
      objectiveOf_eq_ok_iff.mpr ⟨line, l, hline, hl, hfin, hc, rfl⟩,
      rowsFrom_start.mpr ⟨hrows, h.labels⟩⟩
  · intro h
    obtain ⟨lp, rfl, hv, ho, hrows⟩ := h
    obtain ⟨line, l, hline, hl, hfin, hc, _⟩ := objectiveOf_eq_ok_iff.mp ho
    obtain ⟨hlowered, hnodup⟩ := rowsFrom_start.mp hrows
    exact ⟨variablesOf_eq_ok_iff.mp hv, ⟨line, l, hline, hl, hfin, hc⟩,
      exists_rows_iff.mp ⟨_, hlowered⟩, hnodup⟩

/-- What is in order with the program of a problem: one row for each constraint, in their order
and under their labels, two different variables, and an outcome at every tolerance. -/
structure InOrder (p : Problem K) (lp : LinearProgram K) : Prop where
  vars : lp.vars.x ≠ lp.vars.y
  rows : loweredRows lp.vars p = lp.constraints.map .ok
  labels : lp.constraints.map (·.name) = labels p
  validate : lp.validate = .ok ()
  solve : ∀ (sweep : Sweep K) (eps : K), Scalar.isFinite eps = true → 0 < eps →
    ∃ s, lp.solve sweep eps = .ok s

/-- A program that has been made is in order: it keeps the rows and labels, and can be solved. -/
theorem inOrder_of_programOf (h : programOf p = .ok lp) : InOrder p lp := by
  obtain ⟨hv, ho, hrows, hdefect⟩ := programOf_eq_ok_iff.mp h
  have hlowered := (rowsFrom_start.mp hrows).1
  exact {
    vars := (variablesOf_eq_ok_iff.mp hv).ne
    rows := hlowered
    labels := names_of_loweredRows hlowered
    validate := LinearProgram.validate_eq_ok_iff.mpr hdefect
    solve := fun sweep eps hfin heps =>
      ⟨_, LinearProgram.solve_of_isFinite sweep hfin heps hdefect⟩ }

/-- **A program comes out of exactly the well formed problems.** -/
theorem programOf_isOk_iff (hzero : Scalar.isFinite (0 : K) = true) :
    (∃ lp, programOf p = .ok lp) ↔ WellFormed p := by
  constructor
  · intro h
    obtain ⟨lp, hlp⟩ := h
    -- the objective is finite by its own check, so a defect is a defect of a row
    obtain ⟨hv, ho, hrows, hdefect⟩ := programOf_eq_ok_iff.mp hlp
    rw [LinearProgram.defect?_of_objective (isFinite_objectiveOf hzero ho),
      Constraint.firstDefect?_eq_none_iff] at hdefect
    refine ⟨lp.vars, settled_iff.mpr ⟨lp, rfl, hv, ho, hrows⟩, fun row hrow => ?_⟩
    exact hdefect row ((mem_loweredRows (rowsFrom_start.mp hrows).1).mp hrow)
  · intro h
    obtain ⟨v, hsettled, hsound⟩ := h
    obtain ⟨lp, rfl, hv, ho, hrows⟩ := settled_iff.mp hsettled
    have hdefect : lp.defect? = none := by
      rw [LinearProgram.defect?_of_objective (isFinite_objectiveOf hzero ho),
        Constraint.firstDefect?_eq_none_iff]
      intro row hrow
      exact hsound row ((mem_loweredRows (rowsFrom_start.mp hrows).1).mpr hrow)
    exact ⟨lp, programOf_eq_ok_iff.mpr ⟨hv, ho, hrows, hdefect⟩⟩

/-- The row with the index `i` is not sound, and all rows in front of it are. -/
def FirstUnsound (v : Variables) (p : Problem K) (i : Nat) (row : Constraint K) : Prop :=
  (loweredRows v p)[i]? = some (.ok row) ∧ ¬row.Sound ∧
    ∀ j < i, ∀ d, (loweredRows v p)[j]? = some (.ok d) → d.Sound

/-- **The earliest row at fault is reported** when everything else is in order. -/
theorem programOf_of_unsound (hzero : Scalar.isFinite (0 : K) = true) (hp : Settled p v)
    (hbad : ∃ row, .ok row ∈ loweredRows v p ∧ ¬row.Sound) :
    ∃ i row, FirstUnsound v p i row ∧
      programOf p = .error (.invalid p.name (row.defectAt i)) := by
  obtain ⟨lp, rfl, hv, ho, hrows⟩ := settled_iff.mp hp
  have hlowered := (rowsFrom_start.mp hrows).1
  have hbad' : ∃ row ∈ lp.constraints, ¬row.Sound := by
    obtain ⟨row, hrow, hunsound⟩ := hbad
    exact ⟨row, (mem_loweredRows hlowered).mp hrow, hunsound⟩
  obtain ⟨i, row, hrow, hunsound, hfirst⟩ := exists_first_unsound hbad'
  have hdefect : lp.defect? = some (row.defectAt i) := by
    rw [LinearProgram.defect?_of_objective (isFinite_objectiveOf hzero ho),
      Constraint.firstDefect?_of_first _ 0 i hrow hunsound hfirst, Nat.zero_add]
  have hindexed : FirstUnsound lp.vars p i row :=
    ⟨(getElem?_loweredRows hlowered).mpr hrow, hunsound,
      fun j hj d hd => hfirst j hj d ((getElem?_loweredRows hlowered).mp hd)⟩
  exact ⟨i, row, hindexed, programOf_of_defect hv ho hrows hdefect⟩

end Programs

/-! ## Problems of a catalog -/

/-- A catalog compiles the problems that it has, each as it would be compiled alone. -/
theorem Catalog.Loaded.compile_eq_ok_iff {c : Catalog K} (hc : c.Loaded) {name : String}
    {r : Compiled K} :
    c.compile name = .ok r ↔ ∃ p ∈ c.problems, p.name = name ∧ Compile.compile p = .ok r := by
  constructor
  · intro h
    unfold Catalog.compile at h
    split at h
    next p hfind =>
      have hname : p.name = name := by simpa using List.find?_some hfind
      exact ⟨p, List.mem_of_find?_eq_some hfind, hname, h⟩
    next => exact absurd h (by simp)
  · intro h
    obtain ⟨p, hp, rfl, hcompile⟩ := h
    rw [hc.compile_name hp, hcompile]

/-- **Exactly the well formed problems compile, and what has been compiled can be solved.** When
only rows are at fault, the earliest of them is reported, with its index and label if both of its
coefficients are zero. -/
theorem compile_wellFormed (hzero : Scalar.isFinite (0 : K) = true) {c : Catalog K}
    (hc : c.Loaded) :
    (∀ name, (∃ r, c.compile name = .ok r) ↔ ∃ p ∈ c.problems, p.name = name ∧ WellFormed p) ∧
    (∀ name r, c.compile name = .ok r →
      ∃ p ∈ c.problems, p.name = name ∧ InOrder p r.program) ∧
    ∀ p ∈ c.problems, ∀ v, Settled p v → (∃ row, .ok row ∈ loweredRows v p ∧ ¬row.Sound) →
      ∃ i row, FirstUnsound v p i row ∧
        c.compile p.name = .error (.invalid p.name (row.defectAt i)) := by
  refine ⟨fun name => ?_, fun name r h => ?_, fun p hp v hsettled hbad => ?_⟩
  · constructor
    · intro h
      obtain ⟨r, hr⟩ := h
      obtain ⟨p, hp, hname, hcompile⟩ := hc.compile_eq_ok_iff.mp hr
      exact ⟨p, hp, hname, (programOf_isOk_iff hzero).mp ⟨_, programOf_of_compile hcompile⟩⟩
    · intro h
      obtain ⟨p, hp, hname, hwell⟩ := h
      obtain ⟨r, hr⟩ := compile_isOk_iff.mpr ((programOf_isOk_iff hzero).mpr hwell)
      exact ⟨r, hc.compile_eq_ok_iff.mpr ⟨p, hp, hname, hr⟩⟩
  · obtain ⟨p, hp, hname, hcompile⟩ := hc.compile_eq_ok_iff.mp h
    exact ⟨p, hp, hname, inOrder_of_programOf (programOf_of_compile hcompile)⟩
  -- all else being settled, the first unsound row is what is reported
  · obtain ⟨i, row, hrow, herror⟩ := programOf_of_unsound hzero hsettled hbad
    exact ⟨i, row, hrow, (hc.compile_name hp).trans (compile_of_error herror)⟩

/-- Two kinds of shelves. The label of the first constraint is one that is otherwise made from a
place, but no other constraint has it. -/
def shelves : Problem Float where
  span := ⟨0, 80⟩
  name := "shelves"
  properties := []
  vars := some ⟨⟨12, 20⟩, ["w", "h"]⟩
  objectives := [⟨⟨25, 32⟩, .maximize, .binary (.var ⟨29, 30⟩ "w") .add (.var ⟨31, 32⟩ "h")⟩]
  constraints := [⟨⟨40, 50⟩, some "c2", .var ⟨44, 45⟩ "w", .le, .number 3⟩,
    ⟨⟨52, 60⟩, some "top", .var ⟨56, 57⟩ "h", .le, .number 2⟩,
    ⟨⟨62, 70⟩, none, .binary (.var ⟨62, 63⟩ "w") .sub (.var ⟨64, 65⟩ "h"), .ge, .number 0⟩]

/-- The second constraint says nothing about the variables. -/
def stuck : Problem Float where
  span := ⟨81, 120⟩
  name := "stuck"
  properties := []
  vars := none
  objectives := [⟨⟨90, 96⟩, .minimize, .var ⟨94, 96⟩ "x1"⟩]
  constraints := [⟨⟨98, 104⟩, none, .var ⟨98, 100⟩ "x1", .ge, .number 1⟩,
    ⟨⟨106, 118⟩, some "idle", .binary (.var ⟨106, 108⟩ "x1") .sub (.var ⟨109, 111⟩ "x1"), .le,
      .number 5⟩]

/-- The shelves have two variables, labels that differ and only sound rows. -/
theorem shelves_wellFormed : WellFormed shelves := by
  have hrows : loweredRows ⟨"w", "h"⟩ shelves
      = List.map .ok [⟨"c2", 1, 0, .le, 3⟩, ⟨"top", 0, 1, .le, 2⟩, ⟨"c3", 1, -1, .ge, 0⟩] := by
    rfl
  refine ⟨⟨"w", "h"⟩, ?_, fun row hrow => ?_⟩
  · exact {
      vars := .inr ⟨_, rfl, rfl, by decide⟩
      objective := ⟨_, _, rfl, rfl, by rfl, by rfl⟩
      sides := exists_rows_iff.mp ⟨_, hrows⟩
      labels := by decide }
  · rw [mem_loweredRows hrows] at hrow
    fin_cases hrow <;> exact ⟨by rfl, by rfl⟩

theorem stuck_rows : loweredRows .standard stuck
    = List.map .ok [⟨"c1", 1, 0, .ge, 1⟩, ⟨"idle", 0, 0, .le, 5⟩] := by
  rfl

/-- The stuck problem is settled: only a row is at fault. -/
theorem stuck_settled : Settled stuck .standard where
  vars := .inl ⟨rfl, rfl⟩
  objective := ⟨_, _, rfl, rfl, by rfl, by rfl⟩
  sides := exists_rows_iff.mp ⟨_, stuck_rows⟩
  labels := by decide

/-- A catalog with both. -/
def workshop : Catalog Float := (Catalog.empty.load ⟨[shelves, stuck]⟩).1

/-- The shelves compile; the other problem is stuck at its second row. -/
theorem compile_wellFormed_workshop :
    Scalar.isFinite (0 : Float) = true ∧ workshop.Loaded ∧
    (∃ r, workshop.compile "shelves" = .ok r ∧ InOrder shelves r.program) ∧
    Settled stuck .standard ∧
    workshop.compile "stuck" = .error (.invalid "stuck" (.degenerate 1 "idle")) := by
  have hzero : Scalar.isFinite (0 : Float) = true := rfl
  have hloaded : workshop.Loaded := .load .empty _
  have hproblems : workshop.problems = [shelves, stuck] := rfl
  obtain ⟨hok, horder, hunsound⟩ := compile_wellFormed hzero hloaded
  have hshelves : ∃ r, workshop.compile "shelves" = .ok r ∧ InOrder shelves r.program := by
    obtain ⟨r, hr⟩ := (hok "shelves").mpr ⟨shelves, List.mem_cons_self, rfl, shelves_wellFormed⟩
    obtain ⟨p, hp, hname, horder⟩ := horder "shelves" r hr
    rw [hproblems, List.mem_pair] at hp
    rcases hp with rfl | rfl
    · exact ⟨r, hr, horder⟩
    · exact absurd hname (by decide)
  have hidle : .ok ⟨"idle", 0, 0, .le, 5⟩ ∈ loweredRows .standard stuck := by
    rw [stuck_rows]
    exact List.mem_cons_of_mem _ List.mem_cons_self
  obtain ⟨i, row, ⟨hrow, hbad, _⟩, herror⟩ := hunsound stuck (by rw [hproblems]; simp) .standard
    stuck_settled ⟨_, hidle, fun h => absurd h.2 (by decide)⟩
  rw [getElem?_loweredRows stuck_rows] at hrow
  refine ⟨hzero, hloaded, hshelves, stuck_settled, herror.trans ?_⟩
  -- the row reported is unsound, and only the second of the two rows is
  match i with
  | 0 =>
    obtain rfl := Option.some.inj hrow
    exact absurd ⟨by rfl, by rfl⟩ hbad
  | 1 =>
    obtain rfl := Option.some.inj hrow
    rfl
  | i + 2 => exact absurd hrow (by simp)

end Compile

end CornerPoint

import Mathlib
import CornerPoint.Compile.Catalog
import CornerPoint.Proofs.Compile.Meaning
import CornerPoint.Proofs.Compile.Problem

/-!
# Compiled problems

A compiled problem is a linear program, and this file says that it is the problem that was
written: same variables, same objective, same constraints, at every point.

> `represents_of_programOf`: the rows of the program hold where the constraints hold, and its
> objective has the value of the expression that was written.
> `compile_preserves_meaning`: the same for every problem of a catalog, which is found by its
> name because no two problems of a catalog share one (`Catalog.Loaded.nodup`).
-/

namespace CornerPoint

/-- A relation between two numbers depends on their difference only. -/
theorem Relation.holds_congr {rel : Relation} {a b c d : ℚ} (h : a - b = c - d) :
    rel.Holds a b ↔ rel.Holds c d := by
  cases rel with
  | le =>
    show a ≤ b ↔ c ≤ d
    rw [← sub_nonpos, h, sub_nonpos]
  | ge =>
    show b ≤ a ↔ d ≤ c
    rw [← sub_nonneg, h, sub_nonneg]
  | eq =>
    show a = b ↔ c = d
    rw [← sub_eq_zero, h, sub_eq_zero]

namespace Compile

open Source

theorem plain_rat (k : ℚ) : plain k = k := by
  unfold plain
  split
  next h => exact (beq_iff_eq.mp h).symm
  next => rfl

/-! ## The parts of a problem -/

section Parts

variable {p : Problem ℚ} {v : Variables} {line : ConstraintLine ℚ} {label : String}
  {row : Constraint ℚ}

/-- The objective of a problem is its only objective line, lowered. -/
theorem denotes_of_objectiveOf {o : Objective ℚ} (h : objectiveOf p v = .ok o) :
    ∃ line, p.objectives = [line] ∧ o.sense = line.sense ∧
      Denotes v line.expr ⟨o.a, o.b, 0⟩ := by
  obtain ⟨line, l, hline, hl, _, hc, rfl⟩ := objectiveOf_eq_ok_iff.mp h
  have hform : (⟨plain l.a, plain l.b, 0⟩ : Linear ℚ) = l :=
    Linear.ext (plain_rat _) (plain_rat _) (beq_iff_eq.mp hc).symm
  refine ⟨line, hline, rfl, ?_⟩
  show Denotes v line.expr ⟨plain l.a, plain l.b, 0⟩
  rw [hform]
  exact lower_denotes hl

/-- Both sides of the line have values everywhere, and the row holds where the relation holds
between them. -/
def RowMeans (v : Variables) (line : ConstraintLine ℚ) (row : Constraint ℚ) : Prop :=
  ∀ q, ∃ l r, line.lhs.eval? (v.assign q) = some l ∧ line.rhs.eval? (v.assign q) = some r ∧
    (row.Satisfied q ↔ line.relation.Holds l r)

/-- **Moving terms across the relation keeps the constraint.** -/
theorem rowMeans_of_rowOf (h : rowOf v label line = .ok row) : RowMeans v line row := by
  unfold rowOf at h
  cases hl : lower v line.lhs with
  | error e => rw [hl] at h; exact absurd h (by simp)
  | ok l =>
    cases hr : lower v line.rhs with
    | error e => rw [hl, hr] at h; exact absurd h (by simp)
    | ok r =>
      rw [hl, hr] at h
      obtain rfl := Except.ok.inj h
      refine fun q => ⟨l.valueAt q, r.valueAt q, lower_denotes hl q, lower_denotes hr q, ?_⟩
      -- the row compares `l - r` without its constant term with that term negated
      refine Relation.holds_congr ?_
      rw [Constraint.lhsAt_rat, plain_rat, plain_rat, plain_rat, ← Linear.valueAt_sub,
        Linear.valueAt]
      ring

/-- Whatever labels are used up before, the rows that come out mean what their lines mean, one by
one. -/
theorem rowsMean_of_rowsFrom {problem : String} :
    ∀ (lines : List (ConstraintLine ℚ)) (index : Nat) (used : List String)
      {rows : List (Constraint ℚ)}, rowsFrom problem v index used lines = .ok rows →
        List.Forall₂ (RowMeans v) lines rows
  | [], _, _, rows, h => by
    obtain rfl := Except.ok.inj h
    exact .nil
  | line :: rest, index, used, rows, h => by
    rw [rowsFrom] at h
    split at h
    next => exact absurd h (by simp)
    next =>
      split at h
      next => exact absurd h (by simp)
      next row hrow =>
        split at h
        next => exact absurd h (by simp)
        next rows' hrest =>
          obtain rfl := Except.ok.inj h
          exact .cons (rowMeans_of_rowOf hrow) (rowsMean_of_rowsFrom rest _ _ hrest)

end Parts

/-! ## The program of a problem -/

/-- The program says what the problem says: the variables are two different names, the one
objective line has at every point the value of the objective, and the rows hold, one by one,
where the constraint lines hold. -/
structure Represents (p : Problem ℚ) (lp : LinearProgram ℚ) : Prop where
  vars : variablesOf p = .ok lp.vars
  vars_ne : lp.vars.x ≠ lp.vars.y
  objective : ∃ line, p.objectives = [line] ∧ lp.objective.sense = line.sense ∧
    ∀ q, line.expr.eval? (lp.vars.assign q) = some (lp.objective.valueAt q)
  rows : List.Forall₂ (RowMeans lp.vars) p.constraints lp.constraints

/-- A program that comes out of a problem says what the problem says. -/
theorem represents_of_programOf {p : Problem ℚ} {lp : LinearProgram ℚ}
    (h : programOf p = .ok lp) : Represents p lp := by
  obtain ⟨hv, ho, hrows, _⟩ := programOf_eq_ok_iff.mp h
  obtain ⟨line, hline, hsense, hden⟩ := denotes_of_objectiveOf ho
  refine ⟨hv, (variablesOf_eq_ok_iff.mp hv).ne, ⟨line, hline, hsense, fun q => ?_⟩,
    rowsMean_of_rowsFrom _ _ _ hrows⟩
  rw [hden q, Linear.valueAt, add_zero]
  rfl

theorem represents_of_compile {p : Problem ℚ} {compiled : Compiled ℚ}
    (h : compile p = .ok compiled) : Represents p compiled.program :=
  represents_of_programOf (programOf_of_compile h)

/-! ## Catalogs -/

namespace Catalog

variable {K : Type} {c : Catalog K}

/-- The catalogs that arise by adding programs, whether or not each was added completely. -/
inductive Loaded : Catalog K → Prop
  | empty : Loaded empty
  | load {c : Catalog K} (h : Loaded c) (program : Program K) : Loaded (c.load program).1

/-- A name that is taken stops the load. -/
theorem addAll_of_mem {p : Problem K} (h : p.name ∈ c.names) (ps : List (Problem K)) :
    c.addAll (p :: ps) = (c, some (.duplicateProblem p.name)) := by
  rw [addAll, if_pos (List.contains_iff_mem.mpr h)]

theorem addAll_of_not_mem {p : Problem K} (h : p.name ∉ c.names) (ps : List (Problem K)) :
    c.addAll (p :: ps) = addAll ⟨c.problems ++ [p]⟩ ps := by
  rw [addAll, if_neg (fun hmem => h (List.contains_iff_mem.mp hmem))]

/-- When all problems could be added, the catalog has them behind its own. -/
theorem addAll_problems :
    ∀ (ps : List (Problem K)) {c : Catalog K}, (c.addAll ps).2 = none →
      (c.addAll ps).1.problems = c.problems ++ ps
  | [], c, _ => (List.append_nil c.problems).symm
  | p :: ps, c, h => by
    by_cases hmem : p.name ∈ c.names
    · rw [addAll_of_mem hmem] at h
      exact absurd h (by simp)
    · rw [addAll_of_not_mem hmem] at h ⊢
      rw [addAll_problems ps h, List.append_assoc, List.singleton_append]

/-- Adding problems keeps names different: it stops in front of the first one that is taken. -/
theorem addAll_nodup :
    ∀ (ps : List (Problem K)) {c : Catalog K}, c.names.Nodup → (c.addAll ps).1.names.Nodup
  | [], _, h => h
  | p :: ps, c, h => by
    rw [addAll]
    split
    next => exact h
    next hnew =>
      apply addAll_nodup ps
      have hnot : p.name ∉ c.names := fun hmem => hnew (List.contains_iff_mem.mpr hmem)
      show ((c.problems ++ [p]).map (·.name)).Nodup
      rw [List.map_append, List.map_singleton]
      refine List.Nodup.append h (List.nodup_singleton _) ?_
      rw [List.disjoint_singleton]
      exact hnot

/-- No name is twice in a loaded catalog. -/
theorem Loaded.nodup (h : Loaded c) : c.names.Nodup := by
  induction h with
  | empty => exact List.nodup_nil
  | load _ program ih => exact addAll_nodup program.problems ih

/-- A problem with a new name can be added. -/
theorem Loaded.add (hc : c.Loaded) {p : Problem K} (h : p.name ∉ c.names) :
    Loaded ⟨c.problems ++ [p]⟩ := by
  have hload := hc.load ⟨[p]⟩
  rw [Catalog.load, addAll_of_not_mem h] at hload
  exact hload

/-- A problem is found under its name when names are different. -/
theorem find?_name {ps : List (Problem K)} (hnodup : (ps.map (·.name)).Nodup) {p : Problem K}
    (hp : p ∈ ps) : ps.find? (·.name == p.name) = some p := by
  induction ps with
  | nil => exact absurd hp List.not_mem_nil
  | cons q ps ih =>
    rw [List.map_cons, List.nodup_cons] at hnodup
    rw [List.find?_cons]
    rcases List.mem_cons.mp hp with rfl | hp
    · rw [beq_self_eq_true]
    · have hne : q.name ≠ p.name := fun heq => hnodup.1 (heq ▸ List.mem_map_of_mem hp)
      rw [beq_eq_false_iff_ne.mpr hne]
      exact ih hnodup.2 hp

/-- A catalog is made of a program when all of it can be loaded. -/
theorem ofProgram_eq_ok_iff {program : Program K} :
    ofProgram program = .ok c ↔ empty.load program = (c, none) := by
  unfold ofProgram
  cases h : empty.load program with
  | mk d error =>
    cases error with
    | none => simp
    | some e => simp

/-- In a catalog every problem is compiled as it would be alone. -/
theorem Loaded.compile_name [Scalar K] (h : Loaded c) {p : Problem K} (hp : p ∈ c.problems) :
    c.compile p.name = Compile.compile p := by
  unfold Catalog.compile
  rw [find?_name h.nodup hp]

/-- A catalog of one problem alone. -/
def alone (p : Problem K) : Catalog K := (empty.load ⟨[p]⟩).1

theorem compile_alone [Scalar K] (p : Problem K) :
    (alone p).compile p.name = Compile.compile p := by
  have hloaded : (alone p).Loaded := .load .empty _
  exact hloaded.compile_name (List.mem_singleton_self p)

/-- Going through a list succeeds when it does so for every element. -/
theorem mapM_isOk_iff {α β ε : Type} {f : α → Except ε β} {l : List α} :
    (∃ bs, l.mapM f = .ok bs) ↔ ∀ a ∈ l, ∃ b, f a = .ok b := by
  induction l with
  | nil => exact ⟨fun _ a ha => absurd ha List.not_mem_nil, fun _ => ⟨[], rfl⟩⟩
  | cons a l ih =>
    rw [List.mapM_cons, List.forall_mem_cons, ← ih]
    cases ha : f a with
    | error e => simp [bind, Except.bind]
    | ok b =>
      cases hl : l.mapM f with
      | error e => simp [bind, Except.bind]
      | ok bs => simp [bind, Except.bind, pure, Except.pure]

/-- All problems of a catalog compile when each compiles alone. -/
theorem Loaded.compileAll_isOk_iff [Scalar K] (h : Loaded c) :
    (∃ all, c.compileAll = .ok all) ↔ ∀ p ∈ c.problems, ∃ r, Compile.compile p = .ok r := by
  rw [compileAll, mapM_isOk_iff, names, List.forall_mem_map]
  constructor
  · intro hall p hp
    rw [← h.compile_name hp]
    exact hall p hp
  · intro hall p hp
    rw [h.compile_name hp]
    exact hall p hp

end Catalog

/-- **Compilation preserves meaning.** The form of an expression is the form it denotes;
there is none exactly when a part of the expression offends; and whatever problem of a catalog
compiles, its program represents it. -/
theorem compile_preserves_meaning :
    (∀ (v : Variables) (e : Expr ℚ) (l : Linear ℚ), lower v e = .ok l → Denotes v e l) ∧
    (∀ (v : Variables) (e : Expr ℚ),
      (∃ err, lower v e = .error err) ↔ ∃ s ∈ e.parts, Offends v s) ∧
    ∀ (c : Catalog ℚ) (p : Problem ℚ) (compiled : Compiled ℚ), c.Loaded → p ∈ c.problems →
      c.compile p.name = .ok compiled → Represents p compiled.program := by
  refine ⟨fun v e l h => lower_denotes h, fun v e => lower_error_iff, ?_⟩
  intro c p compiled hc hp h
  rw [hc.compile_name hp] at h
  exact represents_of_compile h

/-- The objective is `(3 * x1 + x2) / 2`, and the row is `2 * (x1 - x2) = 4 - x2`. -/
def mix : Problem ℚ where
  span := ⟨0, 90⟩
  name := "mix"
  properties := []
  vars := none
  objectives := [⟨⟨10, 40⟩, .maximize,
    .binary (.paren (.binary (.binary (.number 3) .mul (.var ⟨16, 18⟩ "x1")) .add
      (.var ⟨21, 23⟩ "x2"))) .div (.number 2)⟩]
  constraints := [⟨⟨45, 80⟩, none,
    .binary (.number 2) .mul (.paren (.binary (.var ⟨52, 54⟩ "x1") .sub (.var ⟨57, 59⟩ "x2"))),
    .eq, .binary (.number 4) .sub (.var ⟨67, 69⟩ "x2")⟩]

/-- The program that `mix` is compiled to. -/
def mixed : Compiled ℚ where
  name := "mix"
  displayName := none
  description := none
  program := ⟨.standard, ⟨3 / 2, 1 / 2, .maximize⟩, [⟨"c1", 2, -1, .eq, 4⟩]⟩

/-- A quotient of a bracketed sum for the objective, and a row with variables on both sides. -/
theorem compile_preserves_meaning_mix :
    (Catalog.empty.load ⟨[mix]⟩).1.Loaded ∧ mix ∈ (Catalog.empty.load ⟨[mix]⟩).1.problems ∧
    (Catalog.empty.load ⟨[mix]⟩).1.compile mix.name = .ok mixed ∧
    Represents mix mixed.program := by
  have hloaded : (Catalog.empty.load ⟨[mix]⟩).1.Loaded := .load .empty _
  have hmem : mix ∈ (Catalog.empty.load ⟨[mix]⟩).1.problems := List.mem_singleton_self _
  have hok : (Catalog.empty.load ⟨[mix]⟩).1.compile mix.name = .ok mixed := by
    cbv
  exact ⟨hloaded, hmem, hok, compile_preserves_meaning.2.2 _ mix mixed hloaded hmem hok⟩

end Compile

end CornerPoint

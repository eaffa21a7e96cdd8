import Mathlib
import CornerPoint.CommandLine.Outcome
import CornerPoint.Editor.Diagnostic
import CornerPoint.Proofs.Compile.Catalog

/-!
# Diagnostics and checking

An editor and the command `check` go through the problems of a source text differently. The
editor adds one problem at a time to its catalog, goes on after a fault, and compiles each
problem from the part of the catalog that is there by then. The command adds all problems
first, compiles them afterwards, and stops at the first fault. This file says that they agree:

> `problemFaults_reported`: the editor reports each problem at fault once, in order, and no
> other problem. At fault is a problem whose name an earlier one has, or else one that does not
> compile alone.
> `diagnostics_agree`: the editor has nothing to report exactly when the command succeeds.

Both are proved for any catalog that the editor may have built up by then. What carries the
induction is that the names in the catalog are those of the problems gone through.
-/

namespace CornerPoint.Editor

open Source Compile CommandLine

variable {K : Type} [Scalar K]

/-! ## One problem -/

section Step

variable {c : Catalog K} {p : Problem K}

/-- A name that is taken is reported as such, and the problem is left out. -/
theorem problemFaults_of_mem (h : p.name ∈ c.names) (ps : List (Problem K)) :
    problemFaults c (p :: ps)
      = ⟨p.span, (CompileError.duplicateProblem p.name).message⟩ :: problemFaults c ps := by
  rw [problemFaults, Catalog.load, Catalog.addAll_of_mem h]

/-- A problem with a new name is compiled as it would be alone. -/
theorem problemFaults_of_not_mem (hc : c.Loaded) (h : p.name ∉ c.names) (ps : List (Problem K)) :
    problemFaults c (p :: ps) =
      match Compile.compile p with
      | .ok _ => problemFaults ⟨c.problems ++ [p]⟩ ps
      | .error e => ⟨faultSpan p e, e.message⟩ :: problemFaults ⟨c.problems ++ [p]⟩ ps := by
  have hmem : p ∈ c.problems ++ [p] := List.mem_append_right _ (List.mem_singleton_self p)
  have hcompile := (hc.add h).compile_name hmem
  rw [problemFaults, Catalog.load, Catalog.addAll_of_not_mem h, Catalog.addAll]
  cases hp : Compile.compile p with
  | ok r => simp only [hcompile, hp]
  | error e => simp only [hcompile, hp]

end Step

/-! ## All problems -/

/-- The problem is at fault behind the problems `before`: one of them has its name, or it does
not compile alone. -/
def isFaulty (before : List (Problem K)) (p : Problem K) : Bool :=
  (before.map (·.name)).contains p.name || !((Catalog.alone p).compile p.name).isOk

/-- The diagnostic says of the problem `p` behind the problems `before` that its name is taken,
or else, at the place of the fault, why it does not compile alone. -/
inductive Reports (before : List (Problem K)) (p : Problem K) : Diagnostic → Prop
  | taken : p.name ∈ before.map (·.name) →
      Reports before p ⟨p.span, (CompileError.duplicateProblem p.name).message⟩
  | broken {e : CompileError} : p.name ∉ before.map (·.name) →
      (Catalog.alone p).compile p.name = .error e →
      Reports before p ⟨faultSpan p e, e.message⟩

/-- The problems at fault, each with the problems in front of it. -/
def faulty (ps : List (Problem K)) : List (List (Problem K) × Problem K) :=
  (ps.inits.zip ps).filter fun (before, p) => isFaulty before p

section Run

/-- The problems at fault among `ps` when the problems `before` stand in front of them. -/
def faultyBehind (before ps : List (Problem K)) : List (List (Problem K) × Problem K) :=
  ((ps.inits.map (before ++ ·)).zip ps).filter fun (before, p) => isFaulty before p

theorem faultyBehind_nil (ps : List (Problem K)) : faultyBehind [] ps = faulty ps := by
  unfold faultyBehind faulty
  simp only [List.nil_append, List.map_id']

/-- A problem at fault is listed with those in front of it, and counts for those behind it. -/
theorem faultyBehind_cons (before : List (Problem K)) (p : Problem K) (ps : List (Problem K)) :
    faultyBehind before (p :: ps) =
      if isFaulty before p then (before, p) :: faultyBehind (before ++ [p]) ps
      else faultyBehind (before ++ [p]) ps := by
  unfold faultyBehind
  rw [List.inits_cons, List.map_cons, List.zip_cons_cons, List.filter_cons, List.append_nil,
    List.map_map]
  simp only [Function.comp_def, List.append_assoc, List.singleton_append]

/-- A problem whose name is taken is at fault. -/
theorem isFaulty_of_mem {before : List (Problem K)} {p : Problem K}
    (h : p.name ∈ before.map (·.name)) : isFaulty before p = true := by
  rw [isFaulty, List.contains_iff_mem.mpr h, Bool.true_or]

/-- A problem with a new name is at fault when it does not compile. -/
theorem isFaulty_of_not_mem {before : List (Problem K)} {p : Problem K}
    (h : p.name ∉ before.map (·.name)) : isFaulty before p = !(Compile.compile p).isOk := by
  rw [isFaulty, Bool.eq_false_iff.mpr fun hmem => h (List.contains_iff_mem.mp hmem),
    Bool.false_or, Catalog.compile_alone]

/-- **Every problem at fault is reported once, in order,** when the catalog has the names of the
problems gone through. -/
theorem problemFaults_reported :
    ∀ (ps before : List (Problem K)) (c : Catalog K), c.Loaded →
      (∀ name, name ∈ c.names ↔ name ∈ before.map (·.name)) →
      List.Forall₂ (fun x d => Reports x.1 x.2 d) (faultyBehind before ps) (problemFaults c ps)
  | [], _, _, _, _ => .nil
  | p :: ps, before, c, hc, hnames => by
    have hnext : ∀ name, name ∈ c.names ∨ name = p.name
        ↔ name ∈ (before ++ [p]).map (·.name) := fun name => by
      rw [hnames, List.map_append, List.mem_append, List.map_singleton, List.mem_singleton]
    rw [faultyBehind_cons]
    by_cases hmem : p.name ∈ c.names
    · have htaken := (hnames p.name).mp hmem
      rw [if_pos (isFaulty_of_mem htaken), problemFaults_of_mem hmem]
      -- the catalog stays as it is, and so do the names gone through
      refine .cons (.taken htaken) (problemFaults_reported ps _ c hc fun name => ?_)
      rw [← hnext name]
      exact ⟨Or.inl, fun h => h.elim id fun heq => heq ▸ hmem⟩
    · have hnew : p.name ∉ before.map (·.name) := fun h => hmem ((hnames p.name).mpr h)
      have hrest := problemFaults_reported ps (before ++ [p]) _ (hc.add hmem)
        fun name => by
          rw [← hnext name, Catalog.names, List.map_append, List.mem_append, List.map_singleton,
            List.mem_singleton]
          rfl
      rw [problemFaults_of_not_mem hc hmem, isFaulty_of_not_mem hnew]
      cases hcompile : Compile.compile p with
      | ok r => exact hrest
      | error e =>
        exact .cons (.broken hnew ((Catalog.compile_alone p).trans hcompile)) hrest

/-- Nothing is reported when all problems can be added and each compiles alone. -/
theorem problemFaults_eq_nil_iff :
    ∀ (ps : List (Problem K)) (c : Catalog K), c.Loaded →
      (problemFaults c ps = []
        ↔ (c.addAll ps).2 = none ∧ ∀ p ∈ ps, ∃ r, Compile.compile p = .ok r)
  | [], _, _ => ⟨fun _ => ⟨rfl, fun _ hp => absurd hp List.not_mem_nil⟩, fun _ => rfl⟩
  | p :: ps, c, hc => by
    by_cases hmem : p.name ∈ c.names
    · rw [problemFaults_of_mem hmem, Catalog.addAll_of_mem hmem]
      exact ⟨fun h => absurd h (by simp), fun h => absurd h.1 (by simp)⟩
    · have hrest := problemFaults_eq_nil_iff ps _ (hc.add hmem)
      rw [problemFaults_of_not_mem hc hmem, Catalog.addAll_of_not_mem hmem, List.forall_mem_cons]
      cases hcompile : Compile.compile p with
      | ok r => simpa using hrest
      | error e => simp

end Run

/-! ## The editor and the command -/

/-- The source text is read, all its problems can be added to a new catalog, and all problems
of that catalog compile. -/
def Checks (K : Type) [Scalar K] (source : String) : Prop :=
  ∃ program : Program K, Program.ofString source = .ok program ∧
    ∃ c, Catalog.ofProgram program = .ok c ∧ ∃ all, c.compileAll = .ok all

theorem diagnostics_of_ok {source : String} {program : Program K}
    (h : Program.ofString source = .ok program) :
    diagnostics K source = problemFaults .empty program.problems := by
  rw [diagnostics, h]

/-- All problems of a program can be added to a new catalog and compiled when the editor finds
no fault in them. -/
theorem problemFaults_program (program : Program K) :
    problemFaults .empty program.problems = []
      ↔ ∃ c, Catalog.ofProgram program = .ok c ∧ ∃ all, c.compileAll = .ok all := by
  have hproblems := Catalog.addAll_problems program.problems (c := Catalog.empty)
  have hloaded : (Catalog.empty.load program).1.Loaded := .load .empty program
  -- the editor adds the problems one by one to a catalog of its own, which is the loaded one
  rw [problemFaults_eq_nil_iff _ _ .empty]
  constructor
  · intro h
    obtain ⟨hadded, hcompile⟩ := h
    refine ⟨(Catalog.empty.load program).1,
      Catalog.ofProgram_eq_ok_iff.mpr (Prod.ext rfl hadded), hloaded.compileAll_isOk_iff.mpr ?_⟩
    rw [Catalog.load, hproblems hadded]
    exact hcompile
  · intro h
    obtain ⟨c, hc, hcompile⟩ := h
    have hload := Catalog.ofProgram_eq_ok_iff.mp hc
    obtain rfl : (Catalog.empty.load program).1 = c := congrArg Prod.fst hload
    have hadded : (Catalog.empty.addAll program.problems).2 = none := congrArg Prod.snd hload
    rw [hloaded.compileAll_isOk_iff, Catalog.load, hproblems hadded] at hcompile
    exact ⟨hadded, hcompile⟩

/-- Nothing is reported of exactly the texts that check. -/
theorem diagnostics_eq_nil_iff (source : String) : diagnostics K source = [] ↔ Checks K source := by
  unfold Checks
  cases hread : (Program.ofString source : Except SyntaxError (Program K)) with
  | error e => simp [diagnostics, hread]
  | ok program => simp [diagnostics_of_ok hread, problemFaults_program]

/-- The command ends with code 0 when the source text checks. -/
theorem code_check_eq_zero_iff (file source : String) :
    ((Command.check file).outcome (.ok source)).code = 0 ↔ Checks Float source := by
  unfold Checks Command.outcome
  cases hread : (Program.ofString source : Except SyntaxError (Program Float)) with
  | error e => simp [hread, Outcome.failure]
  | ok program =>
    simp only [hread, Command.onProgram]
    cases hload : Catalog.ofProgram program with
    | error e => simp [hload, Outcome.failure]
    | ok c =>
      simp only [checkCatalog]
      cases hall : c.compileAll with
      | error e => simp [hload, hall]
      | ok all => simp [hload, hall, Outcome.success]

/-- **The editor and the command agree.** There are no diagnostics exactly when the source text
is read, loaded and compiled without an error, which is when the command `check` succeeds. For a
text that is read, each problem at fault has one diagnostic, in order, and no other problem has
any. -/
theorem diagnostics_agree :
    (∀ (K : Type) [Scalar K] (source : String), diagnostics K source = [] ↔ Checks K source) ∧
    (∀ file source, diagnostics Float source = []
      ↔ ((Command.check file).outcome (.ok source)).code = 0) ∧
    ∀ (K : Type) [Scalar K] (source : String) (program : Program K),
      Program.ofString source = .ok program →
      List.Forall₂ (fun x d => Reports x.1 x.2 d) (faulty program.problems)
        (diagnostics K source) := by
  refine ⟨fun K _ source => diagnostics_eq_nil_iff source, fun file source => ?_,
    fun K _ source program hread => ?_⟩
  · rw [diagnostics_eq_nil_iff, code_check_eq_zero_iff]
  · rw [diagnostics_of_ok hread, ← faultyBehind_nil]
    exact problemFaults_reported _ _ _ .empty fun name => Iff.rfl

/-- Three problems: the second has an unknown variable, and the third the name of the first. -/
def mixedSource : String :=
  "problem a \x7b max x1 \x7d\nproblem b \x7b max x3 \x7d\nproblem a \x7b min x1 \x7d\n"

/-- What `mixedSource` is read as. -/
def mixedProgram : Program ℚ :=
  ⟨[⟨⟨0, 20⟩, "a", [], none, [⟨⟨12, 18⟩, .maximize, .var ⟨16, 18⟩ "x1"⟩], []⟩,
    ⟨⟨21, 41⟩, "b", [], none, [⟨⟨33, 39⟩, .maximize, .var ⟨37, 39⟩ "x3"⟩], []⟩,
    ⟨⟨42, 62⟩, "a", [], none, [⟨⟨54, 60⟩, .minimize, .var ⟨58, 60⟩ "x1"⟩], []⟩]⟩

/-- Of three problems one repeats a name and one has an unknown variable; the first is sound. -/
theorem diagnostics_agree_mixed :
    Program.ofString mixedSource = .ok mixedProgram ∧
    (faulty mixedProgram.problems).map (fun x => (x.1.length, x.2.name)) = [(1, "b"), (2, "a")] ∧
    diagnostics ℚ mixedSource = [⟨⟨21, 41⟩, "Unknown variable x3 in problem b"⟩,
      ⟨⟨42, 62⟩, "Duplicate problem definition: a"⟩] ∧
    ¬Checks ℚ mixedSource ∧
    List.Forall₂ (fun x d => Reports x.1 x.2 d) (faulty mixedProgram.problems)
      (diagnostics ℚ mixedSource) := by
  have hread : Program.ofString mixedSource = .ok mixedProgram := by cbv
  have hdiagnostics : diagnostics ℚ mixedSource = [⟨⟨21, 41⟩, "Unknown variable x3 in problem b"⟩,
      ⟨⟨42, 62⟩, "Duplicate problem definition: a"⟩] := by
    rw [diagnostics_of_ok hread]
    rfl
  have hchecks : ¬Checks ℚ mixedSource := fun h => by
    have hnil := (diagnostics_agree.1 ℚ mixedSource).mpr h
    rw [hdiagnostics] at hnil
    exact absurd hnil (by simp)
  exact ⟨hread, by rfl, hdiagnostics, hchecks,
    diagnostics_agree.2.2 ℚ mixedSource mixedProgram hread⟩

end CornerPoint.Editor

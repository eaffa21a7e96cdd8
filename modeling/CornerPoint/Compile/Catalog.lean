import CornerPoint.Compile.Problem

/-!
# Catalogs of problems

Problems are collected in a catalog under their names and compiled from there. Adding a
program stops at the first name that is already taken; the problems in front of it stay.
-/

namespace CornerPoint.Compile

open Source

/-- Problems in the order in which they were added, no two of the same name. -/
structure Catalog (K : Type) where
  problems : List (Problem K)

namespace Catalog

variable {K : Type}

/-- No problems. -/
def empty : Catalog K := ⟨[]⟩

/-- The names of the problems in order. -/
def names (c : Catalog K) : List String := c.problems.map (·.name)

/-- Adds problems in order until one has a name that is taken. The failure names it. -/
def addAll (c : Catalog K) : List (Problem K) → Catalog K × Option CompileError
  | [] => (c, none)
  | p :: ps =>
    if c.names.contains p.name then (c, some (.duplicateProblem p.name))
    else addAll ⟨c.problems ++ [p]⟩ ps

/-- Adds the problems of a program. -/
def load (c : Catalog K) (program : Program K) : Catalog K × Option CompileError :=
  c.addAll program.problems

/-- A catalog of one program. -/
def ofProgram (program : Program K) : Except CompileError (Catalog K) :=
  match empty.load program with
  | (c, none) => .ok c
  | (_, some e) => .error e

/-- The name of the only problem. -/
def onlyName (c : Catalog K) : Except CompileError String :=
  match c.problems with
  | [] => .error .noProblems
  | [p] => .ok p.name
  | _ => .error (.ambiguousProblem c.names)

/-- The given name, or that of the only problem if none is given. -/
def pick (c : Catalog K) : Option String → Except CompileError String
  | some name => .ok name
  | none => c.onlyName

variable [Scalar K]

/-- Compiles the problem of the given name. -/
def compile (c : Catalog K) (name : String) : Except CompileError (Compiled K) :=
  match c.problems.find? (·.name == name) with
  | some p => Compile.compile p
  | none => .error (.unknownProblem name)

/-- Compiles the problem of the given name, or the only one. -/
def compilePicked (c : Catalog K) (name : Option String) : Except CompileError (Compiled K) :=
  match c.pick name with
  | .ok name => c.compile name
  | .error e => .error e

/-- Compiles all problems in order and stops at the first failure. -/
def compileAll (c : Catalog K) : Except CompileError (List (Compiled K)) :=
  c.names.mapM c.compile

end Catalog

end CornerPoint.Compile

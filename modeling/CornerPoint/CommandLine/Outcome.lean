import CornerPoint.CommandLine.Command
import CornerPoint.Compile.Catalog
import CornerPoint.Document.Solution
import CornerPoint.Document.Source
import CornerPoint.Report
import CornerPoint.Source.Reader

/-!
# Carrying out a command

What a command prints and which code it ends with, given what its file holds. A failure
prints one message and ends with code 1, and so does a problem without a feasible point.
-/

namespace CornerPoint.CommandLine

open Source Compile

/-- Why a file cannot be read. -/
inductive ReadError where
  /-- The system refuses, with a code and what the code means. -/
  | system (code : Nat) (meaning : String)
  /-- The file is there, but its bytes encode no text. -/
  | notText
deriving DecidableEq

namespace ReadError

/-- There is no such file. -/
def notFound : ReadError := .system 2 "No such file or directory"

/-- Something that is no directory is used like one. -/
def notDirectory : ReadError := .system 20 "Not a directory"

/-- There is a directory where a file is expected. -/
def isDirectory : ReadError := .system 21 "Is a directory"

/-- The message for a file that cannot be read. -/
def message : ReadError → String
  | .system code meaning => meaning ++ " (os error " ++ toString code ++ ")"
  | .notText => "stream did not contain valid UTF-8"

end ReadError

/-- The text that the bytes of a file encode. -/
def decode (bytes : ByteArray) : Except ReadError String :=
  match String.fromUTF8? bytes with
  | some text => .ok text
  | none => .error .notText

/-- What a command prints, where, and the code it ends with. -/
structure Outcome where
  code : Nat
  output : String
  errors : String
deriving DecidableEq

namespace Outcome

/-- A result without complaint. -/
def success (output : String) : Outcome := ⟨0, output, ""⟩

/-- A failure: what was being done, and the message. -/
def failure (activity message : String) : Outcome := ⟨1, "", activity ++ ": " ++ message ++ "\n"⟩

end Outcome

/-- Shows what a source text says. -/
def showProgram (format : Format) (program : Program Float) : Outcome :=
  match format with
  | .json => .success (program.toJson.pretty ++ "\n")
  | .pretty => .success (program.outline.text ++ "\n")

/-- One line about a compiled problem. -/
def checkedLine (c : Compiled Float) : String :=
  let p := c.program
  "  " ++ c.name ++ ": " ++ p.objective.sense.word ++ " " ++ p.vars.x ++ "/" ++ p.vars.y
    ++ ", " ++ toString p.constraints.length ++ " constraints\n"

/-- Says whether all problems can be compiled. -/
def checkCatalog (file : String) (catalog : Catalog Float) : Outcome :=
  match catalog.compileAll with
  | .ok compiled =>
    .success ("✓ " ++ file ++ " is valid\n" ++ String.join (compiled.map checkedLine))
  | .error e => ⟨1, "", "✗ " ++ file ++ " has errors:\n  " ++ e.message ++ "\n"⟩

/-- Solves a compiled problem and shows the solution. -/
def solveCompiled (format : Format) (tolerance : Float) (analysis : Bool) (c : Compiled Float) :
    Outcome :=
  match c.program.solve .arctangent tolerance with
  | .error e => .failure "Solve error" e.message
  | .ok s =>
    let output := match format with
      | .json => (c.solvedJson s).pretty ++ "\n"
      | .pretty => Report.text c analysis s
    ⟨if s.isOptimal then 0 else 1, output, ""⟩

/-- Carries out a command on the program that its file holds. -/
def Command.onProgram (command : Command) (program : Program Float) : Outcome :=
  match command with
  | .parse _ format => showProgram format program
  | .check file =>
    match Catalog.ofProgram program with
    | .error e => .failure "Compile error" e.message
    | .ok catalog => checkCatalog file catalog
  | .solve _ problem format tolerance analysis =>
    match Catalog.ofProgram program with
    | .error e => .failure "Compile error" e.message
    | .ok catalog =>
      match catalog.compilePicked problem with
      | .error e => .failure "Compile error" e.message
      | .ok c => solveCompiled format (tolerance.getD Scalar.thousandth) analysis c

/-- Carries out a command, given what its file holds. -/
def Command.outcome (command : Command) (contents : Except ReadError String) : Outcome :=
  match contents with
  | .error e => .failure "Error reading file" e.message
  | .ok source =>
    match (Program.ofString source : Except SyntaxError (Program Float)) with
    | .error e => .failure "Parse error" e.message
    | .ok program => command.onProgram program

end CornerPoint.CommandLine

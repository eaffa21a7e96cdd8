import CornerPoint.CommandLine.Arguments
import CornerPoint.Number.Double

/-!
# Commands

The three commands of the program and how they are spelled:

* `parse FILE [-f FORMAT]` shows what a file says;
* `check FILE` says whether all problems of a file can be compiled;
* `solve FILE [PROBLEM] [-f FORMAT] [-t TOLERANCE] [-a]` solves one problem.

Every command takes `-v`, also in front of the command.
-/

namespace CornerPoint.CommandLine

/-- How results are printed. -/
inductive Format where
  | pretty
  | json
deriving DecidableEq

/-- What is asked for. -/
inductive Command where
  | parse (file : String) (format : Format)
  | check (file : String)
  | solve (file : String) (problem : Option String) (format : Format)
      (tolerance : Option Float) (analysis : Bool)

/-- The file that a command reads. -/
def Command.file : Command → String
  | .parse file _ => file
  | .check file => file
  | .solve file _ _ _ _ => file

/-- Reads the name of a format. -/
def Format.ofString? : String → Option Format
  | "pretty" => some .pretty
  | "json" => some .json
  | _ => none

/-! ## Usages -/

/-- The flag that asks for a log. -/
def verboseFlag : Flag := ⟨'v', "verbose"⟩

/-- The flag that asks for the analysis of the optimum. -/
def analysisFlag : Flag := ⟨'a', "analysis"⟩

/-- The option that names a format. -/
def formatSetting : Setting := ⟨'f', "format", fun s => (Format.ofString? s).isSome⟩

/-- The option that gives the tolerance, which may be any number. -/
def toleranceSetting : Setting := ⟨'t', "tolerance", fun s => (Double.ofString? s).isSome⟩

/-- A file has a name. -/
def isFile (word : String) : Bool := !word.isEmpty

/-- What `parse` takes. -/
def parseUsage : Usage := ⟨[verboseFlag], [formatSetting], [isFile]⟩

/-- What `check` takes. -/
def checkUsage : Usage := ⟨[verboseFlag], [], [isFile]⟩

/-- What `solve` takes; its second word is the name of a problem. -/
def solveUsage : Usage :=
  ⟨[verboseFlag, analysisFlag], [formatSetting, toleranceSetting], [isFile, fun _ => true]⟩

/-! ## Reading a command -/

namespace Given

/-- The first word. -/
def file (g : Given) : String := g.words.headD ""

/-- The format, which is pretty unless another one is given. -/
def format (g : Given) : Format :=
  ((g.settings.lookup formatSetting.letter).bind Format.ofString?).getD .pretty

/-- The tolerance, if one is given. -/
def tolerance (g : Given) : Option Float :=
  (g.settings.lookup toleranceSetting.letter).bind Double.ofString?

end Given

/-- The commands that help can be asked for. -/
def commandNames : List String := ["parse", "check", "solve", "help"]

/-- Reads the arguments of the command of the given name. -/
def Command.ofName (name : String) (arguments : List String) : Except Refusal Command :=
  match name with
  | "parse" => (parseUsage.read arguments).map fun g => .parse g.file g.format
  | "check" => (checkUsage.read arguments).map fun g => .check g.file
  | "solve" =>
    (solveUsage.read arguments).map fun g =>
      .solve g.file g.words[1]? g.format g.tolerance (g.flags.contains analysisFlag.letter)
  | "help" =>
    match arguments with
    | [] => .error .help
    | [topic] => .error (if commandNames.contains topic then .help else .misused)
    | _ => .error .misused
  | _ => .error .misused

/-- Reads a whole command line. In front of the command only `-v` and `-h` may stand. -/
def Command.ofArguments (g : Given) : List String → Except Refusal Command
  | [] => .error .misused
  | argument :: rest =>
    if isDashed argument then
      match g.addArgument ⟨[verboseFlag], [], []⟩ argument with
      | .ok (g, _) => ofArguments g rest
      | .error r => .error r
    else Command.ofName argument rest

/-- Reads a whole command line. -/
def Command.read (arguments : List String) : Except Refusal Command :=
  Command.ofArguments .nothing arguments

/-- What is printed when help is asked for. -/
def helpText : String :=
  "Solve two-variable linear programs with the graphical method\n\n"
    ++ "Usage: cornerpoint [-v] <COMMAND>\n\n"
    ++ "Commands:\n"
    ++ "  parse FILE [-f pretty|json]\n"
    ++ "  check FILE\n"
    ++ "  solve FILE [PROBLEM] [-f pretty|json] [-t TOLERANCE] [-a]\n"

end CornerPoint.CommandLine

/-!
# Command-line arguments

How words on a command line are told apart, whatever the command. A `Usage` lists the flags,
the options with a value, and the plain words that a command takes. Flags and options are
given by their letter or by their full name; letters may share a dash, and a value may follow
its option directly, behind `=`, or as the next word. A word that starts with a dash is never
a plain word or a value that stands alone, except a dash by itself and what follows `--`.
Nothing may be given twice.
-/

namespace CornerPoint.CommandLine

/-- A switch that is either given or not. -/
structure Flag where
  letter : Char
  name : String

/-- An option with a value that must be acceptable. -/
structure Setting where
  letter : Char
  name : String
  accepts : String → Bool

/-- What a command takes: its words are the required one and the optional ones. -/
structure Usage where
  flags : List Flag
  settings : List Setting
  /-- For each place what word is acceptable there. -/
  words : List (String → Bool)

/-- What was given: the letters of flags, the letters and values of settings, and words. -/
structure Given where
  flags : List Char
  settings : List (Char × String)
  words : List String

/-- Why arguments are not carried out. -/
inductive Refusal where
  /-- They do not make sense. -/
  | misused
  /-- Help was asked for. -/
  | help
deriving DecidableEq

namespace Given

/-- Nothing was given. -/
def nothing : Given := ⟨[], [], []⟩

/-- Adds a flag. -/
def addFlag (g : Given) (letter : Char) : Except Refusal Given :=
  if g.flags.contains letter then .error .misused
  else .ok { g with flags := letter :: g.flags }

/-- Adds a setting with its value. -/
def addSetting (g : Given) (s : Setting) (value : String) : Except Refusal Given :=
  if (g.settings.lookup s.letter).isSome || !s.accepts value then .error .misused
  else .ok { g with settings := (s.letter, value) :: g.settings }

/-- Adds a word in the next place. -/
def addWord (u : Usage) (g : Given) (word : String) : Except Refusal Given :=
  match u.words[g.words.length]? with
  | some accepts =>
    if accepts word then .ok { g with words := g.words ++ [word] } else .error .misused
  | none => .error .misused

/-- Adds words up to the end. -/
def addWords (u : Usage) (g : Given) : List String → Except Refusal Given
  | [] => .ok g
  | word :: rest =>
    match g.addWord u word with
    | .ok g => addWords u g rest
    | .error r => .error r

end Given

/-- What was given, and a setting whose value is still to come. -/
abbrev Partly := Given × Option Setting

/-- Letters that share a dash. What stands behind the letter of a setting is its value. -/
def Given.addLetters (u : Usage) (g : Given) : List Char → Except Refusal Partly
  | [] => .ok (g, none)
  | c :: cs =>
    if c == 'h' then .error .help
    else if u.flags.any (·.letter == c) then
      match g.addFlag c with
      | .ok g => addLetters u g cs
      | .error r => .error r
    else
      match u.settings.find? (·.letter == c), cs with
      | none, _ => .error .misused
      | some s, [] => .ok (g, some s)
      | some s, '=' :: value => (g.addSetting s (String.ofList value)).map (·, none)
      | some s, value => (g.addSetting s (String.ofList value)).map (·, none)

/-- A full name behind two dashes, perhaps with `=` and a value. -/
def Given.addName (u : Usage) (g : Given) (cs : List Char) : Except Refusal Partly :=
  let name := String.ofList (cs.takeWhile (· != '='))
  let value := (cs.dropWhile (· != '=')).tail
  let hasValue := cs.contains '='
  if name == "help" then .error (if hasValue then .misused else .help)
  else
    match u.flags.find? (·.name == name), u.settings.find? (·.name == name) with
    | some f, _ => if hasValue then .error .misused else (g.addFlag f.letter).map (·, none)
    | none, some s =>
      if hasValue then (g.addSetting s (String.ofList value)).map (·, none) else .ok (g, some s)
    | none, none => .error .misused

/-- Whether a word is meant as a flag or an option. -/
def isDashed (word : String) : Bool :=
  match word.toList with
  | '-' :: _ :: _ => true
  | _ => false

/-- One argument that is neither a value nor behind `--`. -/
def Given.addArgument (u : Usage) (g : Given) (argument : String) : Except Refusal Partly :=
  match argument.toList with
  | '-' :: '-' :: name => g.addName u name
  | '-' :: c :: cs => g.addLetters u (c :: cs)
  | _ => (g.addWord u argument).map (·, none)

/-- All arguments from a place on. The value of a setting may be the next argument. -/
def Given.addAll (u : Usage) (g : Given) : List String → Except Refusal Given
  | [] => .ok g
  | "--" :: rest => g.addWords u rest
  | argument :: rest =>
    match g.addArgument u argument, rest with
    | .error r, _ => .error r
    | .ok (g, none), rest => addAll u g rest
    | .ok (_, some _), [] => .error .misused
    | .ok (g, some s), value :: rest =>
      if isDashed value then .error .misused
      else
        match g.addSetting s value with
        | .ok g => addAll u g rest
        | .error r => .error r

/-- What arguments give to a command. The first word is required. -/
def Usage.read (u : Usage) (arguments : List String) : Except Refusal Given :=
  match Given.nothing.addAll u arguments with
  | .ok g => if g.words.isEmpty then .error .misused else .ok g
  | .error r => .error r

end CornerPoint.CommandLine

import CornerPoint.Compile.Problem
import CornerPoint.Number.Style
import CornerPoint.Program.Solution

/-!
# Reports

A report shows a compiled problem and its solution to a reader: the problem, its constraints,
and the optimum or the reasons why there is none. Computed numbers are shown with two
decimals, the problem's own in full.
-/

namespace CornerPoint

/-- A text with blanks behind it up to a width in characters. -/
def padRight (width : Nat) (s : String) : String := s.pushn ' ' (width - s.length)

/-- A text with blanks in front of it up to a width in characters. -/
def padLeft (width : Nat) (s : String) : String := "".pushn ' ' (width - s.length) ++ s

namespace Report

open Compile (Compiled)

/-- A computed number. -/
def number (x : Float) : String := Double.fixed 2 x

/-- The lines that describe the problem. -/
def problem (c : Compiled Float) : List String :=
  let p := c.program
  ["Problem: " ++ c.title]
    ++ (c.description.map ("Description: " ++ ·)).toList
    ++ ["Objective: " ++ p.objective.text p.vars, "", "Constraints:"]
    ++ p.constraints.map (fun r => "  " ++ padRight 12 r.name ++ " " ++ r.text p.vars)
    ++ [""]

/-- The line of one slack. -/
def slack (s : Slack Float) : String :=
  "  " ++ padRight 12 s.constraint ++ " lhs " ++ padLeft 10 (number s.lhs) ++ "  slack "
    ++ padLeft 10 (number s.slack) ++ (if s.binding then "  (binding)" else "")

/-- A heading and the lines under it, or nothing when there are no such lines. -/
def titled (heading : String) (lines : List String) : List String :=
  if lines.isEmpty then [] else heading :: lines

/-- The lines of the analysis. -/
def analysis (a : Analysis Float) : List String :=
  ["", "Analysis:"]
    ++ titled "Binding constraints:" (a.bindingConstraints.map ("  - " ++ ·))
    ++ ["Slacks:"] ++ a.slacks.map slack
    ++ titled "Alternative optima:" (a.alternatives.map fun p => "  " ++ p.textWith number)

/-- The lines of the solution. -/
def solution (v : Variables) (withAnalysis : Bool) : Solution Float → List String
  | .optimal top corners a =>
    ["Feasible region vertices:"] ++ corners.map (fun p => "  " ++ p.textWith number)
      ++ ["", "Status: OPTIMAL",
        "  " ++ v.x ++ " = " ++ number top.point.x,
        "  " ++ v.y ++ " = " ++ number top.point.y,
        "Objective value: " ++ number top.value]
      ++ if withAnalysis then analysis a else []
  | .infeasible conflicts =>
    ["Status: INFEASIBLE", "No point satisfies all constraints."]
      ++ conflicts.map fun f => "  [" ++ ", ".intercalate f.names ++ "] " ++ f.text v

/-- The whole report. -/
def text (c : Compiled Float) (withAnalysis : Bool) (s : Solution Float) : String :=
  String.join ((problem c ++ solution c.program.vars withAnalysis s).map (· ++ "\n"))

end Report

end CornerPoint

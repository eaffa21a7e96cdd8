/-!
# Outlines

An outline shows a tree with names on its nodes, one leaf to a line. Every part of a node
stands on a line of its own, indented by four blanks and followed by a comma.
-/

namespace CornerPoint

/-- A tree to be shown. -/
inductive Outline where
  /-- A text that stands for itself. -/
  | leaf (text : String)
  /-- A name with named parts in braces. -/
  | record (name : String) (fields : List (String × Outline))
  /-- A name with one part in parentheses. -/
  | wrapped (name : String) (part : Outline)
  /-- Parts in brackets. -/
  | list (items : List Outline)

namespace Outline

/-- A value that may be missing. -/
def ofOption {α : Type} (outline : α → Outline) : Option α → Outline
  | none => .leaf "None"
  | some a => .wrapped "Some" (outline a)

/-- A new line, indented. -/
def newline (indent : Nat) : String := "\n" ++ "".pushn ' ' (4 * indent)

mutual

/-- The outline; all lines but the first are indented by `indent` steps. -/
def textAt (indent : Nat) : Outline → String
  | .leaf text => text
  | .record name fields =>
    name ++ " \x7b" ++ fieldsAt (indent + 1) fields ++ newline indent ++ "\x7d"
  | .wrapped name part =>
    name ++ "(" ++ newline (indent + 1) ++ textAt (indent + 1) part ++ "," ++ newline indent ++ ")"
  | .list [] => "[]"
  | .list (item :: items) =>
    "[" ++ newline (indent + 1) ++ textAt (indent + 1) item ++ "," ++ itemsAt (indent + 1) items
      ++ newline indent ++ "]"

/-- The lines of some items. -/
def itemsAt (indent : Nat) : List Outline → String
  | [] => ""
  | item :: items => newline indent ++ textAt indent item ++ "," ++ itemsAt indent items

/-- The lines of some fields. -/
def fieldsAt (indent : Nat) : List (String × Outline) → String
  | [] => ""
  | (name, value) :: fields =>
    newline indent ++ name ++ ": " ++ textAt indent value ++ "," ++ fieldsAt indent fields

end

/-- The outline as a text. -/
def text (o : Outline) : String := o.textAt 0

end Outline

end CornerPoint

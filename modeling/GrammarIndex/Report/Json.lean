/-!
JSON output: one member or element a line, two blanks for every level.
-/
namespace GrammarIndex.Report

/-- A JSON value; its numbers are natural. -/
inductive Json where
  | null
  | bool (b : Bool)
  | num (n : Nat)
  | str (s : String)
  | arr (elements : List Json)
  | obj (members : List (String × Json))

namespace Json

/-- An object with its members in the order of their names. -/
def object (members : List (String × Json)) : Json :=
  .obj (members.mergeSort fun a b => decide (a.1 ≤ b.1))

/-- At least four hexadecimal digits. -/
def hex4 (n : Nat) : List Char :=
  let digits := Nat.toDigits 16 n
  List.replicate (4 - digits.length) '0' ++ digits

/-- How a character is written inside quotes. -/
def escape (c : Char) : List Char :=
  if c = '"' then ['\\', '"']
  else if c = '\\' then ['\\', '\\']
  else if c = '\n' then ['\\', 'n']
  else if c = '\r' then ['\\', 'r']
  else if c = '\t' then ['\\', 't']
  else if c.toNat = 8 then ['\\', 'b']
  else if c.toNat = 12 then ['\\', 'f']
  else if c.toNat < 32 then ['\\', 'u'] ++ hex4 c.toNat
  else [c]

def quote (s : String) : String := String.ofList (['"'] ++ s.toList.flatMap escape ++ ['"'])

def margin (level : Nat) : String := String.ofList (List.replicate (2 * level) ' ')

/-- Lines between brackets; nothing stands between the brackets if there are none. -/
def bracket (opening closing : String) (level : Nat) (lines : List String) : String :=
  if lines.isEmpty then opening ++ closing
  else
    opening ++ "\n" ++ String.intercalate ",\n" (lines.map (margin (level + 1) ++ ·)) ++ "\n" ++
      margin level ++ closing

mutual

/-- A value as text, at a level of nesting. -/
def renderAt (level : Nat) : Json → String
  | .null => "null"
  | .bool b => if b then "true" else "false"
  | .num n => n.repr
  | .str s => quote s
  | .arr elements => bracket "[" "]" level (renderElements (level + 1) elements)
  | .obj members => bracket "\x7b" "\x7d" level (renderMembers (level + 1) members)

def renderElements (level : Nat) : List Json → List String
  | [] => []
  | element :: rest => renderAt level element :: renderElements level rest

def renderMembers (level : Nat) : List (String × Json) → List String
  | [] => []
  | (name, value) :: rest =>
    (quote name ++ ": " ++ renderAt level value) :: renderMembers level rest

end

def render (j : Json) : String := j.renderAt 0

end Json

end GrammarIndex.Report

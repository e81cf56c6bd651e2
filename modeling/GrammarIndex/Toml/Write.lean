/-!
TOML strings and arrays of strings as they are written.

A string takes the first form in which nothing has to be escaped: basic, literal, basic over several
lines, literal over several lines. If none will do it is basic, with escapes.
-/
namespace GrammarIndex.Toml

/-- The longest run of a character. -/
def longestRun (mark : Char) (run : Nat) : List Char → Nat
  | [] => run
  | c :: cs => if c = mark then longestRun mark (run + 1) cs else max run (longestRun mark 0 cs)

/-- Control characters that no form holds as they are. -/
def isControl (c : Char) : Bool := (c.toNat < 32 && c ≠ '\t' && c ≠ '\n') || c.toNat = 127

/-- Four hexadecimal digits. -/
def upperHex4 (n : Nat) : List Char :=
  let digits := (Nat.toDigits 16 n).map Char.toUpper
  List.replicate (4 - digits.length) '0' ++ digits

/-- The escape of a character that needs one. -/
def escape? (inBlock : Bool) (c : Char) : Option (List Char) :=
  if c = '\\' then some ['\\', '\\']
  else if c = '\t' then some ['\\', 't']
  else if c = '\n' then (if inBlock then none else some ['\\', 'n'])
  else if c = '\r' then some ['\\', 'r']
  else if c.toNat = 8 then some ['\\', 'b']
  else if c.toNat = 12 then some ['\\', 'f']
  else if isControl c then some (['\\', 'u'] ++ upperHex4 c.toNat)
  else none

/-- The inside of a basic string. Over several lines two quotes in a row need no escape. -/
def basicText (inBlock : Bool) (quotes : Nat) : List Char → List Char
  | [] => []
  | c :: cs =>
    if c = '"' then
      if (if inBlock then 2 else 0) < quotes + 1 then '\\' :: '"' :: basicText inBlock 0 cs
      else '"' :: basicText inBlock (quotes + 1) cs
    else
      match escape? inBlock c with
      | some spelled => spelled ++ basicText inBlock 0 cs
      | none => c :: basicText inBlock 0 cs

/-- A text between delimiters; a block that holds newlines starts on a line of its own. -/
def delimit (mark : String) (isBlock : Bool) (text inside : List Char) : String :=
  let start := if isBlock && text.contains '\n' then "\n" else ""
  mark ++ start ++ String.ofList inside ++ mark

/-- A string as it is written. -/
def writeString (s : String) : String :=
  let text := s.toList
  let newline := text.contains '\n'
  let control := text.any isControl
  let backslash := text.contains '\\'
  let doubles := longestRun '"' 0 text
  let singles := longestRun '\x27' 0 text
  if !control && !backslash && doubles = 0 && !newline then
    delimit "\"" false text (basicText false 0 text)
  else if !control && singles = 0 && !newline then delimit "'" false text text
  else if !control && !backslash && doubles ≤ 2 then
    delimit "\"\"\"" true text (basicText true 0 text)
  else if !control && singles ≤ 2 then delimit "'''" true text text
  else if newline then delimit "\"\"\"" true text (basicText true 0 text)
  else delimit "\"" false text (basicText false 0 text)

/-- An array of strings; from two elements on each has its own line. -/
def writeStrings : List String → String
  | [] => "[]"
  | [s] => "[" ++ writeString s ++ "]"
  | strings =>
    "[\n" ++ String.join (strings.map fun s => "    " ++ writeString s ++ ",\n") ++ "]"

end GrammarIndex.Toml

import GrammarIndex.Text.Position
import GrammarIndex.Toml.Scalar

/-!
TOML documents as they are read.

A document is a list of statements: keys with their values, headers of tables, headers of tables in
a series. Values nest fewer than eighty levels deep, and keys have fewer than eighty parts.
-/
namespace GrammarIndex.Toml

/-- How deep values may nest. -/
def nesting : Nat := 79

/-! ### Gaps and keys -/

def dropGap (text : List Char) : List Char := text.dropWhile isGap

/-- Blanks, newlines and comments between the elements of an array. -/
def dropFill (inComment : Bool) : List Char → Option (List Char)
  | [] => some []
  | '\r' :: '\n' :: rest => dropFill false rest
  | '\n' :: rest => dropFill false rest
  | c :: rest =>
    if inComment then (if isPlain c then dropFill true rest else none)
    else if isGap c then dropFill false rest
    else if c = '#' then dropFill true rest
    else some (c :: rest)

/-- The rest of a line that holds nothing more but a comment. -/
def readLineEnd (inComment : Bool) : List Char → Option (List Char)
  | [] => some []
  | '\r' :: '\n' :: rest => some rest
  | '\n' :: rest => some rest
  | c :: rest =>
    if inComment then (if isPlain c then readLineEnd true rest else none)
    else if isGap c then readLineEnd false rest
    else if c = '#' then readLineEnd true rest
    else none

def isBareKeyChar (c : Char) : Bool := c.isAlphanum || c = '_' || c = '-'

/-- One part of a key. -/
def readKeyPart (text : List Char) : Option (String × List Char) :=
  match readString.readLineString text with
  | some found => some found
  | none =>
    let bare := text.takeWhile isBareKeyChar
    if bare.isEmpty then none
    else some (String.ofList bare, text.dropWhile isBareKeyChar)

/-- The parts of a key, at most `bound` of them. -/
def readKey : (bound : Nat) → Reader (List String)
  | 0, _ => none
  | bound + 1, text => do
    let (part, rest) ← readKeyPart (dropGap text)
    match dropGap rest with
    | '.' :: rest =>
      let (parts, rest) ← readKey bound rest
      return (part :: parts, rest)
    | rest => return ([part], rest)

/-- A key, with its last part apart. -/
def readPath (text : List Char) : Option ((List String × String) × List Char) := do
  let (parts, rest) ← readKey nesting text
  let last ← parts.getLast?
  return ((parts.dropLast, last), rest)

/-! ### Values -/

/-- The elements of an array up to its bracket; `bound` limits their number. -/
def readElements (readValue : Reader Value) : (bound : Nat) → Reader (List Value)
  | 0, _ => none
  | bound + 1, text => do
    match ← dropFill false text with
    | ']' :: rest => return ([], rest)
    | text =>
      let (v, rest) ← readValue text
      match ← dropFill false rest with
      | ',' :: rest =>
        let (vs, rest) ← readElements readValue bound rest
        return (v :: vs, rest)
      | ']' :: rest => return ([v], rest)
      | _ => none

/-- A key with its value. -/
def readPair (readValue : Reader Value) : Reader ((List String × String) × Value) := fun text => do
  let (path, rest) ← readPath text
  match rest with
  | '=' :: rest =>
    let (v, rest) ← readValue (dropGap rest)
    return ((path, v), dropGap rest)
  | _ => none

/-- The members of a table in braces, added to those read before. -/
def readMembers (readValue : Reader Value) : (bound : Nat) → Fields → Reader Fields
  | 0, _, _ => none
  | bound + 1, fields, text => do
    let (((path, name), v), rest) ← readPair readValue text
    let fields ← fields.assign path name v
    match rest with
    | ',' :: rest => readMembers readValue bound fields rest
    | '}' :: rest => return (fields, rest)
    | _ => none

/-- A value that nests at most `depth` levels deep. -/
def readValue (depth : Nat) : Reader Value
  | '[' :: rest =>
    match depth with
    | 0 => none
    | depth + 1 => do
      let (vs, rest) ← readElements (readValue depth) (rest.length + 1) rest
      return (.array vs, rest)
  | '{' :: rest =>
    match depth with
    | 0 => none
    | depth + 1 =>
      match dropGap rest with
      | '}' :: rest => some (.table .closed [], rest)
      | rest => do
        let (fields, rest) ← readMembers (readValue depth) (rest.length + 1) [] rest
        return (.table .closed fields, rest)
  | text =>
    match text.head? with
    | some '"' | some '\x27' => (readString text).map fun (s, rest) => (.string s, rest)
    | _ => readScalar text

/-! ### Statements -/

/-- What was read so far, and the section that is open. -/
structure Draft where
  fields : Fields := []
  sectionPath : List String := []

/-- One statement, or an empty line. -/
def readStatement (draft : Draft) (text : List Char) : Option (Draft × List Char) :=
  match text with
  | '[' :: '[' :: rest => do
    let ((path, name), rest) ← readPath rest
    match rest with
    | ']' :: ']' :: rest =>
      let fields ← draft.fields.append path name
      return (⟨fields, path ++ [name]⟩, ← readLineEnd false rest)
    | _ => none
  | '[' :: rest => do
    let ((path, name), rest) ← readPath rest
    match rest with
    | ']' :: rest =>
      let fields ← draft.fields.declare path name
      return (⟨fields, path ++ [name]⟩, ← readLineEnd false rest)
    | _ => none
  | text =>
    match readLineEnd false text with
    | some rest => some (draft, rest)
    | none => do
      let (((path, name), v), rest) ← readPair (readValue nesting) text
      let fields ← draft.fields.assignIn draft.sectionPath path name v
      return (⟨fields, draft.sectionPath⟩, ← readLineEnd false rest)

/-- At most `bound` statements; a faulty one gives the characters from it on. -/
def readStatements : (bound : Nat) → Draft → List Char → Except (List Char) Fields
  | 0, _, text => .error text
  | bound + 1, draft, text =>
    match dropGap text with
    | [] => .ok draft.fields
    | text =>
      match readStatement draft text with
      | none => .error text
      | some (draft, rest) => readStatements bound draft rest

/-- Read a document, or say where its first faulty statement begins. A byte-order mark in front does
not count. -/
def read (text : String) : Except Text.Position Fields :=
  let chars := match text.toList with
    | '\ufeff' :: rest => rest
    | chars => chars
  match readStatements (chars.length + 1) {} chars with
  | .ok fields => .ok fields
  | .error rest => .error (Text.positionOf text.toList (text.length - rest.length))

end GrammarIndex.Toml

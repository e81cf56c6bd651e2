/-!
TOML values and how a document builds its tables.

A table is declared once, by its header or in braces. Dotted keys open tables that only further
dotted keys of the same section extend, and a header implies the tables above it, which a header of
their own may still declare.
-/
namespace GrammarIndex.Toml

/-- How a table came to be, which decides what may still be added to it. -/
inductive Standing where
  | closed
  | declared
  | implied
  | dotted
  deriving DecidableEq, Repr

/-- A value. Nothing here looks at floats and moments, so they carry nothing. -/
inductive Value where
  | string (text : String)
  | integer (n : Int)
  | float
  | boolean (b : Bool)
  | moment
  | array (elements : List Value)
  | table (standing : Standing) (fields : List (String × Value))
  | series (latest : List (String × Value)) (earlier : List Value)

abbrev Fields := List (String × Value)

namespace Fields

/-- Put a value in the place of the one a name has. -/
def replace (name : String) (v : Value) (fields : Fields) : Fields :=
  fields.map fun f => if f.1 = name then (name, v) else f

/-- Change the table that a path leads to. Tables missing on the way are made with the standing
`fresh`; in a series the latest table counts; a dotted path cannot enter a declared table. -/
def enter (fresh : Standing) (change : Standing → Fields → Option Fields) :
    List String → Standing → Fields → Option Fields
  | [], standing, fields => change standing fields
  | name :: path, _, fields =>
    match fields.lookup name with
    | none => do
      let inner ← enter fresh change path fresh []
      return fields ++ [(name, .table fresh inner)]
    | some (.table standing inner) =>
      if standing = .closed || (fresh = .dotted && standing = .declared) then none
      else do
        let inner ← enter fresh change path standing inner
        return fields.replace name (.table standing inner)
    | some (.series latest earlier) => do
      let latest ← enter fresh change path .declared latest
      return fields.replace name (.series latest earlier)
    | some _ => none

/-- Give a name a value, once. -/
def assign (path : List String) (name : String) (v : Value) (fields : Fields) : Option Fields :=
  enter .dotted (fun standing inner =>
    if !path.isEmpty && standing ≠ .dotted then none
    else if (inner.lookup name).isSome then none
    else some (inner ++ [(name, v)])) path .declared fields

/-- Declare a table. -/
def declare (path : List String) (name : String) (fields : Fields) : Option Fields :=
  enter .implied (fun _ inner =>
    match inner.lookup name with
    | none => some (inner ++ [(name, .table .declared [])])
    | some (.table .implied below) => some (inner.replace name (.table .declared below))
    | some _ => none) path .declared fields

/-- Append an empty table to a series. -/
def append (path : List String) (name : String) (fields : Fields) : Option Fields :=
  enter .implied (fun _ inner =>
    match inner.lookup name with
    | none => some (inner ++ [(name, .series [] [])])
    | some (.series latest earlier) =>
      some (inner.replace name (.series [] (.table .declared latest :: earlier)))
    | some _ => none) path .declared fields

/-- Assign inside a section. -/
def assignIn (sectionPath path : List String) (name : String) (v : Value) (fields : Fields) :
    Option Fields :=
  enter .implied (fun _ inner => assign path name v inner) sectionPath .declared fields

end Fields

end GrammarIndex.Toml

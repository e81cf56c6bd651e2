import GrammarIndex.Ignore.Glob

/-!
Reading glob patterns.

Brackets hold a set of characters and braces a choice, which may nest. A bracket that is never
closed stands for itself; a brace that is never closed, and one that was never opened, do not read.
-/
namespace GrammarIndex.Ignore.Glob

/-- What came of reading what stands in brackets. -/
inductive Bracket where
  | closed (token : GlobToken) (rest : List Char)
  | unclosed
  | badRange

/-- Read ranges up to the closing bracket. `first` says that nothing has been read yet, `spans` that
a dash before may start a range. Ranges are collected latest first. -/
def bracketFrom (negated first spans : Bool) (ranges : List (Char × Char)) : List Char → Bracket
  | [] => .unclosed
  | c :: cs =>
    if c = ']' && !first then
      let all := if spans then ('-', '-') :: ranges else ranges
      .closed (.oneOf negated all.reverse) cs
    else if c = '-' && !first && !spans then bracketFrom negated false true ranges cs
    else if spans then
      match ranges with
      | [] => .badRange
      | (low, _) :: others =>
        if c < low then .badRange else bracketFrom negated false false ((low, c) :: others) cs
    else bracketFrom negated false false ((c, c) :: ranges) cs

def bracket (cs : List Char) : Bracket :=
  match cs with
  | '!' :: rest | '^' :: rest => bracketFrom true true false [] rest
  | _ => bracketFrom false true false [] cs

/-- A pattern half read: the parts of the innermost branch, latest first, and for each open choice
the parts before it and its finished branches. -/
structure Reader where
  parts : List GlobToken := []
  outer : List (List GlobToken × List (List GlobToken)) := []
  previous : Option Char := none
  literalBrackets : Bool := false

namespace Reader

def push (r : Reader) (t : GlobToken) : Reader := { r with parts := t :: r.parts }

def pushAll (r : Reader) (ts : List GlobToken) : Reader := ts.foldl push r

/-- Put `**` where the last part, a separator, stands; next to another `**` it adds nothing. -/
def span (r : Reader) (isLast : Bool) : Reader :=
  match r.parts with
  | [] => r
  | .leading :: _ => r
  | .trailing :: _ => r
  | _ :: before => { r with parts := (if isLast then .trailing else .spanning) :: before }

/-- Read `**`, with what stands behind it. -/
def doubleStar (r : Reader) (rest : List Char) : Reader × List Char :=
  let plain := (r.pushAll [.star, .star], rest)
  if r.parts.isEmpty then
    match rest with
    | [] => (r.push .leading, [])
    | c :: behind => if c = '/' then ({ r.push .leading with previous := some '/' }, behind) else plain
  else
    let afterSeparator := r.previous = some '/'
    let inBranch := !r.outer.isEmpty && (r.previous = some ',' || r.previous = some '{')
    if !afterSeparator && !inBranch then plain
    else
      match rest with
      | [] => (r.span true, [])
      | c :: behind =>
        if c = '/' then ({ r.span false with previous := some '/' }, behind)
        else if (c = ',' || c = '}') && !r.outer.isEmpty then (r.span true, rest)
        else plain

end Reader

/-- Read the rest of a pattern, at most `limit` characters of it; `none` for a pattern that is not
well formed. -/
def readFrom : (limit : Nat) → Reader → List Char → Option Glob
  | 0, _, _ => none
  | _ + 1, r, [] => if r.outer.isEmpty then some r.parts.reverse else none
  | limit + 1, r, c :: cs =>
    let next (r : Reader) (rest : List Char) (last : Char) : Option Glob :=
      readFrom limit { r with previous := some last } rest
    match c with
    | '?' => next (r.push .any) cs c
    | '*' =>
      match cs with
      | '*' :: rest =>
        let (r', left) := r.doubleStar rest
        let last := if left.length < rest.length then '/' else '*'
        next r' left last
      | _ => next (r.push .star) cs c
    | '[' =>
      if r.literalBrackets then next (r.push (.literal '[')) cs c
      else
        match bracket cs with
        | .closed token rest => next (r.push token) rest ']'
        | .unclosed => next { r.push (.literal '[') with literalBrackets := true } cs c
        | .badRange => none
    | '{' => next { r with parts := [], outer := (r.parts, []) :: r.outer } cs c
    | '}' =>
      match r.outer with
      | [] => none
      | (before, done) :: outer =>
        next { r with parts := .choice (r.parts.reverse :: done).reverse :: before, outer } cs c
    | ',' =>
      match r.outer with
      | [] => next (r.push (.literal ',')) cs c
      | (before, done) :: outer =>
        next { r with parts := [], outer := (before, r.parts.reverse :: done) :: outer } cs c
    | '\\' =>
      match cs with
      | [] => none
      | c' :: rest => next (r.push (.literal c')) rest c'
    | _ => next (r.push (.literal c)) cs c

/-- Read a pattern. -/
def read? (pattern : String) : Option Glob :=
  readFrom (pattern.length + 1) {} pattern.toList

end GrammarIndex.Ignore.Glob

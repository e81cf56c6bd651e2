/-!
Glob patterns over paths.

A pattern is matched against the bytes of a path. `?` and `*` stay within one name, `**` between
separators spans directories. A match keeps all places in the path that it can have come to, part by
part, so its cost is the length of the pattern times that of the path.
-/
namespace GrammarIndex.Ignore

/-- A part of a pattern. `leading`, `trailing` and `spanning` are the three places of `**`. -/
inductive GlobToken where
  | literal (c : Char)
  | any
  | star
  | leading
  | trailing
  | spanning
  | oneOf (negated : Bool) (ranges : List (Char × Char))
  | choice (branches : List (List GlobToken))
  deriving Repr, Inhabited

abbrev Glob := List GlobToken

namespace Glob

def separator : UInt8 := '/'.toUInt8

def bytesOf (c : Char) : List UInt8 := (String.singleton c).toUTF8.toList

/-- The byte ranges that a range of characters stands for inside brackets. Characters of several
bytes count byte by byte, and only their innermost bytes span a range. -/
def byteRanges (r : Char × Char) : List (UInt8 × UInt8) :=
  let single (b : UInt8) : UInt8 × UInt8 := (b, b)
  let first := bytesOf r.1
  if r.1 = r.2 then first.map single
  else
    match first.getLast?, bytesOf r.2 with
    | some low, high :: rest => first.dropLast.map single ++ [(low, high)] ++ rest.map single
    | _, _ => []

def byteIn (ranges : List (Char × Char)) (b : UInt8) : Bool :=
  (ranges.flatMap byteRanges).any fun r => r.1 ≤ b && b ≤ r.2

mutual

/-- Whether a part is no part at all: a choice between branches without parts. -/
def isVoidToken : GlobToken → Bool
  | .choice branches => areVoid branches
  | _ => false

def isVoid : List GlobToken → Bool
  | [] => true
  | t :: ts => isVoidToken t && isVoid ts

def areVoid : List (List GlobToken) → Bool
  | [] => true
  | b :: bs => isVoid b && areVoid bs

end

/-! ### Matching -/

/-- For each place in a path, from before its first byte to behind its last, whether a match can
have come there. -/
abbrev Reach := List Bool

/-- Go over one byte that satisfies `p`. -/
def stepOver (p : UInt8 → Bool) (path : List UInt8) (reach : Reach) : Reach :=
  false :: List.zipWith (fun b here => here && p b) path reach

/-- Stay, or go over any number of bytes that satisfy `p`. `carried` says that the bytes before led
to the first place. -/
def along (p : UInt8 → Bool) (carried : Bool) : List UInt8 → Reach → Reach
  | _, [] => []
  | [], here :: _ => [here || carried]
  | b :: path, here :: reach =>
    let now := here || carried
    now :: along p (now && p b) path reach

/-- What one of two ways leads to. -/
def either (a b : Reach) : Reach := List.zipWith (· || ·) a b

def isSeparator (b : UInt8) : Bool := b == separator

/-- Go over any bytes and a separator. -/
def behindSeparator (path : List UInt8) (reach : Reach) : Reach :=
  stepOver isSeparator path (along (fun _ => true) false path reach)

mutual

/-- Go over one part of a pattern. -/
def advance (path : List UInt8) : GlobToken → Reach → Reach
  | .literal c, reach => (bytesOf c).foldl (fun reach b => stepOver (· == b) path reach) reach
  | .any, reach => stepOver (!isSeparator ·) path reach
  | .star, reach => along (!isSeparator ·) false path reach
  | .leading, reach => either reach (behindSeparator path reach)
  | .trailing, reach => along (fun _ => true) false path (stepOver isSeparator path reach)
  | .spanning, reach =>
    let inside := stepOver isSeparator path reach
    either inside (behindSeparator path inside)
  | .oneOf negated ranges, reach => stepOver (fun b => byteIn ranges b != negated) path reach
  | .choice branches, reach => if areVoid branches then reach else advanceEither path branches reach

/-- Go over all parts in turn. -/
def advanceAll (path : List UInt8) : List GlobToken → Reach → Reach
  | [], reach => reach
  | t :: ts, reach => advanceAll path ts (advance path t reach)

/-- Go over one of the branches; a branch without parts does not count. -/
def advanceEither (path : List UInt8) : List (List GlobToken) → Reach → Reach
  | [], reach => reach.map fun _ => false
  | b :: bs, reach =>
    let others := advanceEither path bs reach
    if isVoid b then others else either (advanceAll path b reach) others

end

/-- Whether the parts of a pattern cover a whole path. -/
def covers (g : Glob) (path : List UInt8) : Bool :=
  (advanceAll path g (true :: path.map fun _ => false)).getLast? == some true

/-! ### Names -/

def literal? : GlobToken → Option Char
  | .literal c => some c
  | _ => none

/-- Whether a pattern ends in a dot and further literals within one name. -/
def endsInExtension (g : Glob) : Bool :=
  match g.reverse.dropWhile fun t => (literal? t).any fun c => c != '.' && c != '/' with
  | .literal '.' :: _ => true
  | _ => false

/-- Whether a pattern is looked up by the last name of a path: a name at any depth, or a name with
a given extension. -/
def isByName : Glob → Bool
  | .leading :: rest =>
    match rest.mapM literal? with
    | some name => !name.isEmpty && !name.contains '/'
    | none => endsInExtension rest
  | g => (g.mapM literal?).isNone && endsInExtension g

/-- The last name of a path; `..` is none. -/
def lastName? (path : List UInt8) : Option (List UInt8) :=
  let name := (path.reverse.takeWhile (!isSeparator ·)).reverse
  if name == ['.'.toUInt8, '.'.toUInt8] then none else some name

/-- Whether a pattern matches a path; `**` alone matches every path. -/
def isMatch (g : Glob) (path : String) : Bool :=
  let bytes := path.toUTF8.toList
  match g with
  | [.leading] => true
  | _ => ((lastName? bytes).isSome || !g.isByName) && covers g bytes

/-! ### Nesting -/

/-- How many levels a part adds below its own: repetitions, sets, groups and sequences count one
each. -/
def flatDepth : GlobToken → Nat
  | .any | .trailing => 1
  | .star => 2
  | .leading | .spanning => 4
  | .oneOf _ ranges => if (ranges.flatMap byteRanges).length ≤ 1 then 1 else 2
  | .literal _ | .choice _ => 0

/-- How many items a part is spelled with. -/
def itemCount (t : GlobToken) : Nat :=
  match t with
  | .literal c => (bytesOf c).length
  | .trailing => 2
  | _ => if isVoidToken t then 0 else 1

/-- The levels of a sequence: one of its own if it has several items. -/
def sequenceDepth (items depth : Nat) : Nat := if items ≤ 1 then depth else depth + 1

mutual

/-- How deep a part nests. A choice is a group, and one level more if it has several branches. -/
def tokenDepth : GlobToken → Nat
  | .choice branches =>
    if areVoid branches then 0
    else 1 + (if 1 < branches.countP (!isVoid ·) then 1 else 0) + deepestBranch branches
  | t => flatDepth t

/-- How deep the deepest of some parts nests. -/
def deepest : List GlobToken → Nat
  | [] => 0
  | t :: ts => max (tokenDepth t) (deepest ts)

/-- How deep the deepest of some branches nests. -/
def deepestBranch : List (List GlobToken) → Nat
  | [] => 0
  | b :: bs => max (sequenceDepth ((b.map itemCount).foldl (· + ·) 0) (deepest b)) (deepestBranch bs)

end

/-- How deep a whole pattern nests; it is a sequence between its two ends. -/
def depth (g : Glob) : Nat := 1 + deepest g

/-- Patterns that nest deeper are refused. -/
def depthLimit : Nat := 250

end Glob

end GrammarIndex.Ignore

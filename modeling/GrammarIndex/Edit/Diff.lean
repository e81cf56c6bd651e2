import GrammarIndex.Edit

/-!
Differences between two texts.

What the texts share at both ends is set aside. For the middles a greedy search grows, round by
round, the furthest points that `d` single-character changes reach on each diagonal, and walks the
rounds back once the end is reached. Diagonal `k` holds the points `(x, y)` with `x - y = k`. Middles
that are further apart than the search goes are replaced as a whole.

Reading outside a frontier, a window or a text is the failure `none`, never a made-up value.
-/
namespace GrammarIndex.Diff

/-- The largest number of changes that is searched for. -/
def maxDistance : Nat := 1000

/-- A run of characters that are kept, deleted or inserted. -/
structure Chunk where
  kind : EditKind
  chars : List Char
  deriving DecidableEq, Repr

/-- One character with what happens to it. -/
abbrev Step := EditKind × Char

/-- Read at a signed position. -/
def read {α : Type} (xs : Array α) (i : Int) : Option α :=
  if i < 0 then none else xs[i.toNat]?

/-- The furthest `x` on each diagonal; the diagonal 0 is in cell `width`. -/
structure Frontier where
  width : Nat
  cells : Array Nat
  deriving Repr

namespace Frontier

def start (limit : Nat) : Frontier := ⟨limit + 2, Array.replicate (2 * (limit + 2) + 1) 0⟩

def get? (v : Frontier) (k : Int) : Option Nat := read v.cells (v.width + k)

def set? (v : Frontier) (k : Int) (x : Nat) : Option Frontier :=
  let i := (v.width : Int) + k
  if i < 0 then none
  else if h : i.toNat < v.cells.size then some { v with cells := v.cells.set i.toNat x h }
  else none

/-- The cells of the diagonals from `-(d + 1)` to `d + 1`. -/
def window? (v : Frontier) (d : Nat) : Option (Array Nat) :=
  if d + 1 ≤ v.width ∧ v.width + d + 1 < v.cells.size then
    some (v.cells.extract (v.width - (d + 1)) (v.width + d + 2))
  else none

end Frontier

/-- Follow a diagonal as long as both texts agree. -/
def slide (a b : Array Char) (x y : Nat) : Nat × Nat :=
  if h : x < a.size ∧ y < b.size then
    if a[x] = b[y] then slide a b (x + 1) (y + 1) else (x, y)
  else (x, y)
termination_by a.size - x

/-- Whether the best way to diagonal `k` in round `d` comes from the diagonal above, by an
insertion. `at` reads the furthest points of the round before. -/
def comesFromAbove (d : Nat) (k : Int) (look : Int → Option Nat) : Option Bool :=
  if k = -d then some true
  else if k = d then some false
  else do return (← look (k - 1)) < (← look (k + 1))

/-- The point on diagonal `k` in round `d` before it slides. -/
def advance (d : Nat) (k : Int) (v : Frontier) : Option Nat := do
  if ← comesFromAbove d k v.get? then v.get? (k + 1) else return (← v.get? (k - 1)) + 1

/-- Grow `left` diagonals of round `d`, from `k` on. The inner `none` says that the end is reached. -/
def sweep (a b : Array Char) (d : Nat) : (left : Nat) → Int → Frontier → Option (Option Frontier)
  | 0, _, v => some (some v)
  | left + 1, k, v => do
    let x ← advance d k v
    let y := (x : Int) - k
    if y < 0 then none
    else
      let (x, y) := slide a b x y.toNat
      let v ← v.set? k x
      if a.size ≤ x ∧ b.size ≤ y then some none else sweep a b d left (k + 2) v

/-- The characters of `a` before `x`, `count` of them, in front of the steps that follow. -/
def keep (a : Array Char) (x : Int) : (count : Nat) → List Step → Option (List Step)
  | 0, steps => some steps
  | count + 1, steps => do keep a (x - 1) count ((.equal, ← read a (x - 1)) :: steps)

/-- Walk the rounds back from `(x, y)`; the windows come latest first, and behind each stand as many
as its round has changes. -/
def backtrack (a b : Array Char) : List (Array Nat) → Int → Int → List Step → Option (List Step)
  | [], _, _, steps => some steps
  | window :: earlier, x, y, steps => do
    let d := earlier.length
    let look (k : Int) : Option Nat := read window (k + d + 1)
    let k := x - y
    let k' := if ← comesFromAbove d k look then k + 1 else k - 1
    let x' : Int := ← look k'
    let y' := x' - k'
    let count := (min (x - x') (y - y')).toNat
    let steps ← keep a x count steps
    let steps ←
      if d = 0 then some steps
      else if x - count = x' then do some ((.insert, ← read b y') :: steps)
      else do some ((.delete, ← read a x') :: steps)
    backtrack a b earlier x' y' steps

/-- Search `left` more rounds from round `d` on. The inner `none` says that the texts are further
apart than that. -/
def search (a b : Array Char) : (left d : Nat) → Frontier → List (Array Nat) →
    Option (Option (List Step))
  | 0, _, _, _ => some none
  | left + 1, d, v, trace => do
    let trace := (← v.window? d) :: trace
    match ← sweep a b d (d + 1) (-d) v with
    | none => do return some (← backtrack a b trace a.size b.size [])
    | some v => search a b left (d + 1) v trace

/-- A shortest list of steps from `a` to `b`, if it has at most `maxDistance` changes. The outer
`none` is a read outside the data. -/
def shortestEdit? (a b : Array Char) : Option (Option (List Step)) :=
  let limit := min (a.size + b.size) maxDistance
  search a b (limit + 1) 0 (.start limit) []

/-- The number of characters that two texts share at their front. -/
def commonLength : List Char → List Char → Nat
  | a :: as, b :: bs => if a = b then commonLength as bs + 1 else 0
  | _, _ => 0

/-- Put a run in front; an empty run vanishes and a run of the same kind is joined. -/
def prepend (kind : EditKind) (chars : List Char) (chunks : List Chunk) : List Chunk :=
  match chars, chunks with
  | [], _ => chunks
  | _, [] => [⟨kind, chars⟩]
  | _, next :: rest =>
    if next.kind = kind then ⟨kind, chars ++ next.chars⟩ :: rest else ⟨kind, chars⟩ :: next :: rest

/-- The runs of the middles. -/
def middle (a b : List Char) (chunks : List Chunk) : List Chunk :=
  match shortestEdit? a.toArray b.toArray with
  | some (some steps) => steps.foldr (fun s rest => prepend s.1 [s.2] rest) chunks
  | _ => prepend .delete a (prepend .insert b chunks)

/-- The runs that turn `a` into `b`. -/
def chunks (a b : List Char) : List Chunk :=
  let front := commonLength a b
  let restA := a.drop front
  let restB := b.drop front
  let back := commonLength restA.reverse restB.reverse
  let tail := restA.drop (restA.length - back)
  prepend .equal (a.take front)
    (middle (restA.take (restA.length - back)) (restB.take (restB.length - back))
      (prepend .equal tail []))

end GrammarIndex.Diff

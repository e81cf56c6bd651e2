import GrammarIndex.Table
import GrammarIndex.Text.Split

/-!
File paths.

A path keeps the spelling it was given and is compared by its components: repeated separators,
a trailing separator and a `.` that does not lead are spelling only, while `..` and a leading `.`
are components. Sorting goes component by component.
-/
namespace GrammarIndex

/-- One step of a path. -/
inductive Component where
  | root
  | here
  | up
  | name (text : String)
  deriving DecidableEq, Repr

namespace Component

def rank : Component → Nat
  | root => 0
  | here => 1
  | up => 2
  | name _ => 3

def label : Component → String
  | name text => text
  | _ => ""

instance : Ord Component := ⟨compareLex (compareOn rank) (compareOn label)⟩

instance : Std.TransOrd Component :=
  inferInstanceAs (Std.TransCmp (compareLex (compareOn rank) (compareOn label)))

instance : Std.LawfulEqOrd Component where
  eq_of_compare {a b} same := by
    have split : compareLex (compareOn rank) (compareOn label) a b = .eq := same
    simp only [compareLex, compareOn, Ordering.then_eq_eq, Std.LawfulEqCmp.compare_eq_iff_eq] at split
    cases a <;> cases b <;> simp_all [rank, label]

end Component

/-! ### Spelling -/

namespace Spelling

/-- Segments that say nothing. -/
def isTrivial (segment : List Char) : Bool := segment == [] || segment == ['.']

def isRooted (text : String) : Bool := text.toList.head? == some '/'

/-- A leading `.` in a path that does not start at the root. -/
def startsHere (text : String) : Bool :=
  !isRooted text && (Text.split '/' text.toList).head? == some ['.']

/-- The segments behind the root or the leading `.`. -/
def body (text : String) : List (List Char) :=
  let segments := Text.split '/' text.toList
  if isRooted text || startsHere text then segments.drop 1 else segments

def stepOf (segment : List Char) : Component :=
  if segment = ['.', '.'] then .up else .name (String.ofList segment)

/-- The steps that a text spells. -/
def components (text : String) : List Component :=
  let start := if isRooted text then [.root] else if startsHere text then [.here] else []
  start ++ ((body text).filter fun s => !isTrivial s).map stepOf

end Spelling

/-- A path as it was spelled, with the components by which it is compared. -/
structure Path where
  text : String
  components : List Component
  spelled : components = Spelling.components text
  deriving DecidableEq

namespace Path

/-- The path that a text spells. -/
def of (text : String) : Path := ⟨text, Spelling.components text, rfl⟩

instance : Inhabited Path := ⟨of ""⟩

instance : Repr Path := ⟨fun p n => reprPrec p.text n⟩

@[ext] theorem ext {p q : Path} (same : p.text = q.text) : p = q := by
  obtain ⟨text, components, spelled⟩ := p
  obtain ⟨text', components', spelled'⟩ := q
  subst same spelled spelled'
  rfl

@[simp] theorem of_text (p : Path) : of p.text = p := ext rfl

def isRooted (p : Path) : Bool := Spelling.isRooted p.text

def startsHere (p : Path) : Bool := Spelling.startsHere p.text

def body (p : Path) : List (List Char) := Spelling.body p.text

instance : Ord Path := ⟨compareOn components⟩

instance : Std.TransOrd Path := inferInstanceAs (Std.TransCmp (compareOn components))

/-- Two spellings of one path. -/
def same (p q : Path) : Bool := compare p q == .eq

theorem compare_eq_iff (p q : Path) : compare p q = .eq ↔ p.components = q.components := by
  show compareOn components p q = .eq ↔ _
  simp [compareOn]

theorem same_iff (p q : Path) : p.same q = true ↔ p.components = q.components := by
  simp [same, ← compare_eq_iff]

/-- The body up to its last step, spelled without a trailing separator or `.`. -/
def bodyText (p : Path) (segments : List (List Char)) : List Char :=
  let rest := Text.join '/' segments
  if p.isRooted then '/' :: rest
  else if p.startsHere then (if segments.isEmpty then ['.'] else '.' :: '/' :: rest)
  else rest

/-- The path without its last component; the root and the empty path have no parent. -/
def parent? (p : Path) : Option Path :=
  match Text.dropTrailing Spelling.isTrivial p.body with
  | [] => if p.startsHere then some (of "") else none
  | kept => some (of (String.ofList (p.bodyText (Text.dropTrailing Spelling.isTrivial kept.dropLast))))

/-- The directory whose files see each other: the parent, or the path itself if it has none. -/
def directory (p : Path) : Path := p.parent?.getD p

/-- The last component, if it is a name. -/
def fileName? (p : Path) : Option (List Char) :=
  match (Text.dropTrailing Spelling.isTrivial p.body).getLast? with
  | none => none
  | some last => if last = ['.', '.'] then none else some last

/-- What follows the last dot of the file name; a dot in front does not count. -/
def extension? (p : Path) : Option String := do
  let name ← p.fileName?
  let tail := (name.reverse.takeWhile (· != '.')).reverse
  let stem := name.length - tail.length
  if stem ≤ 1 then none else some (String.ofList tail)

/-- A name below a directory. -/
def child (p : Path) (name : String) : Path :=
  if p.text.isEmpty then of name
  else if p.text.toList.getLast? == some '/' then of (p.text ++ name)
  else of (p.text ++ "/" ++ name)

end Path

/-- Files keyed by path. -/
abbrev PathTable (α : Type) := Table Path α

/-- Sets of paths, in path order. -/
abbrev PathSet := OrderedSet Path

end GrammarIndex

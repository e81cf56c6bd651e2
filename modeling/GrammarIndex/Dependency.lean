import GrammarIndex.Path

/-!
Which files' references resolve into which files.

An edge belongs to the file that refers: it goes when that file is cleared and stays when the file
it points to changes. Both directions are kept, and neither keeps an empty set.
-/
namespace GrammarIndex

structure DependencyGraph where
  dependencies : PathTable PathSet
  dependents : PathTable PathSet

namespace DependencyGraph

def empty : DependencyGraph := ⟨∅, ∅⟩

instance : Inhabited DependencyGraph := ⟨empty⟩

/-- Add a member to the set under a key. -/
def link (t : PathTable PathSet) (k member : Path) : PathTable PathSet :=
  t.insert k (OrderedSet.add ((t.get? k).getD ∅) member)

/-- Take a member out of the set under a key; an empty set goes. -/
def unlink (t : PathTable PathSet) (k member : Path) : PathTable PathSet :=
  match t.get? k with
  | none => t
  | some s =>
    let rest := s.erase member
    if rest.isEmpty then t.erase k else t.insert k rest

/-- Note that `file` refers into `on`; a file does not depend on itself. -/
def record (g : DependencyGraph) (file on : Path) : DependencyGraph :=
  if file.same on then g
  else ⟨link g.dependencies file on, link g.dependents on file⟩

/-- Drop the edges that belong to a file. -/
def clear (g : DependencyGraph) (file : Path) : DependencyGraph :=
  match g.dependencies.get? file with
  | none => g
  | some targets =>
    ⟨g.dependencies.erase file,
      targets.toList.foldl (fun t target => unlink t target file) g.dependents⟩

/-- The files that refer directly into a file. -/
def dependentsOf (g : DependencyGraph) (file : Path) : PathSet := (g.dependents.get? file).getD ∅

/-- The files that a file refers directly into. -/
def dependenciesOf (g : DependencyGraph) (file : Path) : PathSet :=
  (g.dependencies.get? file).getD ∅

/-- The dependents of a list of files. -/
def dependentsOfAll (g : DependencyGraph) (files : List Path) : List Path :=
  files.flatMap fun f => (g.dependentsOf f).toList

/-- Take a file off the list, add its dependents that are new, and go on with them, the last one
first, at most `steps` times; `file` itself is not added. -/
def affectedFrom (g : DependencyGraph) (file : Path) :
    (steps : Nat) → (waiting : List Path) → (found : PathSet) → PathSet
  | 0, _, found => found
  | _, [], found => found
  | steps + 1, current :: waiting, found =>
    let fresh := (g.dependentsOf current).toList.filter fun p =>
      !p.same file && !found.contains p
    g.affectedFrom file steps (fresh.reverse ++ waiting) (OrderedSet.addAll found fresh)

/-- The number of files below all keys. -/
def linkCount (t : PathTable PathSet) : Nat := t.values.foldr (fun files n => files.size + n) 0

/-- The files that depend on a file, directly or through others, without the file itself. Every
file but the first comes onto the list by an edge of its own, which bounds the steps. -/
def affected (g : DependencyGraph) (file : Path) : PathSet :=
  g.affectedFrom file (linkCount g.dependents + 1) [file] ∅

/-- The number of files on some edge. -/
def fileCount (g : DependencyGraph) : Nat :=
  (OrderedSet.addAll (OrderedSet.ofList g.dependencies.keys) g.dependents.keys).size

def edgeCount (g : DependencyGraph) : Nat := linkCount g.dependencies

/-- Counts in words. -/
def summary (g : DependencyGraph) : String :=
  toString g.edgeCount ++ " cross-file edges between " ++ toString g.fileCount ++ " files"

end DependencyGraph

end GrammarIndex

import GrammarIndex.SyntaxTree

/-!
Derivations: syntax trees before their nodes are numbered.

Numbering a derivation visits it in preorder, so a node's number is the count of nodes that come
before it.
-/
namespace GrammarIndex

/-- A node with its children. -/
inductive Derivation where
  | node (kind : NodeKind) (span : Span) (children : List Derivation)
  deriving Repr, Inhabited

namespace Derivation

def kind : Derivation → NodeKind
  | node kind .. => kind

def span : Derivation → Span
  | node _ span _ => span

def children : Derivation → List Derivation
  | node _ _ children => children

mutual

/-- The number of nodes. -/
def size : Derivation → Nat
  | node _ _ children => sizeAll children + 1

def sizeAll : List Derivation → Nat
  | [] => 0
  | d :: rest => d.size + sizeAll rest

end

mutual

/-- The nodes of a derivation in preorder, numbered from `id`. -/
def flatten (parent : Option Nat) (id : Nat) : Derivation → List Node
  | node kind span children =>
    let (numbers, below) := flattenAll (some id) (id + 1) children
    ⟨kind, span, parent, numbers⟩ :: below

/-- The numbers of neighbouring nodes, the first of which has number `id`, and all their nodes. -/
def flattenAll (parent : Option Nat) (id : Nat) : List Derivation → List Nat × List Node
  | [] => ([], [])
  | d :: rest =>
    let nodes := d.flatten parent id
    let (numbers, below) := flattenAll parent (id + nodes.length) rest
    (id :: numbers, nodes ++ below)

end

/-- The numbered tree of a derivation. -/
def toTree (d : Derivation) : SyntaxTree := ⟨(d.flatten none 0).toArray⟩

mutual

theorem length_flatten (d : Derivation) (parent : Option Nat) (id : Nat) :
    (d.flatten parent id).length = d.size := by
  cases d with
  | node kind span children => simp [flatten, size, length_flattenAll children]

theorem length_flattenAll (ds : List Derivation) (parent : Option Nat) (id : Nat) :
    (flattenAll parent id ds).2.length = sizeAll ds := by
  cases ds with
  | nil => rfl
  | cons d rest => simp [flattenAll, sizeAll, length_flatten d, length_flattenAll rest]

end

@[simp] theorem size_toTree (d : Derivation) : d.toTree.size = d.size := by
  simp [toTree, SyntaxTree.size, length_flatten]

end Derivation

end GrammarIndex

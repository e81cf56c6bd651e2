import GrammarIndex.Dependency
import GrammarIndex.Dialect
import GrammarIndex.Scope

/-!
Binding one file: its definitions go into the scope of its directory, its references are resolved
from there, and the files it refers into become its dependencies.
-/
namespace GrammarIndex

/-- What binding found out about a file, by node. `defs` holds the definitions that got a symbol,
`tags` everything highlighted; `dropped` are the names whose definition here came too late. -/
structure BindingRecord where
  defs : Table Nat Classification := ∅
  refs : Table Nat Classification := ∅
  tags : Table Nat Classification := ∅
  errors : OrderedSet Nat := ∅
  symbols : Table Nat Nat := ∅
  resolved : Table Nat Nat := ∅
  unresolved : OrderedSet String := ∅
  dropped : OrderedSet String := ∅
  comments : List (Span × Classification) := []
  deriving Inhabited

namespace BindingRecord

/-- The symbol that a definition or a reference stands for. -/
def symbolAt? (r : BindingRecord) (node : Nat) : Option Nat :=
  (r.symbols.get? node).or (r.resolved.get? node)

/-- The class of a definition or a reference. -/
def classAt? (r : BindingRecord) (node : Nat) : Option Classification :=
  (r.defs.get? node).or (r.refs.get? node)

/-- Definitions, then references, each in node order. -/
def occurrences (r : BindingRecord) : List Nat := r.defs.keys ++ r.refs.keys

end BindingRecord

namespace Binding

/-- Bind the built-in names of a dialect, except those already bound. -/
def defineBuiltins (st : ScopeStore) (d : Dialect) : ScopeStore :=
  d.builtins.foldl (fun st b =>
    (st.define { name := b.1, classification := b.2, scope := ScopeStore.globalScope }).1) st

/-- Attach a file to the scope of its directory and purge what it defined there before. -/
def initScope (st : ScopeStore) (p : Path) : ScopeStore × Nat × List String :=
  let (st, scope) := st.scopeFor p.directory
  let (st, freed) := st.removeFile scope p
  (st, scope, freed)

/-- Whether a symbol announces a definition that has not come yet. -/
def isOpenDeclaration (st : ScopeStore) (id : Nat) : Bool :=
  match st.symbol? id with
  | some s => s.forward && s.target.isNone
  | none => false

/-- Record that a node defines a symbol. -/
def noteDefinition (r : BindingRecord) (node id : Nat) (c : Classification) : BindingRecord :=
  { r with defs := r.defs.insert node c, symbols := r.symbols.insert node id }

/-- Bind one definition. A name that is only announced so far gets its definition as the target of
the announcement; any other name that is bound already keeps its first definition. -/
def bindDefinition (st : ScopeStore) (r : BindingRecord) (s : Symbol) (node : Nat) :
    ScopeStore × BindingRecord :=
  let r := { r with tags := r.tags.insert node s.classification }
  match st.define s with
  | (st, .bound id) => (st, noteDefinition r node id s.classification)
  | (st, .duplicate existing) =>
    let late := { r with dropped := OrderedSet.add r.dropped s.name }
    if isOpenDeclaration st existing && !s.forward then
      let (st, id) := st.allocate s
      (st.forward existing id, noteDefinition late node id s.classification)
    else (st, late)

/-- Bind or highlight one terminal. -/
def bindTerminal (d : Dialect) (tree : SyntaxTree) (p : Path) (scope : Nat)
    (acc : ScopeStore × BindingRecord) (node : Nat) : ScopeStore × BindingRecord :=
  let (st, r) := acc
  match d.definition? tree r.defs node with
  | some c =>
    let site : Site := ⟨p, node, tree.spanOf node⟩
    bindDefinition st r
      { name := tree.textOf node, classification := c, scope, site := some site,
        forward := d.isForward tree node } node
  | none =>
    match d.tag tree node with
    | some tag => (st, { r with tags := r.tags.insert node tag })
    | none => (st, r)

/-- Bind all definitions of a file. -/
def bindDefinitions (st : ScopeStore) (d : Dialect) (parsed : Parsed) (p : Path) (scope : Nat)
    (r : BindingRecord) : ScopeStore × BindingRecord :=
  let (st, r) := parsed.tree.terminals.foldl (bindTerminal d parsed.tree p scope) (st, r)
  (st, { r with comments := Dialect.commentSpans parsed })

/-- Note that a file refers to a symbol's file, if the symbol has one. -/
def dependOn (st : ScopeStore) (p : Path) (g : DependencyGraph) (id : Nat) : DependencyGraph :=
  match (st.symbol? id).bind Symbol.file? with
  | some file => g.record p file
  | none => g

/-- Resolve one terminal, if it is a reference. -/
def bindReference (st : ScopeStore) (d : Dialect) (tree : SyntaxTree) (p : Path) (scope : Nat)
    (acc : BindingRecord × DependencyGraph) (node : Nat) : BindingRecord × DependencyGraph :=
  let (r, g) := acc
  if r.defs.contains node then (r, g)
  else
    match d.reference? tree r.defs node with
    | none => (r, g)
    | some c =>
      let r := { r with refs := r.refs.insert node c, tags := r.tags.insert node c }
      let name := tree.textOf node
      match st.resolve? scope name with
      | none => ({ r with unresolved := OrderedSet.add r.unresolved name }, g)
      | some direct =>
        let target := st.follow direct
        ({ r with resolved := r.resolved.insert node target },
          dependOn st p (dependOn st p g direct) target)

/-- Resolve all references of a file; its dependencies are found anew. -/
def bindReferences (st : ScopeStore) (d : Dialect) (parsed : Parsed) (p : Path) (scope : Nat)
    (r : BindingRecord) (g : DependencyGraph) : BindingRecord × DependencyGraph :=
  let r := { r with refs := ∅, resolved := ∅, unresolved := ∅ }
  parsed.tree.terminals.foldl (bindReference st d parsed.tree p scope) (r, g.clear p)

/-- Keep the error leaves of a file. -/
def collectErrors (parsed : Parsed) (r : BindingRecord) : BindingRecord :=
  { r with errors := OrderedSet.ofList parsed.errors }

end Binding

end GrammarIndex

import GrammarIndex.Binding

/-!
Binding files of one dialect together.

Every file gets its scope before any definition is bound, and all definitions are bound before any
reference is resolved, so a file sees the definitions of those that come after it.
-/
namespace GrammarIndex.Binding

/-- A file with what binding found out about it. -/
structure BatchFile where
  path : Path
  parsed : Parsed
  scope : Nat := 0
  freed : List String := []
  record : BindingRecord := {}

/-- Files with the symbols and dependencies that they share. -/
structure Batch where
  dialect : Dialect
  store : ScopeStore
  graph : DependencyGraph
  files : Array BatchFile

namespace Batch

/-- Files not bound yet, with the built-in symbols defined. -/
def new (dialect : Dialect) (files : List BatchFile) : Batch :=
  ⟨dialect, defineBuiltins .empty dialect, .empty, files.toArray⟩

/-- Change one file together with what is shared. -/
def update (b : Batch) (i : Nat) (f : ScopeStore → DependencyGraph → BatchFile →
    ScopeStore × DependencyGraph × BatchFile) : Batch :=
  match b.files[i]? with
  | none => b
  | some file =>
    let (store, graph, file) := f b.store b.graph file
    { b with store, graph, files := b.files.setIfInBounds i file }

/-- Give a file its scope, cleared of what the file defined before. -/
def prepare (b : Batch) (i : Nat) : Batch := b.update i fun st g f =>
  let (st, scope, freed) := initScope st f.path
  (st, g, { f with scope, freed, record := {} })

def define (b : Batch) (i : Nat) : Batch := b.update i fun st g f =>
  let (st, record) := bindDefinitions st b.dialect f.parsed f.path f.scope f.record
  (st, g, { f with record })

def resolve (b : Batch) (i : Nat) : Batch := b.update i fun st g f =>
  let (record, g) := bindReferences st b.dialect f.parsed f.path f.scope f.record g
  (st, g, { f with record := collectErrors f.parsed record })

/-- Bind all files. -/
def bindAll (b : Batch) : Batch :=
  let all := List.range b.files.size
  all.foldl resolve (all.foldl define (all.foldl prepare b))

/-- Bind one file anew. -/
def rebind (b : Batch) (i : Nat) : Batch := ((b.prepare i).define i).resolve i

end Batch

end GrammarIndex.Binding

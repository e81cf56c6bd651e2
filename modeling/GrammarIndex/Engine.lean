import GrammarIndex.Binding
import GrammarIndex.Config
import GrammarIndex.Echo
import GrammarIndex.Workspace

/-!
The engine: documents, and the index built from them.

Opening, changing and closing documents only marks what has to be bound again; `compile` brings the
index up to date.
-/
namespace GrammarIndex

/-- What the index keeps for one file. -/
structure FileState where
  dialect : Dialect
  parsed : Parsed
  scope : Nat
  record : BindingRecord

/-- Scopes, files and dependencies of the whole workspace. -/
structure Index where
  scopes : ScopeStore
  files : PathTable FileState
  graph : DependencyGraph

namespace Index

/-- No files, and the built-in names of every dialect. -/
def ofRegistry (registry : Registry) : Index :=
  ⟨registry.foldl Binding.defineBuiltins .empty, ∅, .empty⟩

def file? (x : Index) (p : Path) : Option FileState := x.files.get? p

/-- Whether one of the names is among those a file defined too late. -/
def droppedAny (state : FileState) (names : List String) : Bool :=
  names.any state.record.dropped.contains

/-- Drop a file; the files that may have depended on it come with the rest. -/
def forget (x : Index) (p : Path) : Index × PathSet :=
  match x.files.get? p with
  | none => (x, ∅)
  | some state =>
    let files := x.files.erase p
    let (scopes, freed) := x.scopes.removeFile state.scope p
    let graph := x.graph.clear p
    let takers := files.entries.filter fun e => e.2.scope == state.scope && droppedAny e.2 freed
    let affected := OrderedSet.addAll (graph.dependentsOf p) (takers.map (·.1))
    (⟨scopes, files, graph⟩, affected.erase p)

end Index

structure Engine where
  workspace : Workspace
  registry : Registry
  index : Index
  echoes : EchoTable
  config : Config

/-- Why the engine stopped: an error, or a breakdown of a dialect or of a refactoring. -/
inductive Halt where
  | error (e : Error)
  | crash (message : String)
  deriving DecidableEq, Repr

namespace Engine

/-- No documents yet. -/
def new (registry : Registry) (config : Config) : Engine :=
  ⟨.empty, registry, .ofRegistry registry, ∅, config⟩

def document? (e : Engine) (p : Path) : Option Document := e.workspace.find? p

def documents (e : Engine) : List Document := e.workspace.documents

/-- Indexed files whose document is gone. -/
def vanished (e : Engine) : List Path :=
  e.index.files.keys.filter fun p => (e.document? p).isNone

/-- Whether the index is out of date. -/
def needsCompile (e : Engine) : Bool :=
  e.documents.any (·.dirty) || !e.vanished.isEmpty

/-- Add a document or replace its text. -/
def openDocument (e : Engine) (p : Path) (text : String) : Engine :=
  { e with echoes := e.echoes.disarm p, workspace := e.workspace.write p text }

/-- Take a change from outside; the echo of an own edit leaves the document alone. -/
def notifyChange (e : Engine) (p : Path) (text : String) : Engine × Notification :=
  let (echoes, outcome) := e.echoes.notify p text
  let workspace := if outcome.needsRebind then e.workspace.write p text else e.workspace
  ({ e with echoes, workspace }, outcome)

def markDirty (w : Workspace) (paths : List Path) : Workspace :=
  paths.foldl (fun w p => w.modify p fun d => { d with dirty := true }) w

/-- Drop a document; what depended on it has to be bound again. -/
def closeDocument (e : Engine) (p : Path) : Engine × Option Document :=
  let removed := e.document? p
  let (index, affected) := e.index.forget p
  let workspace := markDirty (e.workspace.remove p) affected.toList
  ({ e with echoes := e.echoes.disarm p, workspace, index }, removed)

/-- Forget the index; every document has to be bound again. -/
def reset (e : Engine) : Engine :=
  { e with
    index := .ofRegistry e.registry,
    workspace := markDirty e.workspace (e.documents.map (·.path)) }

end Engine

end GrammarIndex

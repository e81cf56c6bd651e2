import GrammarIndex.Path
import GrammarIndex.Sort

/-!
Documents, grouped into projects.

A path is held by at most one project, and a project without documents is gone.
-/
namespace GrammarIndex

/-- A file's text; `dirty` says that it changed since it was last bound. -/
structure Document where
  path : Path
  text : String
  dirty : Bool := true
  deriving DecidableEq, Repr, Inhabited

/-- Replace the text; the document has to be bound again. -/
def Document.setText (d : Document) (text : String) : Document := { d with text, dirty := true }

structure Workspace where
  projects : Table String (PathTable Document)
  deriving Inhabited

namespace Workspace

/-- The project of documents for which nobody names one. -/
def defaultProject : String := "Misc"

def empty : Workspace := ⟨∅⟩

def projectNames (w : Workspace) : List String := w.projects.keys

/-- The document with a path. -/
def find? (w : Workspace) (p : Path) : Option Document :=
  w.projects.values.findSome? fun docs => docs.get? p

/-- The project that holds a path. -/
def projectOf? (w : Workspace) (p : Path) : Option String :=
  (w.projects.entries.find? fun e => e.2.contains p).map (·.1)

/-- Change the documents of the project where a path is met first; the projects behind it are not
looked at. -/
def inFirst (w : Workspace) (p : Path) (f : PathTable Document → PathTable Document) : Workspace :=
  match w.projectOf? p with
  | some name => ⟨w.projects.modify name f⟩
  | none => w

/-- Drop a document, and its project if it was the last. -/
def remove (w : Workspace) (p : Path) : Workspace :=
  ⟨(w.inFirst p (·.erase p)).projects.filter fun _ docs => !docs.isEmpty⟩

/-- Put a document into a project; a document with the same path goes. -/
def add (w : Workspace) (project : String) (d : Document) : Workspace :=
  let rest := w.remove d.path
  let docs := (rest.projects.get? project).getD ∅
  ⟨rest.projects.insert project (docs.insert d.path d)⟩

/-- Change the document with a path, if there is one. -/
def modify (w : Workspace) (p : Path) (f : Document → Document) : Workspace :=
  w.inFirst p (·.modify p f)

/-- All documents in path order. -/
def documents (w : Workspace) : List Document :=
  sortOn Document.path (w.projects.values.flatMap Table.values)

def size (w : Workspace) : Nat := w.projects.values.foldr (fun docs n => docs.size + n) 0

def isEmpty (w : Workspace) : Bool := w.size == 0

/-- Replace the text of a document or add it to the default project. -/
def write (w : Workspace) (p : Path) (text : String) : Workspace :=
  match w.find? p with
  | some _ => w.modify p (·.setText text)
  | none => w.add defaultProject { path := p, text }

end Workspace

end GrammarIndex

import GrammarIndex.Engine.Query
import GrammarIndex.Ignore.Walk
import GrammarIndex.Refactoring.SortRules

/-!
Sessions: the engine as an editor uses it.

Questions first bring the index up to date. If a dialect breaks down on the way, the index is thrown
away, so that the next request builds it from scratch.
-/
namespace GrammarIndex.Session

/-- Run a step; a breakdown throws the index away. -/
def guarded {α : Type} (step : Engine → Engine × Except Halt α) (e : Engine) :
    Engine × Except Error α :=
  match step e with
  | (e, .ok a) => (e, .ok a)
  | (e, .error (.error err)) => (e, .error err)
  | (e, .error (.crash message)) => (e.reset, .error (.internal message))

def compile (e : Engine) : Engine × Except Error (List Path) := guarded Engine.compile e

/-- Bring the index up to date if it is not. -/
def ensureCompiled (e : Engine) : Engine × Except Error Unit :=
  if e.needsCompile then
    let (e, result) := compile e
    (e, result.map fun _ => ())
  else (e, .ok ())

/-- Ask a question, with the index up to date. -/
def ask {α : Type} (question : Engine → Except Error α) (e : Engine) : Engine × Except Error α :=
  match ensureCompiled e with
  | (e, .error err) => (e, .error err)
  | (e, .ok _) => (e, question e)

/-- Store new texts. -/
def applyProposal (proposal : Engine.Proposal) (e : Engine) :
    Engine × Except Error (PathTable (List Edit)) :=
  guarded (·.applyProposal proposal) e

/-- Run a refactoring and store what it proposes. A refactoring that breaks down has failed. -/
def refactor (r : Refactoring) (p : Path) (offset : Nat) (e : Engine) :
    Engine × Except Error (PathTable (List Edit)) :=
  match ensureCompiled e with
  | (e, .error err) => (e, .error err)
  | (e, .ok _) =>
    match r.propose e p offset with
    | .error (.error err) => (e, .error err)
    | .error (.crash message) => (e, .error (.refactoring message))
    | .ok proposal => applyProposal proposal e

/-! ### Files -/

/-- Take over what a file holds now; what is stored already is skipped, unless its echo is
expected. -/
def changeFile (d : Disk) (cwd : Place) (p : Path) (e : Engine) :
    Engine × Except Error (Option Notification) :=
  match d.readText cwd p with
  | .error fault => (e, .error (.file fault))
  | .ok text =>
    let unchanged := (e.document? p).map (·.text) == some text
    if unchanged && e.echoes.state p == .clean then (e, .ok none)
    else
      let (e, outcome) := e.notifyChange p text
      (e, .ok (some outcome))

/-- Open files in order, up to the first that cannot be read. -/
def openFiles (d : Disk) (cwd : Place) (e : Engine) : List Path → Engine × Except Error Unit
  | [] => (e, .ok ())
  | p :: rest =>
    match d.readText cwd p with
    | .error fault => (e, .error (.file fault))
    | .ok text => openFiles d cwd (e.openDocument p text) rest

/-- The grammar files that a directory load opens. -/
def grammarFiles (d : Disk) (cwd : Place) (root : Path) (e : Engine) : List Path :=
  let rules := Ignore.rulesFor d cwd root e.config.exclude
  (Ignore.walk d cwd root).filter fun p =>
    rules.judgeWithParents p false != .ignored && (e.registry.find? p).isSome

/-- Open every grammar file below a directory and bind them. -/
def loadDirectory (d : Disk) (cwd : Place) (root : Path) (e : Engine) :
    Engine × Except Error (List Path) :=
  match openFiles d cwd e (grammarFiles d cwd root e) with
  | (e, .error err) => (e, .error err)
  | (e, .ok _) => compile e

/-- What happened to a file. -/
inductive FileChange where
  | changed
  | removed
  deriving DecidableEq, Repr

/-- The changes between two looks at the files, as far as they concern grammars below `root`. -/
def changesBetween (before after : Disk) (cwd : Place) (root : Path) (e : Engine) :
    PathTable FileChange :=
  let rules := Ignore.rulesFor before cwd root e.config.exclude
  let concerns (p : Path) : Bool :=
    root.components.isPrefixOf p.components && rules.judgeWithParents p false != .ignored &&
      (e.registry.find? p).isSome
  let changed := (Disk.changedFiles before after).map fun c => (Disk.pathOf c.1, FileChange.changed)
  let gone := (Disk.goneFiles before after).map fun place => (Disk.pathOf place, FileChange.removed)
  (changed ++ gone).foldl (fun t c => if concerns c.1 then t.insert c.1 c.2 else t) ∅

/-- Take over changes to files and bind; files that cannot be read are passed over, and if binding
fails nothing was bound. -/
def applyChanges (d : Disk) (cwd : Place) (changes : PathTable FileChange) (e : Engine) :
    Engine × List Path :=
  let e := changes.entries.foldl (fun e (p, change) =>
    match change with
    | .changed => (changeFile d cwd p e).1
    | .removed => (e.closeDocument p).1) e
  let (e, result) := compile e
  (e, match result with
    | .ok files => files
    | .error _ => [])

end GrammarIndex.Session

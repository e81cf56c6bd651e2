import GrammarIndex.Command.Help
import GrammarIndex.Config.File
import GrammarIndex.Grammar.Dialect
import GrammarIndex.Report.Grid
import GrammarIndex.Report.Json
import GrammarIndex.Report.Style
import GrammarIndex.Session
import GrammarIndex.Text.Position
import GrammarIndex.Text.Quoted

/-!
Commands carried out on a tree of files.

A command reads the configuration, loads the directory it is about, asks its question and prints the
answer, for people or as JSON.
-/
namespace GrammarIndex.Command

open Report (Json Role Theme)

/-- Why a command failed. -/
inductive Failure where
  | file (fault : FileFault)
  | config (fault : ConfigFault)
  | request (error : Error)
  | notGrammar (path : Path)
  | faulty (errors : Nat)
  deriving DecidableEq, Repr

def Failure.message : Failure → String
  | file fault => fault.message
  | config fault => fault.message
  | request error => error.message
  | notGrammar path => path.text ++ " is not a grammar file of a known dialect"
  | faulty errors => errors.repr ++ " syntax error(s)"

/-- Where a command runs and how it prints. -/
structure Setting where
  disk : Disk
  cwd : Place
  theme : Theme := .plain
  json : Bool := false

/-- What a command prints and leaves behind. -/
structure Reply where
  output : String := ""
  failure : Option Failure := none
  disk : Disk

namespace Setting

/-! ### Printing -/

def lines (ls : List String) : String := String.join (ls.map (· ++ "\n"))

/-- A reply without failure, with the disk as it was. -/
def reply (s : Setting) (output : String) : Reply := { output, disk := s.disk }

def fail (s : Setting) (f : Failure) : Reply := { failure := some f, disk := s.disk }

/-- The answer of a command, as lines or as data. -/
def answer (s : Setting) (verb : Verb) (human : List String) (data : Json) : String :=
  if s.json then
    (Json.object [("ok", .bool true), ("command", .str verb.name), ("data", data)]).render ++ "\n"
  else lines human

def header (s : Setting) (text : String) : String := "🚀 " ++ s.theme.paint .header text

def success (s : Setting) (text : String) : String := "✅ " ++ s.theme.paint .success text

/-- A place in a file: by line and column, or by offset if there is no text. -/
def placeIn (p : Path) (text : Option (List Char)) (offset : Nat) : String :=
  match text with
  | some text =>
    let place := Text.positionOf text offset
    p.text ++ ":" ++ place.line.repr ++ ":" ++ place.column.repr
  | none => p.text ++ "@" ++ offset.repr

/-- The text of a file, if it can be read. -/
def textOf? (s : Setting) (p : Path) : Option (List Char) :=
  (s.disk.readText s.cwd p).toOption.map String.toList

def position (s : Setting) (p : Path) (offset : Nat) : String := placeIn p (s.textOf? p) offset

def locationLine (s : Setting) (l : Location) : String :=
  "  " ++ s.theme.paint .info "🔗" ++ " " ++ s.position l.file l.span.start

def diagnosticLines (s : Setting) (p : Path) (ds : List Diagnostic) : List String :=
  let text := s.textOf? p
  ds.map fun d =>
    let place := placeIn p text d.span.start
    match d.severity with
    | .error => "❌ " ++ place ++ " " ++ s.theme.paint .error d.message
    | .warning => "⚠️ " ++ place ++ " " ++ s.theme.paint .warning d.message

def editKindName : EditKind → String
  | .equal => "Equal"
  | .delete => "Delete"
  | .insert => "Insert"

def editLine (s : Setting) (p : Path) (text : Option (List Char)) (e : Edit) : String :=
  let what := if e.text.isEmpty then e.length.repr else Text.quoted e.text
  "  " ++ s.theme.paint .dim (placeIn p text e.start) ++ " " ++ editKindName e.kind ++ " " ++ what

def editLines (s : Setting) (edits : List (Path × List Edit)) : List String :=
  edits.flatMap fun (p, es) =>
    (s.theme.paint .warning "📝" ++ " " ++ p.text) :: es.map (s.editLine p (s.textOf? p))

end Setting

/-! ### Data -/

def spanMembers (span : Span) : List (String × Json) :=
  [("start", .num span.start), ("end", .num span.stop)]

def diagnosticData (d : Diagnostic) : Json :=
  .object ([("severity", .str d.severity.name), ("message", .str d.message)] ++ spanMembers d.span)

def symbolData (s : DocumentSymbol) : Json :=
  .object ([("name", .str s.name), ("classification", .str s.classification.name)] ++
    spanMembers s.span)

def locationData (l : Location) : Json := .object (("file", .str l.file.text) :: spanMembers l.span)

def hoverData : Option QuickInfo → Json
  | some info => .object (("display_text", .str info.text) :: spanMembers info.span)
  | none => .null

def editData (e : Edit) : Json :=
  .object [("kind", .str e.kind.name), ("start", .num e.start), ("length", .num e.length),
    ("text", .str e.text)]

def editsData (es : List Edit) : Json := .arr (es.map editData)

def changesData (changes : List (Path × List Edit)) : Json :=
  .object (changes.map fun (p, es) => (p.text, editsData es))

/-! ### Commands -/

namespace Setting

/-- A session on the grammars of a directory, and the directory's full path. -/
def openDirectory (s : Setting) (config : Config) (dir : Path) : Except Failure (Engine × Path) := do
  let root ← (s.disk.canonicalize s.cwd dir).mapError .file
  match Session.loadDirectory s.disk s.cwd root (Engine.new Grammar.registry config) with
  | (_, .error err) => .error (.request err)
  | (e, .ok _) => return (e, root)

/-- A session on the directory of a grammar file, and the file's full path. -/
def openFile (s : Setting) (config : Config) (file : Path) : Except Failure (Engine × Path) := do
  let file ← (s.disk.canonicalize s.cwd file).mapError .file
  let (e, _) ← s.openDirectory config file.directory
  if (e.document? file).isSome then return (e, file) else .error (.notGrammar file)

/-- Ask about a file, and reply with the answer or why there is none. -/
def onFile {α : Type} (s : Setting) (config : Config) (file : Path)
    (question : Path → Engine → Except Error α) (present : Path → α → Reply) : Reply :=
  match s.openFile config file with
  | .error f => s.fail f
  | .ok (e, file) =>
    match (Session.ask (question file) e).2 with
    | .error err => s.fail (.request err)
    | .ok a => present file a

def init (s : Setting) (target : Path) (force : Bool) : Reply :=
  match Config.store {} force s.disk s.cwd target with
  | .error fault => s.fail (.config fault)
  | .ok disk =>
    { output := s.answer .init [s.success ("Wrote " ++ target.text)]
        (.object [("path", .str target.text)]),
      disk }

/-- All files with their diagnostics. -/
def diagnosticsOf (e : Engine) : List Path → Except Error (List (Path × List Diagnostic))
  | [] => .ok []
  | p :: rest => do
    let ds ← (Session.ask (·.diagnostics p) e).2
    return (p, ds) :: (← diagnosticsOf e rest)

/-- The figures that a check reports. -/
def figures (e : Engine) (files errors warnings : Nat) : List (String × String) :=
  let definitions := e.index.files.values.foldr (fun f n => f.record.defs.size + n) 0
  [("Files", files.repr), ("Definitions", definitions.repr),
    ("Dependencies", e.index.graph.summary), ("Errors", errors.repr), ("Warnings", warnings.repr)]

def check (s : Setting) (config : Config) (path : Path) : Reply :=
  match s.openDirectory config path with
  | .error f => s.fail f
  | .ok (e, root) =>
    match diagnosticsOf e (e.documents.map (·.path)) with
    | .error err => s.fail (.request err)
    | .ok found =>
      let all := found.flatMap (·.2)
      let errors := all.countP (·.severity == .error)
      let warnings := all.countP (·.severity == .warning)
      let table := Report.figuresTable (figures e found.length errors warnings)
      let human := [s.header ("Checking " ++ root.text)] ++
        found.flatMap (fun (p, ds) => s.diagnosticLines p ds) ++ ["", table] ++
        (if errors = 0 then [s.success "No syntax errors"] else [])
      let data := Json.object (found.map fun (p, ds) => (p.text, .arr (ds.map diagnosticData)))
      { output := s.answer .check human data,
        failure := if errors = 0 then none else some (.faulty errors),
        disk := s.disk }

def symbols (s : Setting) (config : Config) (file : Path) : Reply :=
  s.onFile config file (fun p e => e.documentSymbols p) fun p found =>
    let body := if found.isEmpty then "∅ No definitions found." else Report.symbolsTable found
    s.reply (s.answer .symbols ["", "━" ++ s.theme.paint .header p.text ++ "━", body]
      (.arr (found.map symbolData)))

/-- Locations under a title, or a line that says there are none. -/
def listLocations (s : Setting) (verb : Verb) (title nothing : String) (p : Path) (offset : Nat)
    (found : List Location) : Reply :=
  let human := ["🔎 " ++ title ++ " at " ++ s.position p offset] ++
    (if found.isEmpty then [nothing] else []) ++ found.map s.locationLine
  s.reply (s.answer verb human (.arr (found.map locationData)))

def defs (s : Setting) (config : Config) (file : Path) (offset : Nat) : Reply :=
  s.onFile config file (fun p e => e.definitions p offset) fun p found =>
    s.listLocations .defs "Definition" "∅ No definition found." p offset found

def refs (s : Setting) (config : Config) (file : Path) (offset : Nat) : Reply :=
  s.onFile config file (fun p e => e.references p offset) fun p found =>
    s.listLocations .refs "References" "∅ No references found." p offset found

def hover (s : Setting) (config : Config) (file : Path) (offset : Nat) : Reply :=
  s.onFile config file (fun p e => e.hover p offset) fun _ info =>
    let human := match info with
      | none => ["∅ Nothing to show."]
      | some info =>
        match Text.lines info.text.toList with
        | [] => []
        | first :: rest =>
          s.theme.paint .header (String.ofList first) ::
            rest.map fun line => s.theme.paint .dim (String.ofList line)
    s.reply (s.answer .hover human (hoverData info))

def rename (s : Setting) (config : Config) (file : Path) (offset : Nat) (newName : String) : Reply :=
  s.onFile config file (fun p e => e.rename p offset newName) fun p changes =>
    let human := if changes.entries.isEmpty then
        ["∅ Nothing to rename at " ++ s.position p offset ++ "."]
      else s.header ("Rename to '" ++ newName ++ "'") :: s.editLines changes.entries
    s.reply (s.answer .rename human (changesData changes.entries))

def reformat (s : Setting) (config : Config) (file : Path) : Reply :=
  s.onFile config file (fun p e => e.reformat p) fun p edits =>
    let human := if edits.isEmpty then [s.success "Already formatted"] else s.editLines [(p, edits)]
    s.reply (s.answer .reformat human (editsData edits))

/-- Apply edits to files. -/
def writeEdits (cwd : Place) (d : Disk) : List (Path × List Edit) → Except FileFault Disk
  | [] => .ok d
  | (p, edits) :: rest => do
    let text ← d.readText cwd p
    writeEdits cwd (← d.writeText cwd p (applyEdits text edits)) rest

def sortRules (s : Setting) (config : Config) (file : Path) (write : Bool) : Reply :=
  match s.openFile config file with
  | .error f => s.fail f
  | .ok (e, file) =>
    match (Session.refactor GrammarIndex.sortRules file 0 e).2 with
    | .error .noChanges =>
      s.reply (s.answer .sortRules [s.success Error.noChanges.message] (.object []))
    | .error err => s.fail (.request err)
    | .ok changes =>
      let edits := changes.entries
      match if write then writeEdits s.cwd s.disk edits else .ok s.disk with
      | .error fault => s.fail (.file fault)
      | .ok disk =>
        let s := { s with disk }
        let closing := if write then s.success ("Updated " ++ edits.length.repr ++ " file(s)")
          else s.theme.paint .muted "Dry run; pass --write to update the files"
        s.reply (s.answer .sortRules (s.editLines edits ++ [closing]) (changesData edits))

def watch (s : Setting) (config : Config) (path : Path) : Reply :=
  match s.openDirectory config path with
  | .error f => s.fail f
  | .ok (_, root) => s.reply (lines ["👀 Watching for changes in " ++ root.text ++ "..."])

/-- Carry out an invocation. The configuration is read first, whatever is to be done. -/
def carryOut (s : Setting) (i : Invocation) : Reply :=
  let s := { s with json := i.json }
  let target := i.config.getD Config.defaultPath
  match Config.load s.disk s.cwd target with
  | .error fault => s.fail (.config fault)
  | .ok found =>
    let config := found.getD {}
    match i.action with
    | .init force => s.init target force
    | .check path => s.check config path
    | .symbols file => s.symbols config file
    | .defs file offset => s.defs config file offset
    | .refs file offset => s.refs config file offset
    | .hover file offset => s.hover config file offset
    | .rename file offset newName => s.rename config file offset newName
    | .reformat file => s.reformat config file
    | .sortRules file write => s.sortRules config file write
    | .watch path => s.watch config path

end Setting

/-- How a run ended. -/
inductive Outcome where
  | completed (reply : Reply)
  | misused (cause : Misuse)

/-- Run a command line. -/
def run (s : Setting) (args : List String) : Outcome :=
  match Request.ofArgs args with
  | .misuse cause => .misused cause
  | .showVersion => .completed (s.reply versionText)
  | .showHelp none inFull => .completed (s.reply (programHelp inFull))
  | .showHelp (some verb) _ => .completed (s.reply (verbHelp verb))
  | .showHelpOfHelp => .completed (s.reply helpHelp)
  | .act invocation => .completed (s.carryOut invocation)

end GrammarIndex.Command

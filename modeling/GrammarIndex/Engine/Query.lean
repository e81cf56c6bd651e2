import GrammarIndex.Edit.Script
import GrammarIndex.Engine

/-!
Questions to the index.

Offsets count characters of a file's text. Every question about a file that is not in the index
fails.
-/
namespace GrammarIndex

/-- A range in a file. -/
structure Location where
  file : Path
  span : Span
  deriving DecidableEq, Repr, Inhabited

namespace Location

/-- By file, then by start, then by end. -/
def order (a b : Location) : Ordering :=
  (compare a.file b.file).then ((compare a.span.start b.span.start).then
    (compare a.span.stop b.span.stop))

/-- Sort, and keep one of several that are equal. -/
def canonical (ls : List Location) : List Location :=
  let sorted := ls.mergeSort fun a b => a.order b != .gt
  sorted.foldr (fun l rest =>
    match rest with
    | next :: _ => if l.order next == .eq then l :: rest.drop 1 else l :: rest
    | [] => [l]) []

end Location

/-- What a hover shows, and for which range. -/
structure QuickInfo where
  text : String
  span : Span
  deriving DecidableEq, Repr

inductive Severity where
  | error
  | warning
  deriving DecidableEq, Repr

def Severity.name : Severity → String
  | error => "error"
  | warning => "warning"

def Severity.rank : Severity → Nat
  | error => 0
  | warning => 1

structure Diagnostic where
  severity : Severity
  span : Span
  message : String
  deriving DecidableEq, Repr

/-- An entry of a file's outline. -/
structure DocumentSymbol where
  name : String
  classification : Classification
  span : Span
  deriving DecidableEq, Repr

/-- A highlighted range. -/
structure ClassifiedSpan where
  span : Span
  classification : Classification
  deriving DecidableEq, Repr

namespace FileState

/-- The definition or reference at an offset: one that contains it, else the first that ends
there. -/
def nodeAt? (s : FileState) (offset : Nat) : Option Nat :=
  let span := s.parsed.tree.spanOf
  let nodes := s.record.occurrences
  (nodes.find? fun n => (span n).covers offset).or (nodes.find? fun n => (span n).stop == offset)

/-- Error leaves: what is missing, or what cannot be read. -/
def syntaxErrors (s : FileState) : List Diagnostic :=
  s.record.errors.toList.filterMap fun n =>
    match s.parsed.tree.kind? n with
    | some (.error text) =>
      let span := s.parsed.tree.spanOf n
      some ⟨.error, span, if span.isEmpty then text else "syntax error at '" ++ text ++ "'"⟩
    | _ => none

/-- References that stand for nothing. -/
def undefinedNames (s : FileState) : List Diagnostic :=
  (s.record.refs.entries.filter fun r => !s.record.resolved.contains r.1).map fun (n, c) =>
    ⟨.warning, s.parsed.tree.spanOf n,
      "undefined " ++ c.label ++ " '" ++ s.parsed.tree.textOf n ++ "'"⟩

/-- All complaints about a file, by start, errors before warnings. -/
def diagnostics (s : FileState) : List Diagnostic :=
  (s.syntaxErrors ++ s.undefinedNames).mergeSort fun a b =>
    (compare a.span.start b.span.start).then (compare a.severity.rank b.severity.rank) != .gt

/-- The outline of a file, by start. -/
def outline (s : FileState) : List DocumentSymbol :=
  let entries := (s.record.defs.entries.filter fun d => d.2.isSymbolic).map fun (n, c) =>
    (⟨s.parsed.tree.textOf n, c, s.parsed.tree.spanOf n⟩ : DocumentSymbol)
  entries.mergeSort fun a b => a.span.start ≤ b.span.start

/-- Highlighted terminals and comments that overlap a range, by start and end. -/
def classified (s : FileState) (start stop : Nat) : List ClassifiedSpan :=
  let tags := s.record.tags.entries.map fun (n, c) => (⟨s.parsed.tree.spanOf n, c⟩ : ClassifiedSpan)
  let comments := s.record.comments.map fun (span, c) => (⟨span, c⟩ : ClassifiedSpan)
  ((tags ++ comments).filter fun c => c.span.overlaps start stop).mergeSort fun a b =>
    (compare a.span.start b.span.start).then (compare a.span.stop b.span.stop) != .gt

/-- The start of the nearest definition behind an offset, or before it. -/
def nextDefinition? (s : FileState) (offset : Nat) (forward : Bool) : Option Nat :=
  let starts := s.record.defs.keys.map fun n => (s.parsed.tree.spanOf n).start
  if forward then (starts.filter (offset < ·)).min? else (starts.filter (· < offset)).max?

end FileState

namespace Engine

def boundFile (e : Engine) (p : Path) : Except Error FileState :=
  match e.index.file? p with
  | some state => .ok state
  | none => .error (.documentNotFound p)

/-- What the name at an offset stands for in the end. -/
def targetAt? (e : Engine) (s : FileState) (offset : Nat) : Option Nat := do
  let node ← s.nodeAt? offset
  return e.index.scopes.follow (← s.record.symbolAt? node)

/-- Every definition and reference, in any file, that stands for a symbol. -/
def occurrences (e : Engine) (target : Nat) : List Location :=
  Location.canonical (e.index.files.entries.flatMap fun (file, s) =>
    (s.record.occurrences.filter fun n =>
      (s.record.symbolAt? n).map e.index.scopes.follow == some target).map fun n =>
        ⟨file, s.parsed.tree.spanOf n⟩)

/-- Where the name at an offset is defined; built-in and undefined names are nowhere. -/
def definitions (e : Engine) (p : Path) (offset : Nat) : Except Error (List Location) := do
  let state ← e.boundFile p
  let site := (e.targetAt? state offset).bind fun t => (e.index.scopes.symbol? t).bind (·.site)
  return (site.map fun s => (⟨s.file, s.span⟩ : Location)).toList

/-- Everywhere the name at an offset is defined or used. -/
def references (e : Engine) (p : Path) (offset : Nat) : Except Error (List Location) := do
  let state ← e.boundFile p
  match e.targetAt? state offset with
  | none => return []
  | some target => return e.occurrences target

/-- The occurrences in the same file. -/
def highlights (e : Engine) (p : Path) (offset : Nat) : Except Error (List Location) := do
  return (← e.references p offset).filter fun l => l.file.same p

/-- A description of the name at an offset. -/
def hover (e : Engine) (p : Path) (offset : Nat) : Except Error (Option QuickInfo) := do
  let state ← e.boundFile p
  match state.nodeAt? offset with
  | none => return none
  | some node =>
    let tree := state.parsed.tree
    let text? := match state.record.symbolAt? node with
      | some id => (e.index.scopes.symbol? (e.index.scopes.follow id)).map Symbol.describe
      | none => (state.record.classAt? node).map fun (c : Classification) =>
        c.label ++ " " ++ tree.textOf node ++ "\nunresolved"
    return text?.map fun text => ⟨text, tree.spanOf node⟩

/-- The part of a name that stands before an offset. -/
def stemBefore (isNameChar : Char → Bool) (text : List Char) (offset : Nat) : List Char :=
  ((text.take offset).reverse.takeWhile isNameChar).reverse

/-- The names and reserved words that go on from what stands before an offset, sorted. -/
def completion (e : Engine) (p : Path) (offset : Nat) : Except Error (List String) := do
  let state ← e.boundFile p
  match e.document? p with
  | none => .error (.documentNotFound p)
  | some d =>
    let stem := stemBefore state.dialect.isNameChar d.text.toList offset
    let names := (e.index.scopes.visible state.scope).keys ++ state.dialect.keywords
    return (OrderedSet.ofList (names.filter fun n => stem.isPrefixOf n.toList)).toList

/-- The edits that rename the name at an offset everywhere. -/
def rename (e : Engine) (p : Path) (offset : Nat) (name : String) :
    Except Error (PathTable (List Edit)) := do
  let state ← e.boundFile p
  match e.targetAt? state offset with
  | none => return ∅
  | some target =>
    match e.index.scopes.symbol? target with
    | none => return ∅
    | some s =>
      if s.isBuiltin then .error (.notRenamable s.name)
      else
        state.dialect.validateName s.classification name
        return (e.occurrences target).foldl (fun edits l =>
          edits.insert l.file ((edits.get? l.file).getD [] ++
            Edit.substitute l.span.start l.span.length name)) ∅

/-- The edits that format a document. -/
def reformat (e : Engine) (p : Path) : Except Error (List Edit) :=
  match e.document? p with
  | none => .error (.documentNotFound p)
  | some d =>
    match e.registry.find? p with
    | none => .error (.noDialect p)
    | some dialect => .ok (editScript d.text (dialect.format e.config.format d.text))

def diagnostics (e : Engine) (p : Path) : Except Error (List Diagnostic) :=
  (e.boundFile p).map FileState.diagnostics

def documentSymbols (e : Engine) (p : Path) : Except Error (List DocumentSymbol) :=
  (e.boundFile p).map FileState.outline

def classifyRange (e : Engine) (p : Path) (start stop : Nat) : Except Error (List ClassifiedSpan) :=
  (e.boundFile p).map (·.classified start stop)

def nextDefinition (e : Engine) (p : Path) (offset : Nat) (forward : Bool) :
    Except Error (Option Nat) :=
  (e.boundFile p).map (·.nextDefinition? offset forward)

end Engine

end GrammarIndex

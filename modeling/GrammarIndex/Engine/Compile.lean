import GrammarIndex.Engine

/-!
Bringing the index up to date.

All dirty documents are read. Then rounds of files are bound: the first round is the dirty files,
and each round brings in the files it may have invalidated, until there are none. References are
resolved at the end, when every definition is in place. Files are visited in path order, so it is
the same definition of a name that comes first every time.
-/
namespace GrammarIndex

namespace Compile

/-- The files bound so far, in this run, and the index. -/
structure Progress where
  index : Index
  bound : PathSet

/-- Names in scopes. -/
abbrev ScopedNames := List (Nat × String)

/-- Attach the files of a round and purge their old symbols; the freed names come along. -/
def attach (x : Index) (round : List Path) : Index × ScopedNames :=
  round.foldl (fun (x, freed) p =>
    match x.files.get? p with
    | none => (x, freed)
    | some state =>
      let (scopes, scope, names) := Binding.initScope x.scopes p
      ({ x with scopes, files := x.files.insert p { state with scope, record := {} } },
        freed ++ names.map fun n => (scope, n))) (x, [])

/-- The names of the symbols that a file defines. -/
def definedNames (st : ScopeStore) (state : FileState) : ScopedNames :=
  state.record.symbols.values.filterMap fun id =>
    (st.symbol? id).map fun s => (state.scope, s.name)

/-- Bind the definitions of a round; the defined names come along. -/
def define (x : Index) (round : List Path) : Index × ScopedNames :=
  round.foldl (fun (x, defined) p =>
    match x.files.get? p with
    | none => (x, defined)
    | some state =>
      let (scopes, record) :=
        Binding.bindDefinitions x.scopes state.dialect state.parsed p state.scope state.record
      let state := { state with record }
      ({ x with scopes, files := x.files.insert p state }, defined ++ definedNames scopes state))
    (x, [])

/-- Whether a file refers to a built-in name that a new definition would hide. -/
def usesBuiltin (st : ScopeStore) (r : BindingRecord) (name : String) : Bool :=
  r.resolved.values.any fun id =>
    match st.symbol? id with
    | some s => s.scope == ScopeStore.globalScope && s.name == name
    | none => false

/-- Whether a file could take a freed name or resolve to a defined one. -/
def isStale (x : Index) (freed defined : ScopedNames) (state : FileState) : Bool :=
  freed.any (fun n => n.1 == state.scope && state.record.dropped.contains n.2) ||
    defined.any fun n => n.1 == state.scope &&
      (state.record.unresolved.contains n.2 || usesBuiltin x.scopes state.record n.2)

/-- The files that a round may have invalidated and that are not bound yet. -/
def nextRound (p : Progress) (round : List Path) (freed defined : ScopedNames) : List Path :=
  let x := p.index
  let waiting := x.files.entries.filter fun e =>
    !p.bound.contains e.1 && isStale x freed defined e.2
  let candidates := OrderedSet.addAll (OrderedSet.ofList (x.graph.dependentsOfAll round))
    (waiting.map (·.1))
  candidates.toList.filter fun p' => !p.bound.contains p' && x.files.contains p'

/-- Bind one round. -/
def runRound (p : Progress) (round : List Path) : Progress × List Path :=
  let (x, freed) := attach p.index round
  let (x, defined) := define x round
  let p : Progress := ⟨x, OrderedSet.addAll p.bound round⟩
  (p, nextRound p round freed defined)

/-- Bind rounds until one is empty, at most `limit` of them. -/
def runRounds : (limit : Nat) → Progress → List Path → Progress
  | 0, p, _ => p
  | limit + 1, p, round =>
    if round.isEmpty then p
    else
      let (p, next) := runRound p round
      runRounds limit p next

/-- Resolve the references of the bound files. -/
def resolveAll (x : Index) (bound : List Path) : Index :=
  bound.foldl (fun x p =>
    match x.files.get? p with
    | none => x
    | some state =>
      let (record, graph) := Binding.bindReferences x.scopes state.dialect state.parsed p
        state.scope state.record x.graph
      let state := { state with record := Binding.collectErrors state.parsed record }
      { x with graph, files := x.files.insert p state }) x

/-- Bind the given files and all they invalidate. After the first round every round binds a file
that no round before it did, so there are no more rounds than files. -/
def bindAll (x : Index) (dirty : List Path) : Progress :=
  let p := runRounds (x.files.size + 1) ⟨x, ∅⟩ dirty
  ⟨resolveAll p.index p.bound.toList, p.bound⟩

/-- The dialect of each file, or the first file that has none. -/
def dialectsOf (registry : Registry) (docs : List Document) :
    Except Halt (List (Document × Dialect)) :=
  docs.mapM fun d =>
    match registry.find? d.path with
    | some dialect => .ok (d, dialect)
    | none => .error (.error (.noDialect d.path))

/-- Read documents into fresh file states. -/
def readAll (x : Index) (docs : List (Document × Dialect)) : Except Halt Index :=
  docs.foldlM (fun x (d, dialect) =>
    match dialect.parse d.text with
    | .ok parsed =>
      .ok { x with files := x.files.insert d.path ⟨dialect, parsed, ScopeStore.globalScope, {}⟩ }
    | .error message => .error (.crash message)) x

end Compile

namespace Engine

/-- Drop the files whose documents are gone. -/
def forgetVanished (e : Engine) : Engine :=
  e.vanished.foldl (fun e p =>
    let (index, affected) := e.index.forget p
    { e with index, workspace := markDirty e.workspace affected.toList }) e

/-- Bring the index up to date; the files that were bound come in path order. Nothing is read
before every dirty document is known to have a dialect. -/
def compile (e : Engine) : Engine × Except Halt (List Path) :=
  let e := e.forgetVanished
  let dirty := e.documents.filter (·.dirty)
  if dirty.isEmpty then (e, .ok [])
  else
    match do Compile.readAll e.index (← Compile.dialectsOf e.registry dirty) with
    | .error halt => (e, .error halt)
    | .ok index =>
      let p := Compile.bindAll index (dirty.map (·.path))
      let bound := p.bound.toList
      let workspace := bound.foldl (fun w f => w.modify f fun d => { d with dirty := false })
        e.workspace
      ({ e with index := p.index, workspace }, .ok bound)

end Engine

end GrammarIndex

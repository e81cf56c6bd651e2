import GrammarIndex.Edit.Script
import GrammarIndex.Engine.Compile

/-!
Storing whole new texts.

Texts that differ from what is stored are written, their echoes are expected, and the index is
brought up to date. If that fails, documents and markers are put back.
-/
namespace GrammarIndex

namespace Engine

/-- New texts by path. -/
abbrev Proposal := PathTable String

/-- The edits for each file that a proposal changes. A file that does not exist yet counts as empty
and needs a dialect. -/
def proposalEdits (e : Engine) (proposal : Proposal) : Except Error (PathTable (List Edit)) :=
  proposal.entries.foldlM (fun edits (p, text) => do
    let old ← match e.document? p with
      | some d => pure d.text
      | none => if (e.registry.find? p).isNone then .error (.noDialect p) else pure ""
    let script := editScript old text
    return if script.isEmpty then edits else edits.insert p script) ∅

/-- Store one text and expect its echo. -/
def storeText (e : Engine) (p : Path) (text : String) : Engine :=
  { e with echoes := e.echoes.arm p text, workspace := e.workspace.write p text }

/-- Give a path the document and the marker that it has in an earlier state. -/
def restoreFrom (before e : Engine) (p : Path) : Engine :=
  let workspace := match before.document? p with
    | some d => e.workspace.modify p fun _ => d
    | none => e.workspace.remove p
  { e with echoes := e.echoes.restore p (before.echoes.state p), workspace }

/-- Write new texts and bring the index up to date; the edits that lead to them come back. -/
def applyProposal (e : Engine) (proposal : Proposal) :
    Engine × Except Halt (PathTable (List Edit)) :=
  match e.proposalEdits proposal with
  | .error err => (e, .error (.error err))
  | .ok edits =>
    if edits.isEmpty then (e, .error (.error .noChanges))
    else
      let changed := proposal.entries.filter fun r => edits.contains r.1
      let written := changed.foldl (fun e r => e.storeText r.1 r.2) e
      match written.compile with
      | (after, .ok _) => (after, .ok edits)
      | (after, .error (.error err)) =>
        (changed.foldl (fun s r => restoreFrom e s r.1) after, .error (.error err))
      | (after, .error (.crash message)) => (after, .error (.crash message))

end Engine

end GrammarIndex

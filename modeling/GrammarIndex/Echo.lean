import GrammarIndex.Path

/-!
Markers for texts that the index has written itself.

A marker is armed for the text that is about to be stored and is used up by the next change
notification for the same path, whatever that says. Only the very text that was written counts as
an echo.
-/
namespace GrammarIndex

/-- What is expected for a path. A marker holds the text itself, in the place of a digest of it: that
two texts with one digest are the same text is taken for granted. -/
inductive EchoState where
  | clean
  | awaiting (text : String)
  deriving DecidableEq, Repr, Inhabited

/-- What a change notification turned out to be. -/
inductive Notification where
  | suppressed
  | mismatched
  | fresh
  deriving DecidableEq, Repr, Inhabited

def Notification.name : Notification → String
  | suppressed => "Suppressed"
  | mismatched => "Mismatched"
  | fresh => "Fresh"

/-- Whether the document has to be read again. -/
def Notification.needsRebind : Notification → Bool
  | suppressed => false
  | mismatched | fresh => true

/-- The armed markers with the texts they wait for. -/
abbrev EchoTable := PathTable String

namespace EchoTable

def arm (t : EchoTable) (p : Path) (text : String) : EchoTable := t.insert p text

def disarm (t : EchoTable) (p : Path) : EchoTable := t.erase p

def state (t : EchoTable) (p : Path) : EchoState :=
  match t.get? p with
  | some text => .awaiting text
  | none => .clean

/-- Use up the marker of a path and say what the notification is. Texts are compared where their
digests would be, with digests taken as injective. -/
def notify (t : EchoTable) (p : Path) (text : String) : EchoTable × Notification :=
  (t.disarm p,
    match t.get? p with
    | none => .fresh
    | some expected => if text = expected then .suppressed else .mismatched)

/-- Put back a state taken earlier. -/
def restore (t : EchoTable) (p : Path) : EchoState → EchoTable
  | .clean => t.disarm p
  | .awaiting text => t.arm p text

def armed (t : EchoTable) : Nat := t.size

end EchoTable

end GrammarIndex

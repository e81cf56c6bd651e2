import GrammarIndex.Path

/-!
What can go wrong, by cause, and how it is worded.
-/
namespace GrammarIndex

/-- Why a file could not be read or written. -/
inductive FileFault where
  | missing
  | notDirectory
  | isDirectory
  | nameTooLong
  | nulInName
  | notText
  deriving DecidableEq, Repr

def FileFault.message : FileFault → String
  | missing => "No such file or directory (os error 2)"
  | notDirectory => "Not a directory (os error 20)"
  | isDirectory => "Is a directory (os error 21)"
  | nameTooLong => "File name too long (os error 36)"
  | nulInName => "file name contained an unexpected NUL byte"
  | notText => "stream did not contain valid UTF-8"

/-- Why a request was refused. -/
inductive Error where
  | noDialect (path : Path)
  | documentNotFound (path : Path)
  | noChanges
  | invalidName (name reason : String)
  | notRenamable (name : String)
  | refactoring (cause : String)
  | internal (cause : String)
  | file (fault : FileFault)
  deriving DecidableEq, Repr

def Error.message : Error → String
  | noDialect path => "No grammar dialect registered for " ++ path.text
  | documentNotFound path => "Document not found: " ++ path.text
  | noChanges => "No changes were needed, none made."
  | invalidName name reason => "Invalid name '" ++ name ++ "': " ++ reason
  | notRenamable name => "Built-in symbol '" ++ name ++ "' cannot be renamed"
  | refactoring cause => "Refactoring failed: " ++ cause
  | internal cause => "Internal error: " ++ cause
  | file fault => "IO error: " ++ fault.message

end GrammarIndex

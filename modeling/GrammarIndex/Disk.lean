import GrammarIndex.Error

/-!
A tree of files.

Places are lists of names from the root down. A path is followed segment by segment, so `..` needs
the directory before it to exist, and nothing can stand below a file. Names and paths are bounded in
length.
-/
namespace GrammarIndex

/-- What stands at a place. -/
inductive DiskEntry where
  | directory
  | file (bytes : ByteArray)

/-- Names from the root down. -/
abbrev Place := List String

/-- The entries below the root, which is always a directory. -/
abbrev Disk := Table Place DiskEntry

namespace Disk

def entry? (d : Disk) (place : Place) : Option DiskEntry :=
  if place.isEmpty then some .directory else d.get? place

/-- The path of a place. -/
def pathOf (place : Place) : Path := .of ("/" ++ String.intercalate "/" place)

/-- The bytes that a name can have. -/
def nameLimit : Nat := 255

/-- The bytes that a path can have. -/
def pathLimit : Nat := 4095

/-- Take one segment from an existing place. -/
def follow (d : Disk) (place : Place) (segment : List Char) : Except FileFault Place :=
  match d.entry? place with
  | none => .error .missing
  | some (.file _) => .error .notDirectory
  | some .directory =>
    let name := String.ofList segment
    if Spelling.isTrivial segment then .ok place
    else if segment = ['.', '.'] then .ok place.dropLast
    else if nameLimit < name.utf8ByteSize then .error .nameTooLong
    else if (d.entry? (place ++ [name])).isSome then .ok (place ++ [name])
    else .error .missing

/-- Where a path starts from. -/
def start (cwd : Place) (p : Path) : Place := if p.isRooted then [] else cwd

/-- The place that a path leads to from a working directory, however long the path. -/
def resolve (d : Disk) (cwd : Place) (p : Path) : Except FileFault Place :=
  if p.text.toList.contains '\x00' then .error .nulInName
  else if p.text.isEmpty then .error .missing
  else (Text.split '/' p.text.toList).foldlM (follow d) (start cwd p)

/-- A path that can be handed over as it is. -/
def accept (p : Path) : Except FileFault Unit :=
  if p.text.toList.contains '\x00' then .error .nulInName
  else if pathLimit < p.text.utf8ByteSize then .error .nameTooLong
  else .ok ()

/-- The place that a path leads to from a working directory. -/
def find (d : Disk) (cwd : Place) (p : Path) : Except FileFault Place := do
  accept p
  d.resolve cwd p

def exists? (d : Disk) (cwd : Place) (p : Path) : Bool := (d.find cwd p).isOk

/-- The bytes of a file. -/
def readBytes (d : Disk) (cwd : Place) (p : Path) : Except FileFault ByteArray := do
  match d.entry? (← d.find cwd p) with
  | some (.file bytes) => .ok bytes
  | some .directory => .error .isDirectory
  | none => .error .missing

/-- The text of a file. -/
def readText (d : Disk) (cwd : Place) (p : Path) : Except FileFault String := do
  match String.fromUTF8? (← d.readBytes cwd p) with
  | some text => .ok text
  | none => .error .notText

/-- The path of a place, spelled from the root and without detours. -/
def canonicalize (d : Disk) (cwd : Place) (p : Path) : Except FileFault Path :=
  (d.resolve cwd p).map pathOf

/-- The names directly below a directory, sorted. -/
def names (d : Disk) (dir : Place) : List String :=
  d.keys.filterMap fun place => if place.dropLast = dir then place.getLast? else none

/-- All places on the way to a place, itself excepted, outermost first. -/
def above (place : Place) : List Place :=
  (List.range place.length).map fun n => place.take n

/-- Put an entry at a place and make the directories above it. -/
def put (d : Disk) (place : Place) (e : DiskEntry) : Disk :=
  let d := (above place).foldl (fun d p =>
    if (d.entry? p).isSome then d else d.insert p .directory) d
  if place.isEmpty then d else d.insert place e

def putText (d : Disk) (place : Place) (text : String) : Disk := d.put place (.file text.toUTF8)

/-- Write a file; its directory has to exist. A path with a separator at its end, or with `.` or
`..` there, means a directory. -/
def writeText (d : Disk) (cwd : Place) (p : Path) (text : String) : Except FileFault Disk := do
  accept p
  let segments := Text.split '/' p.text.toList
  let named := Text.dropTrailing List.isEmpty segments
  let some last := named.getLast? | .error (if p.isRooted then .isDirectory else .missing)
  let dir ← named.dropLast.foldlM (follow d) (start cwd p)
  match d.entry? dir with
  | none => .error .missing
  | some (.file _) => .error .notDirectory
  | some .directory =>
    let place := dir ++ [String.ofList last]
    if named.length < segments.length || last = ['.'] || last = ['.', '.'] then .error .isDirectory
    else if nameLimit < (String.ofList last).utf8ByteSize then .error .nameTooLong
    else
      match d.entry? place with
      | some .directory => .error .isDirectory
      | _ => .ok (d.putText place text)

/-- Delete a file; a directory stays. -/
def deleteFile (d : Disk) (cwd : Place) (p : Path) : Option Disk :=
  match d.find cwd p with
  | .error _ => none
  | .ok place =>
    match d.entry? place with
    | some (.file _) => some (d.erase place)
    | _ => none

/-- The place that a path spells out from a working directory, whether or not anything is there. -/
def spelledPlace (cwd : Place) (p : Path) : Place :=
  (Text.split '/' p.text.toList).foldl (fun place segment =>
    if Spelling.isTrivial segment then place
    else if segment = ['.', '.'] then place.dropLast
    else place ++ [String.ofList segment]) (start cwd p)

/-- The files that are new or have other bytes than before. -/
def changedFiles (before after : Disk) : List (Place × ByteArray) :=
  after.entries.filterMap fun (place, e) =>
    match e with
    | .directory => none
    | .file bytes =>
      match before.get? place with
      | some (.file old) => if old.data == bytes.data then none else some (place, bytes)
      | _ => some (place, bytes)

/-- The files that are gone. -/
def goneFiles (before after : Disk) : List Place :=
  before.entries.filterMap fun (place, e) =>
    match e, after.get? place with
    | .file _, some (.file _) => none
    | .file _, _ => some place
    | .directory, _ => none

end Disk

end GrammarIndex

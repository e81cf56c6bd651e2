import GrammarIndex.Command.Run

/-!
The program.

It takes a snapshot of the files that a command can look at, carries the command out on the
snapshot, and writes back what the command changed. Links are passed over.
-/
namespace GrammarIndex.Command

/-- What stands at a place, behind any links. -/
def typeAt? (place : Place) : IO (Option IO.FS.FileType) := do
  try
    let path ← IO.FS.realPath (Disk.pathOf place).text
    return some (← path.metadata).type
  catch _ => return none

/-- Add a file as it is, if there is one. -/
def addFile (d : Disk) (place : Place) : IO Disk := do
  match ← typeAt? place with
  | some .file => return d.put place (.file (← IO.FS.readBinFile (Disk.pathOf place).text))
  | some .dir => return d.put place .directory
  | _ => return d

/-- Whether a command can ask for the bytes of a file. -/
def isOfInterest (place : Place) : Bool :=
  (Grammar.registry.find? (Disk.pathOf place)).isSome ||
    place.getLast? == some ".gitignore" || place.getLast? == some ".ignore"

/-- Add what the rules of a directory are read from. -/
def addRules (cwd : Place) (d : Disk) (dir : Place) : IO Disk := do
  let d ← [".ignore", ".gitignore", ".git", ".jj"].foldlM (fun d name => addFile d (dir ++ [name])) d
  let d ← match Ignore.repositoryHome? d cwd dir with
    | some home => addFile d (Disk.spelledPlace cwd (home.child "commondir"))
    | none => pure d
  match Ignore.exclusionsPath? d cwd dir with
  | some p => addFile d (Disk.spelledPlace cwd p)
  | none => return d

/-- Add everything below a directory. Files that no command reads are added without their bytes. -/
partial def addBelow (cwd : Place) (d : Disk) (dir : Place) : IO Disk := do
  let path ← IO.FS.realPath (Disk.pathOf dir).text
  let mut d := d
  for entry in ← path.readDir do
    let place := dir ++ [entry.fileName]
    match (← entry.path.symlinkMetadata).type with
    | .dir =>
      d := d.put place .directory
      if entry.fileName ≠ ".git" then d ← addBelow cwd d place
    | .file => d ← if isOfInterest place then addFile d place else pure (d.put place (.file .empty))
    | _ => pure ()
  addRules cwd d dir

/-- Add the directories from the root down to a place, with their rules. -/
def addAbove (cwd : Place) (d : Disk) (place : Place) : IO Disk :=
  (Disk.above place ++ [place]).foldlM (fun d dir => do
    match ← typeAt? dir with
    | some .dir => addRules cwd (d.put dir .directory) dir
    | _ => return d) d

/-- The directory that an action loads. -/
def directoryOf (cwd : Place) : Action → Option Place
  | .init _ => none
  | .check path | .watch path => some (Disk.spelledPlace cwd path)
  | .symbols file | .defs file _ | .refs file _ | .hover file _ | .rename file _ _
  | .reformat file | .sortRules file _ => some (Disk.spelledPlace cwd file).dropLast

/-- The files that an invocation can look at. -/
def snapshot (cwd : Place) (i : Invocation) : IO Disk := do
  let config := Disk.spelledPlace cwd (i.config.getD Config.defaultPath)
  let d ← addFile (← addAbove cwd ∅ cwd) config
  let d ← addAbove cwd d config.dropLast
  match directoryOf cwd i.action with
  | none => return d
  | some place =>
    let d ← addAbove cwd d place
    match ← typeAt? place with
    | some .dir => addBelow cwd d place
    | _ => addFile d place

/-- Follow the changes below a directory. -/
partial def follow (look : IO Disk) (cwd : Place) (root : Path) (before : Disk) (e : Engine) :
    IO Unit := do
  IO.sleep e.config.debounceMs.toUInt32
  let after ← look
  let changes := Session.changesBetween before after cwd root e
  if changes.entries.isEmpty then follow look cwd root after e
  else
    let (e, files) := Session.applyChanges after cwd changes e
    IO.eprintln (files.length.repr ++ " file(s) bound")
    follow look cwd root after e

/-- Keep a directory bound until the program is stopped. -/
def keepWatching (s : Setting) (i : Invocation) (path : Path) : IO Unit := do
  match Config.load s.disk s.cwd (i.config.getD Config.defaultPath) with
  | .error _ => return ()
  | .ok config =>
    match s.openDirectory (config.getD {}) path with
    | .error _ => return ()
    | .ok (e, root) => follow (snapshot s.cwd i) s.cwd root s.disk e

/-- Run a command line on the files that are there; gives the exit code. -/
def runOnFiles (args : List String) : IO UInt32 := do
  let stdout ← IO.getStdout
  let cwd := Disk.spelledPlace [] (.of (← IO.currentDir).toString)
  let request := Request.ofArgs args
  let disk ← match request with
    | .act i => snapshot cwd i
    | _ => pure ∅
  let theme := if ← stdout.isTty then .colored else .plain
  let s : Setting := { disk, cwd, theme }
  match run s args with
  | .misused cause =>
    IO.eprintln ("error: " ++ cause.message)
    return 2
  | .completed reply =>
    stdout.putStr reply.output
    stdout.flush
    for (place, bytes) in Disk.changedFiles disk reply.disk do
      IO.FS.writeBinFile (Disk.pathOf place).text bytes
    match reply.failure with
    | some failure =>
      IO.eprintln ("Error: " ++ failure.message)
      return 1
    | none =>
      match request with
      | .act i@{ action := .watch path, .. } => keepWatching s i path
      | _ => pure ()
      return 0

end GrammarIndex.Command

def main (args : List String) : IO UInt32 := GrammarIndex.Command.runOnFiles args

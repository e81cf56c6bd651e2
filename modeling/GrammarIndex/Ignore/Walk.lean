import GrammarIndex.Ignore.Rules

/-!
Finding the files below a directory.

Hidden entries are left out. `.ignore` files count in every directory; `.gitignore` files and the
exclusions of a repository count only inside one. The rules of an inner directory come before those
of an outer one.
-/
namespace GrammarIndex.Ignore

/-- The rule files of one directory. -/
structure DirectoryRules where
  plain : Rules
  versioned : Rules
  excluded : Rules
  isRepository : Bool

/-- The first line of a file, if it is text. -/
def firstLine? (d : Disk) (cwd : Place) (p : Path) : Option String :=
  match d.readBytes cwd p with
  | .error _ => none
  | .ok bytes => (byteLines [] bytes.toList).head?.bind fun line => String.fromUTF8? ⟨line.toArray⟩

/-- The directory that `.git` names, if it is a file. -/
def repositoryHome? (d : Disk) (cwd : Place) (place : Place) : Option Path := do
  let line ← firstLine? d cwd (Disk.pathOf (place ++ [".git"]))
  let mark := "gitdir: ".toList
  if mark.isPrefixOf line.toList then
    return .of (String.ofList (line.toList.drop mark.length))
  else none

/-- The exclusions of a repository. They stand in `.git`; if that is a file, they stand in the
directory that `commondir` names in the directory that the file names. A name that starts with a dot
goes on from the directory where it is read, any other name from the working directory. -/
def exclusionsPath? (d : Disk) (cwd : Place) (place : Place) : Option Path :=
  match d.entry? (place ++ [".git"]) with
  | some (.file _) => do
    let home ← repositoryHome? d cwd place
    let common ← firstLine? d cwd (home.child "commondir")
    let base := if common.toList.head? == some '.' then home.child common else .of common
    return base.child "info/exclude"
  | _ => some (Disk.pathOf (place ++ [".git", "info", "exclude"]))

/-- Whether a directory is the top of a repository. -/
def isRepository (d : Disk) (place : Place) : Bool :=
  [".git", ".jj"].any fun name => (d.entry? (place ++ [name])).isSome

/-- The rules that a directory brings. -/
def rulesAt (d : Disk) (cwd : Place) (place : Place) : DirectoryRules :=
  let root := Disk.pathOf place
  let rulesIn (p : Path) : Rules := Rules.ofLines root (fileLines d cwd p)
  ⟨rulesIn (root.child ".ignore"), rulesIn (root.child ".gitignore"),
    ((exclusionsPath? d cwd place).map rulesIn).getD ⟨root.text, []⟩, isRepository d place⟩

/-- The verdicts of three kinds of rules, and whether the walk outwards left the repository. -/
structure Verdicts where
  plain : Verdict := .silent
  versioned : Verdict := .silent
  excluded : Verdict := .silent
  outside : Bool := false

/-- Ask the rules of one more directory. -/
def Verdicts.ask (p : Path) (isDirectory : Bool) (v : Verdicts) (r : DirectoryRules) : Verdicts :=
  { plain := v.plain.orElse (r.plain.judge p isDirectory),
    versioned := if v.outside then v.versioned
      else v.versioned.orElse (r.versioned.judge p isDirectory),
    excluded := if v.outside then v.excluded
      else v.excluded.orElse (r.excluded.judge p isDirectory),
    outside := v.outside || r.isRepository }

/-- The verdict of a chain of directories, innermost first. -/
def judgeChain (chain : List DirectoryRules) (p : Path) (isDirectory : Bool) : Verdict :=
  let v := chain.foldl (Verdicts.ask p isDirectory) { outside := !chain.any (·.isRepository) }
  v.plain.orElse (v.versioned.orElse v.excluded)

/-- Whether an entry is left out. -/
def leavesOut (chain : List DirectoryRules) (place : Place) (isDirectory : Bool) : Bool :=
  match judgeChain chain (Disk.pathOf place) isDirectory with
  | .ignored => true
  | .kept => false
  | .silent => ((place.getLast?.map fun name => name.toList.head? == some '.')).getD false

/-- The files below a directory, at most `depth` levels down, spelled from `dir`. -/
def filesBelow (d : Disk) (cwd : Place) :
    (depth : Nat) → List DirectoryRules → Path → Place → List Path
  | 0, _, _, _ => []
  | depth + 1, chain, dir, place =>
    let chain := rulesAt d cwd place :: chain
    (d.names place).flatMap fun name =>
      let inner := place ++ [name]
      match d.entry? inner with
      | none => []
      | some (.file _) => if leavesOut chain inner false then [] else [dir.child name]
      | some .directory =>
        if leavesOut chain inner true then [] else filesBelow d cwd depth chain (dir.child name) inner

/-- The files that a path leads to: itself, or what stands below it. -/
def walk (d : Disk) (cwd : Place) (root : Path) : List Path :=
  match d.find cwd root with
  | .error _ => []
  | .ok place =>
    match d.entry? place with
    | none => []
    | some (.file _) => [root]
    | some .directory =>
      filesBelow d cwd (d.size + 1) ((Disk.above place).reverse.map (rulesAt d cwd)) root place

end GrammarIndex.Ignore

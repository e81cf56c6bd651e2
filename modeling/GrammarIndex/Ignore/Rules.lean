import GrammarIndex.Disk
import GrammarIndex.Ignore.Glob.Read
import GrammarIndex.Text.Blank

/-!
Lists of ignore rules.

Each line is a rule. Of the rules that match a path the last one decides; a rule with `!` takes a
path back in. A rule with a slash inside is tied to the directory of the list, any other matches at
every depth, and a slash at its end restricts it to directories.
-/
namespace GrammarIndex.Ignore

/-- What the rules say about a path. -/
inductive Verdict where
  | silent
  | ignored
  | kept
  deriving DecidableEq, Repr

/-- The first verdict that is not silent. -/
def Verdict.orElse (a b : Verdict) : Verdict := if a = .silent then b else a

structure Rule where
  glob : Glob
  keeps : Bool := false
  onlyDirectories : Bool := false
  deriving Repr

/-- The pattern that a line's text is matched as. -/
def patternOf (anchored : Bool) (text : List Char) : List Char :=
  let spread := !anchored && !text.contains '/' && text != ['*', '*']
  let pattern := if spread then '*' :: '*' :: '/' :: text else text
  if ['*', '*', '/'].isPrefixOf pattern.reverse then pattern ++ ['/', '*'] else pattern

/-- Blanks at the end of a line do not count, unless a backslash stands before the last. -/
def trimLine (line : List Char) : List Char :=
  if [' ', '\\'].isPrefixOf line.reverse then line else Text.dropTrailing Text.isBlank line

/-- The rule on a line; comments, empty lines and patterns that are not well formed give none. -/
def ruleOf? (line : String) : Option Rule :=
  let chars := line.toList
  if chars.head? = some '#' then none
  else
    let text := trimLine chars
    if text.isEmpty then none
    else
      let (keeps, anchored, text) : Bool × Bool × List Char := match text with
        | '\\' :: '!' :: rest => (false, false, '!' :: rest)
        | '\\' :: '#' :: rest => (false, false, '#' :: rest)
        | '!' :: '/' :: rest => (true, true, rest)
        | '!' :: rest => (true, false, rest)
        | '/' :: rest => (false, true, rest)
        | _ => (false, false, text)
      let onlyDirectories := text.getLast? = some '/'
      let text := if onlyDirectories then
          let shorter := text.dropLast
          if shorter.getLast? = some '\\' then shorter.dropLast else shorter
        else text
      (Glob.read? (String.ofList (patternOf anchored text))).map fun glob =>
        { glob, keeps, onlyDirectories }

/-- Rules tied to a directory. -/
structure Rules where
  root : String
  rules : List Rule
  deriving Repr

namespace Rules

/-- Strip a text from the front of another. -/
def stripFront (front text : List Char) : List Char :=
  if front.isPrefixOf text then text.drop front.length else text

/-- A leading `./` says nothing. -/
def stripHere (p : Path) : List Char := stripFront ['.', '/'] p.text.toList

/-- The rules of some lines. One pattern that nests too deep spoils the whole list. -/
def ofLines (root : Path) (lines : List String) : Rules :=
  let rules := lines.filterMap ruleOf?
  let spoilt := rules.any fun rule => Glob.depthLimit < rule.glob.depth
  ⟨String.ofList (stripHere root), if spoilt then [] else rules⟩

/-- A path as seen from the directory of the rules; a bare name is seen as it is. -/
def relative (r : Rules) (p : Path) : Path :=
  let text := stripHere p
  let root := r.root.toList
  let below := if root ≠ ['.'] ∧ text.contains '/' ∧ root.isPrefixOf text then
      stripFront ['/'] (text.drop root.length)
    else text
  .of (String.ofList below)

/-- The verdict on a path that is already relative. -/
def judgeRelative (r : Rules) (p : Path) (isDirectory : Bool) : Verdict :=
  let applies (rule : Rule) : Bool :=
    (!rule.onlyDirectories || isDirectory) && rule.glob.isMatch p.text
  match r.rules.reverse.find? applies with
  | none => .silent
  | some rule => if rule.keeps then .kept else .ignored

/-- The verdict on a path. -/
def judge (r : Rules) (p : Path) (isDirectory : Bool) : Verdict :=
  r.judgeRelative (r.relative p) isDirectory

/-- The verdict of the nearest of the next `steps` directories above a path that has one. -/
def judgeAbove (r : Rules) : (steps : Nat) → Path → Verdict
  | 0, _ => .silent
  | steps + 1, p =>
    match p.parent? with
    | none => .silent
    | some parent => (r.judgeRelative parent true).orElse (r.judgeAbove steps parent)

/-- The verdict on a path, or else on the nearest directory above it that has one. -/
def judgeWithParents (r : Rules) (p : Path) (isDirectory : Bool) : Verdict :=
  let p := r.relative p
  (r.judgeRelative p isDirectory).orElse (r.judgeAbove (p.components.length + 1) p)

end Rules

/-- Cut bytes into lines, without their ends. -/
def byteLines (current : List UInt8) : List UInt8 → List (List UInt8)
  | [] => if current.isEmpty then [] else [current.reverse]
  | b :: rest =>
    if b = 10 then
      (match current with
        | 13 :: before => before.reverse
        | _ => current.reverse) :: byteLines [] rest
    else byteLines (b :: current) rest

/-- The lines of a rule file up to the first that is no text; a byte-order mark in front goes. -/
def linesOf (bytes : ByteArray) : List String :=
  let rec texts : List (List UInt8) → List String
    | [] => []
    | line :: rest =>
      match String.fromUTF8? ⟨line.toArray⟩ with
      | some text => text :: texts rest
      | none => []
  match texts (byteLines [] bytes.toList) with
  | first :: rest => String.ofList (first.toList.dropWhile (· == '\ufeff')) :: rest
  | [] => []

/-- The lines of a rule file on a disk; without the file there are none. -/
def fileLines (d : Disk) (cwd : Place) (p : Path) : List String :=
  match d.readBytes cwd p with
  | .ok bytes => linesOf bytes
  | .error _ => []

/-- What is left out of every directory load. -/
def defaultLines : List String :=
  ["target/", "node_modules/", "dist/", "build/", "out/", ".git/", ".vscode/", ".idea/", ".antlr/",
    "gen/", "generated/", "*.swp", "*~", "*.bak", "*.orig"]

/-- The rules for loading a directory: its own rule files, the defaults, further exclusions. -/
def rulesFor (d : Disk) (cwd : Place) (root : Path) (exclude : List String) : Rules :=
  Rules.ofLines root (fileLines d cwd (root.child ".gitignore") ++
    fileLines d cwd (root.child ".ignore") ++ defaultLines ++ exclude)

end GrammarIndex.Ignore

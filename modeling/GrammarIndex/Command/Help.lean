import GrammarIndex.Command.Request

/-!
What the program says about itself.
-/
namespace GrammarIndex.Command

def programName : String := "grammarlens"

def versionText : String := programName ++ " 0.0.1\n"

/-- The program in one line. -/
def summary : String := "Incremental semantic analysis for ANTLR4 grammar workspaces"

/-- The program at length. -/
def description : List String :=
  ["Grammarlens keeps a live semantic model of a grammar workspace:",
    "  • Go to definition and find references across grammar files",
    "  • Safe, validated renames",
    "  • Diagnostics for syntax errors and undefined rules",
    "  • Reformatting and rule reordering",
    "",
    "Grammar files in one directory see each other's rules.",
    "",
    "Example usage:",
    "  grammarlens check --path ./grammars",
    "  grammarlens defs --file ./grammars/Expr.g4 --offset 42",
    "  grammarlens rename --file ./grammars/Expr.g4 --offset 42 --new-name term",
    ""]

def padTo (width : Nat) (text : String) : String :=
  text ++ String.ofList (List.replicate (width - text.length) ' ')

/-- Two columns, two blanks apart. -/
def columns (rows : List (String × String)) : List String :=
  let width := (rows.map (·.1.length)).foldl max 0
  rows.map fun row => "  " ++ padTo width row.1 ++ "  " ++ row.2

/-- An option with the name of its value. -/
def OptionSpec.spelled (spec : OptionSpec) : String :=
  "--" ++ spec.long ++ (if spec.kind.takesValue then " <" ++ spec.valueName ++ ">" else "")

/-- The short form, or the room for one, and the long form. -/
def OptionSpec.heading (spec : OptionSpec) : String :=
  match spec.short with
  | some c => String.ofList ['-', c] ++ ", " ++ spec.spelled
  | none => "    " ++ spec.spelled

/-- What an option does and what it is if left out. -/
def OptionSpec.remark (spec : OptionSpec) : String :=
  match spec.fallback with
  | none => spec.about
  | some value =>
    let note := "[default: " ++ value ++ "]"
    if spec.about.isEmpty then note else spec.about ++ " " ++ note

/-- Options of one rank go by their short letter, or else by their long name. -/
def OptionSpec.sortKey (spec : OptionSpec) : String :=
  match spec.short with
  | some c => String.ofList [c.toLower, if c.isLower then '0' else '1']
  | none => spec.long

/-- Options of a verb and shared ones, each by its rank in its own list. -/
def ranked (own shared : List OptionSpec) : List OptionSpec :=
  let all := own.zipIdx ++ shared.zipIdx
  (all.mergeSort fun a b =>
    a.2 < b.2 || (a.2 == b.2 && decide (a.1.sortKey ≤ b.1.sortKey))).map (·.1)

/-- One option in two columns, or over two lines. -/
def optionLines (inFull : Bool) (specs : List OptionSpec) : List String :=
  if inFull then
    [String.intercalate "\n\n" (specs.map fun spec =>
      "  " ++ spec.heading ++ "\n          " ++ spec.remark)]
  else columns (specs.map fun spec => (spec.heading, spec.remark))

/-- A headed list. -/
def headed (title : String) (lines : List String) : String :=
  String.intercalate "\n" (title :: lines)

/-- Paragraphs with an empty line between them. -/
def paragraphs (parts : List String) : String := String.intercalate "\n\n" parts ++ "\n"

def helpAbout : String := "Print this message or the help of the given subcommand(s)"

/-- The help on the whole program. -/
def programHelp (inFull : Bool) : String :=
  let about := if inFull then String.intercalate "\n" description else summary
  let hint := if inFull then "(see a summary with '-h')" else "(see more with '--help')"
  let options := ranked [] sharedOptions ++ [{ helpOption with about := "Print help " ++ hint },
    { versionOption with about := "Print version" }]
  let verbs := Verb.all.map fun v => (v.name, v.about)
  paragraphs [about, "Usage: " ++ programName ++ " [OPTIONS] <COMMAND>",
    headed "Commands:" (columns (verbs ++ [("help", helpAbout)])),
    headed "Options:" (optionLines inFull options)]

/-- The help on one verb. -/
def verbHelp (verb : Verb) : String :=
  let needed := (verb.options.filter (·.required)).map (" " ++ ·.spelled)
  let options := ranked verb.options sharedOptions ++ [{ helpOption with about := "Print help" }]
  paragraphs [verb.about,
    "Usage: " ++ programName ++ " " ++ verb.name ++ " [OPTIONS]" ++ String.join needed,
    headed "Options:" (optionLines false options)]

/-- The help on help itself. -/
def helpHelp : String :=
  paragraphs [helpAbout, "Usage: " ++ programName ++ " help [COMMAND]...",
    headed "Arguments:" (columns [("[COMMAND]...", "Print help for the subcommand(s)")])]

end GrammarIndex.Command

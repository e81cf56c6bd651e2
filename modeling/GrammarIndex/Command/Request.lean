import GrammarIndex.Command.Options
import GrammarIndex.Path

/-!
The command line: what it offers, and what an invocation asks for.
-/
namespace GrammarIndex.Command

/-- What the program can be told to do. -/
inductive Verb where
  | init
  | check
  | symbols
  | defs
  | refs
  | hover
  | rename
  | reformat
  | sortRules
  | watch
  deriving DecidableEq, Repr

namespace Verb

def all : List Verb :=
  [init, check, symbols, defs, refs, hover, rename, reformat, sortRules, watch]

def name : Verb → String
  | init => "init"
  | check => "check"
  | symbols => "symbols"
  | defs => "defs"
  | refs => "refs"
  | hover => "hover"
  | rename => "rename"
  | reformat => "reformat"
  | sortRules => "sort-rules"
  | watch => "watch"

def about : Verb → String
  | init => "Write a default grammarlens.toml"
  | check => "Load a directory and report diagnostics"
  | symbols => "Outline the definitions of a grammar file"
  | defs => "Go to the definition of the symbol at an offset"
  | refs => "Find every definition and reference of the symbol at an offset"
  | hover => "Describe the symbol at an offset"
  | rename => "Compute the edits renaming the symbol at an offset"
  | reformat => "Compute the edits that reformat a grammar file"
  | sortRules => "Reorder parser rules alphabetically"
  | watch => "Keep a directory bound and report diagnostics as files change"

def pathOption : OptionSpec :=
  { long := "path", short := some 'p', kind := .path, valueName := "PATH", fallback := some "." }

def fileOption : OptionSpec :=
  { long := "file", short := some 'f', kind := .path, valueName := "FILE", required := true }

def offsetOption : OptionSpec :=
  { long := "offset", short := some 'o', kind := .offset, valueName := "OFFSET", required := true,
    about := "Character offset into the file" }

/-- The options of a verb alone. -/
def options : Verb → List OptionSpec
  | init => [{ long := "force", about := "Overwrite an existing config" }]
  | check => [{ pathOption with about := "Directory holding the grammars" }]
  | watch => [pathOption]
  | symbols | reformat => [fileOption]
  | defs | refs | hover => [fileOption, offsetOption]
  | rename => [fileOption, offsetOption,
      { long := "new-name", short := some 'n', kind := .text, valueName := "NEW_NAME",
        required := true, about := "The new name" }]
  | sortRules => [fileOption, { long := "write", about := "Write the result back to disk" }]

end Verb

/-- Options that every verb takes too. -/
def sharedOptions : List OptionSpec :=
  [{ long := "verbose", short := some 'v', about := "Enable verbose logging" },
    { long := "config", kind := .path, valueName := "CONFIG",
      about := "Path to the config file (defaults to ./grammarlens.toml)" },
    { long := "json", about := "Print machine-readable JSON" }]

def helpOption : OptionSpec := { long := "help", short := some 'h', kind := .help }

def versionOption : OptionSpec := { long := "version", short := some 'V', kind := .version }

/-- What is to be done. -/
inductive Action where
  | init (force : Bool)
  | check (path : Path)
  | symbols (file : Path)
  | defs (file : Path) (offset : Nat)
  | refs (file : Path) (offset : Nat)
  | hover (file : Path) (offset : Nat)
  | rename (file : Path) (offset : Nat) (newName : String)
  | reformat (file : Path)
  | sortRules (file : Path) (write : Bool)
  | watch (path : Path)
  deriving DecidableEq, Repr

structure Invocation where
  verbose : Bool := false
  config : Option Path := none
  json : Bool := false
  action : Action
  deriving DecidableEq, Repr

/-- A command line as it was understood. -/
inductive Request where
  | act (invocation : Invocation)
  | showHelp (verb : Option Verb) (inFull : Bool)
  | showHelpOfHelp
  | showVersion
  | misuse (cause : Misuse)
  deriving DecidableEq, Repr

/-- The value of an option, or why there is none. -/
def Settings.value (settings : Settings) (spec : OptionSpec) : Except Misuse String :=
  match settings.lookup spec.long with
  | some value => .ok value
  | none =>
    match spec.fallback with
    | some value => .ok value
    | none => .error (.optionMissing spec.long)

def Settings.has (settings : Settings) (long : String) : Bool := (settings.lookup long).isSome

open Verb (fileOption offsetOption pathOption) in
/-- The action that a verb with its options stands for. -/
def actionOf (verb : Verb) (settings : Settings) : Except Misuse Action := do
  let file : Except Misuse Path := (settings.value fileOption).map Path.of
  let directory : Except Misuse Path := (settings.value pathOption).map Path.of
  let offset : Except Misuse Nat := do
    let value ← settings.value offsetOption
    match offset? value with
    | some n => .ok n
    | none => .error (.valueUnsuited offsetOption.long value)
  match verb with
  | .init => return .init (settings.has "force")
  | .check => return .check (← directory)
  | .symbols => return .symbols (← file)
  | .defs => return .defs (← file) (← offset)
  | .refs => return .refs (← file) (← offset)
  | .hover => return .hover (← file) (← offset)
  | .rename =>
    match settings.lookup "new-name" with
    | some newName => return .rename (← file) (← offset) newName
    | none => .error (.optionMissing "new-name")
  | .reformat => return .reformat (← file)
  | .sortRules => return .sortRules (← file) (settings.has "write")
  | .watch => return .watch (← directory)

/-- Words behind the word `help`. -/
def helpOn : List String → Request
  | [] => .showHelp none true
  | ["help"] => .showHelpOfHelp
  | [word] =>
    match Verb.all.find? (·.name == word) with
    | some verb => .showHelp (some verb) true
    | none => .misuse (.unknownVerb word)
  | _ :: word :: _ => .misuse (.unknownVerb word)

/-- The arguments behind a verb; an option given before and behind it counts as it stands behind.
What is pending before the verb is looked at last. -/
def readVerb (verb : Verb) (before : Settings) (pending : Pending) (args : List String) : Request :=
  match readOptions (verb.options ++ sharedOptions ++ [helpOption]) [] none args with
  | .misuse cause => .misuse cause
  | .help inFull => .showHelp (some verb) inFull
  | .version => .showVersion
  | .word _ _ word _ => .misuse (.unexpected word)
  | .done settings =>
    match actionOf verb settings, before.settle pending with
    | .error cause, _ | _, .error cause => .misuse cause
    | .ok action, .ok before =>
      let settings := settings ++ before
      .act { verbose := settings.has "verbose", config := (settings.lookup "config").map Path.of,
             json := settings.has "json", action }

/-- Read a command line. -/
def Request.ofArgs (args : List String) : Request :=
  match readOptions (sharedOptions ++ [helpOption, versionOption]) [] none args with
  | .misuse cause => .misuse cause
  | .help inFull => .showHelp none inFull
  | .version => .showVersion
  | .done _ => .misuse .verbMissing
  | .word settings pending word rest =>
    if word = "help" then helpOn rest
    else
      match Verb.all.find? (·.name == word) with
      | some verb => readVerb verb settings pending rest
      | none => .misuse (.unknownVerb word)

end GrammarIndex.Command

import GrammarIndex.Config
import GrammarIndex.Disk
import GrammarIndex.Toml.Read
import GrammarIndex.Toml.Write

/-!
The configuration file.

What the file leaves out has its default, and names without a meaning here are passed over. A group
of settings is a table, or an array that gives them in order.
-/
namespace GrammarIndex

/-- Why a configuration was not read or written. -/
inductive ConfigFault where
  | present (path : Path)
  | unreadable (fault : FileFault)
  | malformed (place : Text.Position)
  | unsuited (name : String)
  deriving DecidableEq, Repr

def ConfigFault.message : ConfigFault → String
  | present path => "config already exists at " ++ path.text ++ " (use --force to overwrite)"
  | unreadable fault => fault.message
  | malformed place =>
    "TOML parse error at line " ++ place.line.repr ++ ", column " ++ place.column.repr
  | unsuited name => "TOML value of the wrong type for " ++ name

namespace Config

open Toml (Value Fields)

/-- Where the configuration is kept unless said otherwise. -/
def defaultPath : Path := .of "grammarlens.toml"

/-! ### Reading -/

def text? : Value → Option String
  | .string s => some s
  | _ => none

def flag? : Value → Option Bool
  | .boolean b => some b
  | _ => none

def natural? : Value → Option Nat
  | .integer n => if 0 ≤ n then some n.toNat else none
  | _ => none

def elements? : Value → Option (List Value)
  | .array vs => some vs
  | .series latest earlier => some (earlier.reverse ++ [.table .declared latest])
  | _ => none

def texts? (v : Value) : Option (List String) := do (← elements? v).mapM text?

/-- The settings of a group by name; a moment counts as a group without settings. -/
def group? (names : List String) : Value → Option Fields
  | .table _ fields => some fields
  | .moment => some []
  | v => (elements? v).map names.zip

/-- A setting read from its value, or its default if it is missing. -/
def setting {α : Type} (fields : Fields) (name : String) (read? : Value → Option α) (default : α) :
    Except ConfigFault α :=
  match fields.lookup name with
  | none => .ok default
  | some v =>
    match read? v with
    | some a => .ok a
    | none => .error (.unsuited name)

def formatOf (fields : Fields) : Except ConfigFault FormatOptions := do
  let d : FormatOptions := {}
  return { tabSize := ← setting fields "tab_size" natural? d.tabSize,
           insertFinalNewline := ← setting fields "insert_final_newline" flag? d.insertFinalNewline,
           trimTrailingWhitespace :=
             ← setting fields "trim_trailing_whitespace" flag? d.trimTrailingWhitespace }

/-- The configuration that a document spells. -/
def ofFields (fields : Fields) : Except ConfigFault Config := do
  let d : Config := {}
  let format ← setting fields "format"
    (group? ["tab_size", "insert_final_newline", "trim_trailing_whitespace"]) []
  let watch ← setting fields "watch" (group? ["debounce_ms"]) []
  return { logLevel := ← setting fields "log_level" (fun v => (text? v).map some) d.logLevel,
           format := ← formatOf format,
           exclude := ← setting fields "exclude" texts? d.exclude,
           debounceMs := ← setting watch "debounce_ms" natural? d.debounceMs }

def parse (text : String) : Except ConfigFault Config :=
  match Toml.read text with
  | .ok fields => ofFields fields
  | .error place => .error (.malformed place)

/-- Read the configuration file; without one there is no configuration. -/
def load (d : Disk) (cwd : Place) (p : Path) : Except ConfigFault (Option Config) :=
  if d.exists? cwd p then
    match d.readText cwd p with
    | .ok text => (parse text).map some
    | .error fault => .error (.unreadable fault)
  else .ok none

/-! ### Writing -/

def boolText (b : Bool) : String := if b then "true" else "false"

/-- The text of a configuration file. -/
def render (c : Config) : String :=
  let level := match c.logLevel with
    | some level => ["log_level = " ++ Toml.writeString level]
    | none => []
  let lines := level ++ ["exclude = " ++ Toml.writeStrings c.exclude, "", "[format]",
    "tab_size = " ++ c.format.tabSize.repr,
    "insert_final_newline = " ++ boolText c.format.insertFinalNewline,
    "trim_trailing_whitespace = " ++ boolText c.format.trimTrailingWhitespace, "", "[watch]",
    "debounce_ms = " ++ c.debounceMs.repr]
  String.join (lines.map (· ++ "\n"))

/-- Write the configuration file; one that is there is overwritten only if that is asked for. -/
def store (c : Config) (force : Bool) (d : Disk) (cwd : Place) (p : Path) : Except ConfigFault Disk :=
  if d.exists? cwd p && !force then .error (.present p)
  else (d.writeText cwd p c.render).mapError .unreadable

end Config

end GrammarIndex

/-!
Options on a command line.

Arguments are read from left to right. A value stands behind its option, after a blank or an equals
sign, or right behind a short option; short options without values can share a dash. A value after a
blank is looked at only when the next option comes, or when all is read.
-/
namespace GrammarIndex.Command

/-- What an option asks for. -/
inductive OptionKind where
  | flag
  | path
  | offset
  | text
  | help
  | version
  deriving DecidableEq, Repr

def OptionKind.takesValue : OptionKind → Bool
  | path | offset | text => true
  | flag | help | version => false

/-- An option as it is declared. -/
structure OptionSpec where
  long : String
  short : Option Char := none
  kind : OptionKind := .flag
  valueName : String := ""
  fallback : Option String := none
  required : Bool := false
  about : String := ""
  deriving DecidableEq, Repr

/-- Why a command line makes no sense. -/
inductive Misuse where
  | unknownOption (option : String)
  | valueMissing (option : String)
  | valueUnexpected (option : String)
  | valueUnsuited (option value : String)
  | repeated (option : String)
  | unexpected (argument : String)
  | unknownVerb (word : String)
  | verbMissing
  | optionMissing (option : String)
  deriving DecidableEq, Repr

def Misuse.message : Misuse → String
  | unknownOption option => "unexpected argument '" ++ option ++ "' found"
  | valueMissing option => "a value is required for '--" ++ option ++ "' but none was supplied"
  | valueUnexpected option => "unexpected value for '--" ++ option ++ "' found"
  | valueUnsuited option value => "invalid value '" ++ value ++ "' for '--" ++ option ++ "'"
  | repeated option => "the argument '--" ++ option ++ "' cannot be used multiple times"
  | unexpected argument => "unexpected argument '" ++ argument ++ "' found"
  | unknownVerb word => "unrecognized subcommand '" ++ word ++ "'"
  | verbMissing => "a subcommand is required but one was not provided"
  | optionMissing option => "the following required argument was not provided: --" ++ option

/-- The values of the options that were given, by long name. -/
abbrev Settings := List (String × String)

/-- An option with a value that nobody has looked at. -/
abbrev Pending := Option (OptionSpec × String)

/-- Where reading options came to its end. -/
inductive Ending where
  | done (settings : Settings)
  | word (settings : Settings) (pending : Pending) (word : String) (rest : List String)
  | help (inFull : Bool)
  | version
  | misuse (cause : Misuse)
  deriving Repr

/-- A number that fits 64 bits, with or without a plus. -/
def offset? (text : String) : Option Nat :=
  let digits := match text.toList with
    | '+' :: digits => digits
    | digits => digits
  let n := digits.foldl (fun n c => 10 * n + (c.toNat - '0'.toNat)) 0
  if !digits.isEmpty && digits.all Char.isDigit && n < 0x10000000000000000 then some n else none

/-- Whether a value will do. -/
def OptionKind.accepts : OptionKind → String → Bool
  | path, value => !value.isEmpty
  | offset, value => (offset? value).isSome
  | _, _ => true

/-- Take note of an option and its value. -/
def Settings.note (settings : Settings) (spec : OptionSpec) (value : String) :
    Except Misuse Settings :=
  if (settings.lookup spec.long).isSome then .error (.repeated spec.long)
  else if spec.kind.accepts value then .ok (settings ++ [(spec.long, value)])
  else .error (.valueUnsuited spec.long value)

/-- Act on an option: ask for help or the version, or take note of it. -/
def OptionSpec.record (spec : OptionSpec) (isLong : Bool) (value : String) (settings : Settings) :
    Except Ending Settings :=
  match spec.kind with
  | .help => .error (.help isLong)
  | .version => .error .version
  | _ => (settings.note spec value).mapError .misuse

/-- Short options that share a dash; the last may still wait for its value. -/
def readCluster (specs : List OptionSpec) (settings : Settings) :
    List Char → Except Ending (Settings × Option OptionSpec)
  | [] => .ok (settings, none)
  | c :: rest =>
    match specs.find? (·.short == some c) with
    | none => .error (.misuse (.unknownOption (String.ofList ['-', c])))
    | some spec =>
      if spec.kind.takesValue then
        match rest with
        | [] => .ok (settings, some spec)
        | '=' :: value =>
          (spec.record false (String.ofList value) settings).map fun s => (s, none)
        | value => (spec.record false (String.ofList value) settings).map fun s => (s, none)
      else
        match spec.record false "" settings with
        | .error stop => .error stop
        | .ok settings => readCluster specs settings rest

/-- A long option, behind its dashes; it may still wait for its value. -/
def readLong (specs : List OptionSpec) (settings : Settings) (text : List Char) :
    Except Ending (Settings × Option OptionSpec) :=
  let name := String.ofList (text.takeWhile (· != '='))
  match specs.find? (·.long == name) with
  | none => .error (.misuse (.unknownOption ("--" ++ name)))
  | some spec =>
    match text.dropWhile (· != '=') with
    | [] =>
      if spec.kind.takesValue then .ok (settings, some spec)
      else (spec.record true "" settings).map fun s => (s, none)
    | _ :: value =>
      if spec.kind.takesValue then
        (spec.record true (String.ofList value) settings).map fun s => (s, none)
      else .error (.misuse (.valueUnexpected spec.long))

/-- Whether an argument reads as an option; a lone dash does not. -/
def isOptionLike (arg : String) : Bool :=
  match arg.toList with
  | '-' :: _ :: _ => true
  | _ => false

/-- Take note of what is pending. -/
def Settings.settle (settings : Settings) : Pending → Except Misuse Settings
  | none => .ok settings
  | some (spec, value) => settings.note spec value

/-- The end of a command line. -/
def finish (settings : Settings) (pending : Pending) : Ending :=
  match settings.settle pending with
  | .error cause => .misuse cause
  | .ok settings => .done settings

/-- Read options up to the first word that is none. -/
def readOptions (specs : List OptionSpec) (settings : Settings) (pending : Pending) :
    List String → Ending
  | [] => finish settings pending
  | arg :: rest =>
    if !isOptionLike arg then .word settings pending arg rest
    else if arg = "--" then
      match rest with
      | [] => finish settings pending
      | word :: _ => .misuse (.unexpected word)
    else
      let found := (settings.settle pending).mapError .misuse >>= fun settings =>
        match arg.toList with
        | '-' :: '-' :: long => readLong specs settings long
        | chars => readCluster specs settings (chars.drop 1)
      match found with
      | .error stop => stop
      | .ok (settings, none) => readOptions specs settings none rest
      | .ok (settings, some spec) =>
        match rest with
        | [] => .misuse (.valueMissing spec.long)
        | value :: rest =>
          if isOptionLike value then .misuse (.valueMissing spec.long)
          else readOptions specs settings (some (spec, value)) rest

end GrammarIndex.Command

import GrammarIndex.Toml.Text
import GrammarIndex.Toml.Value

/-!
TOML numbers, dates and times as they are read.
-/
namespace GrammarIndex.Toml

def isHexDigit (c : Char) : Bool := (hexValue? [c]).isSome

def isOctalDigit (c : Char) : Bool := '0' ≤ c && c ≤ '7'

def isBinaryDigit (c : Char) : Bool := c = '0' || c = '1'

/-- More digits, with single underscores between them. -/
def digitTail (isDigit : Char → Bool) : List Char → List Char × List Char
  | [] => ([], [])
  | '_' :: c :: rest =>
    if isDigit c then
      let (digits, rest) := digitTail isDigit rest
      (c :: digits, rest)
    else ([], '_' :: c :: rest)
  | c :: rest =>
    if isDigit c then
      let (digits, rest) := digitTail isDigit rest
      (c :: digits, rest)
    else ([], c :: rest)

/-- At least one digit. -/
def readDigits (isDigit : Char → Bool) : Reader (List Char)
  | c :: rest =>
    if isDigit c then
      let (digits, rest) := digitTail isDigit rest
      some (c :: digits, rest)
    else none
  | [] => none

/-- A sign, if there is one; true for a minus. -/
def readSign : List Char → Bool × List Char
  | '-' :: rest => (true, rest)
  | '+' :: rest => (false, rest)
  | text => (false, text)

/-- A decimal number without needless zeros in front. -/
def readDecimal : Reader (Bool × List Char) := fun text =>
  let (negative, text) := readSign text
  match text with
  | '0' :: rest => some ((negative, ['0']), rest)
  | text => (readDigits Char.isDigit text).map fun (digits, rest) => ((negative, digits), rest)

def valueOf (base : Nat) (digits : List Char) : Nat :=
  digits.foldl (fun n c => base * n + (hexValue? [c]).getD 0) 0

/-- Integers have 64 bits. -/
def integer? (n : Int) : Option Value :=
  if -0x8000000000000000 ≤ n && n < 0x8000000000000000 then some (.integer n) else none

def readInteger : Reader Value
  | '0' :: 'x' :: rest => based 16 isHexDigit rest
  | '0' :: 'o' :: rest => based 8 isOctalDigit rest
  | '0' :: 'b' :: rest => based 2 isBinaryDigit rest
  | text => do
    let ((negative, digits), rest) ← readDecimal text
    let n : Int := valueOf 10 digits
    let v ← integer? (if negative then -n else n)
    return (v, rest)
where based (base : Nat) (isDigit : Char → Bool) : Reader Value := fun text => do
  let (digits, rest) ← readDigits isDigit text
  let v ← integer? (valueOf base digits)
  return (v, rest)

/-- Whether `digits · 10 ^ exponent` is beyond the largest double. Its order of magnitude decides,
unless it is that of the limit. -/
def overflows (digits : List Char) (exponent : Int) : Bool :=
  let n := valueOf 10 digits
  let limit := Nat.pow 2 1024 - Nat.pow 2 970
  let magnitude := (Nat.toDigits 10 n).length + exponent
  if n = 0 || magnitude < 309 then false
  else if 309 < magnitude then true
  else if exponent < 0 then limit * Nat.pow 10 exponent.natAbs ≤ n
  else limit ≤ n * Nat.pow 10 exponent.natAbs

def readFraction : Reader (List Char)
  | '.' :: rest => readDigits Char.isDigit rest
  | _ => none

def readExponent : Reader Int
  | c :: rest =>
    if c = 'e' || c = 'E' then do
      let (negative, rest) := readSign rest
      let (digits, rest) ← readDigits Char.isDigit rest
      let n : Int := valueOf 10 digits
      return (if negative then -n else n, rest)
    else none
  | [] => none

/-- `inf` and `nan`. -/
def readSpecial : Reader Value
  | 'i' :: 'n' :: 'f' :: rest => some (.float, rest)
  | 'n' :: 'a' :: 'n' :: rest => some (.float, rest)
  | _ => none

/-- What follows the digits of a float: a fraction, an exponent or both. -/
def readScale (text : List Char) : Option ((List Char × Int) × List Char) :=
  match readExponent text with
  | some (exponent, rest) => some (([], exponent), rest)
  | none =>
    (readFraction text).map fun (fraction, rest) =>
      match readExponent rest with
      | some (exponent, rest) => ((fraction, exponent), rest)
      | none => ((fraction, 0), rest)

/-- A number with a fraction, an exponent or both. -/
def readFloat : Reader Value := fun text =>
  match readDecimal text with
  | none => readSpecial (readSign text).2
  | some ((negative, digits), rest) => do
    let ((fraction, exponent), rest) ← readScale rest
    if !negative && overflows (digits ++ fraction) (exponent - fraction.length) then none
    else some (.float, rest)

/-! ### Moments -/

/-- A number of exactly `count` digits between two bounds. -/
def readField (count low high : Nat) : Reader Nat := fun text =>
  let digits := text.take count
  let n := valueOf 10 digits
  if digits.length = count && digits.all Char.isDigit && low ≤ n && n ≤ high then
    some (n, text.drop count)
  else none

def readMark (marks : List Char) : Reader Unit
  | c :: rest => if marks.contains c then some ((), rest) else none
  | [] => none

def isLeap (year : Nat) : Bool := year % 4 = 0 && (year % 100 ≠ 0 || year % 400 = 0)

def daysIn (year month : Nat) : Nat :=
  if month = 2 then (if isLeap year then 29 else 28)
  else if [4, 6, 9, 11].contains month then 30
  else 31

def readDate : Reader Unit := fun text => do
  let (year, text) ← readField 4 0 9999 text
  let (_, text) ← readMark ['-'] text
  let (month, text) ← readField 2 1 12 text
  let (_, text) ← readMark ['-'] text
  let (_, text) ← readField 2 1 (daysIn year month) text
  return ((), text)

def readTime : Reader Unit := fun text => do
  let (_, text) ← readField 2 0 23 text
  let (_, text) ← readMark [':'] text
  let (_, text) ← readField 2 0 59 text
  let (_, text) ← readMark [':'] text
  let (_, text) ← readField 2 0 60 text
  match text with
  | '.' :: c :: rest =>
    if c.isDigit then return ((), rest.dropWhile Char.isDigit) else return ((), text)
  | text => return ((), text)

def readOffset : Reader Unit := fun text =>
  match readMark ['Z', 'z'] text with
  | some found => some found
  | none => do
    let (_, text) ← readMark ['+', '-'] text
    let (_, text) ← readField 2 0 23 text
    let (_, text) ← readMark [':'] text
    let (_, text) ← readField 2 0 59 text
    return ((), text)

/-- A date, a time, or both with or without an offset. -/
def readMoment : Reader Value := fun text =>
  match readDate text with
  | none => (readTime text).map fun (_, rest) => (.moment, rest)
  | some (_, rest) =>
    match (readMark ['T', 't', ' '] rest).bind fun (_, rest) => readTime rest with
    | none => some (.moment, rest)
    | some (_, rest) =>
      match readOffset rest with
      | some (_, rest) => some (.moment, rest)
      | none => some (.moment, rest)

/-- A value that is neither a string nor holds others. -/
def readScalar : Reader Value
  | 't' :: 'r' :: 'u' :: 'e' :: rest => some (.boolean true, rest)
  | 'f' :: 'a' :: 'l' :: 's' :: 'e' :: rest => some (.boolean false, rest)
  | text =>
    match readMoment text with
    | some found => some found
    | none =>
      match readFloat text with
      | some found => some found
      | none => readInteger text

end GrammarIndex.Toml

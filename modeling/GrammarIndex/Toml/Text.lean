/-!
TOML strings as they are read: basic and literal, on one line or on several.
-/
namespace GrammarIndex.Toml

/-- Reads a value off the front of a text. -/
abbrev Reader (α : Type) := List Char → Option (α × List Char)

/-- Characters that stand for themselves in comments and strings. -/
def isPlain (c : Char) : Bool := c = '\t' || (32 ≤ c.toNat && c.toNat ≠ 127)

def isGap (c : Char) : Bool := c = ' ' || c = '\t'

/-- The number that hexadecimal digits spell. -/
def hexValue? (digits : List Char) : Option Nat :=
  digits.foldlM (fun n c =>
    if '0' ≤ c && c ≤ '9' then some (16 * n + (c.toNat - '0'.toNat))
    else if 'a' ≤ c && c ≤ 'f' then some (16 * n + (c.toNat - 'a'.toNat + 10))
    else if 'A' ≤ c && c ≤ 'F' then some (16 * n + (c.toNat - 'A'.toNat + 10))
    else none) 0

/-- The character with a code point. -/
def charOf? (digits : List Char) : Option Char := do
  let n ← hexValue? digits
  if h : n.isValidChar then some (Char.ofNatAux n h) else none

/-- The character that a single letter stands for behind a backslash. -/
def escaped? : Char → Option Char
  | 'b' => some '\x08'
  | 't' => some '\t'
  | 'n' => some '\n'
  | 'f' => some '\x0c'
  | 'r' => some '\r'
  | '"' => some '"'
  | '\\' => some '\\'
  | _ => none

/-- Put a character in front of what a reader found. -/
def withChar (c : Char) (r : Option (List Char × List Char)) : Option (List Char × List Char) :=
  r.map fun (text, rest) => (c :: text, rest)

/-- A basic string behind its opening quote. -/
def basicBody : List Char → Option (List Char × List Char)
  | [] => none
  | '"' :: rest => some ([], rest)
  | '\\' :: 'u' :: a :: b :: c :: d :: rest => do
    let char ← charOf? [a, b, c, d]
    withChar char (basicBody rest)
  | '\\' :: 'U' :: a :: b :: c :: d :: e :: f :: g :: h :: rest => do
    let char ← charOf? [a, b, c, d, e, f, g, h]
    withChar char (basicBody rest)
  | '\\' :: c :: rest => do
    let char ← escaped? c
    withChar char (basicBody rest)
  | c :: rest => if isPlain c then withChar c (basicBody rest) else none

/-- A literal string behind its opening quote. -/
def literalBody : List Char → Option (List Char × List Char)
  | [] => none
  | '\x27' :: rest => some ([], rest)
  | c :: rest => if isPlain c then withChar c (literalBody rest) else none

/-- Whether a backslash at the end of a line is being passed over. -/
inductive Folding where
  | none
  | line
  | margin
  deriving DecidableEq

/-- A basic string over several lines, behind its opening quotes. Up to two quotes may stand before
the closing ones. -/
def blockBasicBody (folding : Folding) : List Char → Option (List Char × List Char)
  | [] => .none
  | '\r' :: '\n' :: rest =>
    match folding with
    | .none => withChar '\n' (blockBasicBody .none rest)
    | .line | .margin => blockBasicBody .margin rest
  | '\n' :: rest =>
    match folding with
    | .none => withChar '\n' (blockBasicBody .none rest)
    | .line | .margin => blockBasicBody .margin rest
  | ' ' :: rest =>
    match folding with
    | .none => withChar ' ' (blockBasicBody .none rest)
    | f => blockBasicBody f rest
  | '\t' :: rest =>
    match folding with
    | .none => withChar '\t' (blockBasicBody .none rest)
    | f => blockBasicBody f rest
  | '"' :: '"' :: '"' :: rest =>
    if folding = .line then .none
    else
      match rest with
      | '"' :: '"' :: rest => some (['"', '"'], rest)
      | '"' :: rest => some (['"'], rest)
      | rest => some ([], rest)
  | '\\' :: 'u' :: a :: b :: c :: d :: rest =>
    if folding = .line then .none
    else do
      let char ← charOf? [a, b, c, d]
      withChar char (blockBasicBody .none rest)
  | '\\' :: 'U' :: a :: b :: c :: d :: e :: f :: g :: h :: rest =>
    if folding = .line then .none
    else do
      let char ← charOf? [a, b, c, d, e, f, g, h]
      withChar char (blockBasicBody .none rest)
  | '\\' :: c :: rest =>
    if folding = .line then .none
    else if c = '\n' then blockBasicBody .margin rest
    else if isGap c || c = '\r' then blockBasicBody .line (c :: rest)
    else do
      let char ← escaped? c
      withChar char (blockBasicBody .none rest)
  | c :: rest =>
    if folding = .line then .none
    else if isPlain c then withChar c (blockBasicBody .none rest)
    else .none

/-- A literal string over several lines, behind its opening quotes. -/
def blockLiteralBody : List Char → Option (List Char × List Char)
  | [] => none
  | '\x27' :: '\x27' :: '\x27' :: rest =>
    match rest with
    | '\x27' :: '\x27' :: rest => some (['\x27', '\x27'], rest)
    | '\x27' :: rest => some (['\x27'], rest)
    | rest => some ([], rest)
  | '\r' :: '\n' :: rest => withChar '\n' (blockLiteralBody rest)
  | c :: rest =>
    if c = '\n' || isPlain c then withChar c (blockLiteralBody rest) else none

/-- A newline right behind opening quotes does not count. -/
def dropFirstNewline : List Char → List Char
  | '\r' :: '\n' :: rest => rest
  | '\n' :: rest => rest
  | text => text

/-- A string of any of the four kinds. -/
def readString : Reader String
  | '"' :: '"' :: '"' :: rest => finish (blockBasicBody .none (dropFirstNewline rest))
  | '\x27' :: '\x27' :: '\x27' :: rest => finish (blockLiteralBody (dropFirstNewline rest))
  | text => readLineString text
where
  finish (r : Option (List Char × List Char)) : Option (String × List Char) :=
    r.map fun (text, rest) => (String.ofList text, rest)
  /-- A string on one line. -/
  readLineString : Reader String
    | '"' :: rest => finish (basicBody rest)
    | '\x27' :: rest => finish (literalBody rest)
    | _ => none

end GrammarIndex.Toml

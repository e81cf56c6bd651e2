import GrammarIndex.Derivation
import GrammarIndex.Grammar.Scan

/-!
The recovering parser for grammar files.

Every token becomes exactly one leaf, in order. What cannot stand where it stands becomes an error
leaf, and what is missing becomes an empty error leaf at the place where it was expected, so every
text has a tree. A function that reads a construct returns what it built and the tokens it left.
-/
namespace GrammarIndex.Grammar

/-! ### Leaves and places -/

/-- The leaf for a token in its place. -/
def leaf (t : Token) : Derivation :=
  .node (if t.kind = .error then .error t.text else .terminal t.kind t.text) t.span []

/-- The error leaf for a token that cannot stand here. -/
def stray (t : Token) : Derivation := .node (.error t.text) t.span []

/-- The empty error leaf for a token that should stand at an offset. -/
def missing (what : String) (offset : Nat) : Derivation :=
  .node (.error ("missing " ++ what)) (.point offset) []

/-- Where the next token starts; `stop` is the end of the text. -/
def here (stop : Nat) : List Token → Nat
  | [] => stop
  | t :: _ => t.span.start

/-- A construct spans from its first to its last child; without children it is empty at `offset`. -/
def extent (offset : Nat) (children : List Derivation) : Span :=
  match children.head?, children.getLast? with
  | some first, some last => ⟨first.span.start, last.span.stop⟩
  | _, _ => .point offset

def construct (name : RuleName) (offset : Nat) (children : List Derivation) : Derivation :=
  .node (.rule name) (extent offset children) children

/-! ### Looking ahead -/

def isName (t : Token) : Bool := t.kind == .ruleRef || t.kind == .tokenRef

def isWord (word : String) (t : Token) : Bool := t.kind == .keyword && t.text == word

def nextIs (kind : TokenKind) : List Token → Bool
  | [] => false
  | t :: _ => t.kind == kind

/-- A name with a colon behind it starts a rule. -/
def startsRule : List Token → Bool
  | t :: rest => isName t && nextIs .colon rest
  | [] => false

/-! ### Small readers -/

/-- At most one token, if it satisfies `p`. -/
def takeIf (p : Token → Bool) : List Token → List Derivation × List Token
  | [] => ([], [])
  | t :: rest => if p t then ([leaf t], rest) else ([], t :: rest)

/-- One token of the given kind, or a note that it is missing. -/
def expect (kind : TokenKind) (what : String) (stop : Nat) (toks : List Token) :
    Derivation × List Token :=
  match toks with
  | [] => (missing what stop, [])
  | t :: rest => if t.kind = kind then (leaf t, rest) else (missing what t.span.start, t :: rest)

/-- Tokens as long as they satisfy `p`. -/
def takeRun (p : Token → Bool) : List Token → List Derivation × List Token
  | [] => ([], [])
  | t :: rest =>
    if p t then let (ds, left) := takeRun p rest; (leaf t :: ds, left) else ([], t :: rest)

/-- Everything up to and with the semicolon; the start of a rule ends it early. -/
def untilSemi (stop : Nat) : List Token → List Derivation × List Token
  | [] => ([missing "';'" stop], [])
  | t :: rest =>
    if startsRule (t :: rest) then ([missing "';'" t.span.start], t :: rest)
    else if t.kind = .semi then ([leaf t], rest)
    else let (ds, left) := untilSemi stop rest; (leaf t :: ds, left)

/-- Everything up to and with the closing brace. -/
def untilBrace (stop : Nat) : List Token → List Derivation × List Token
  | [] => ([missing "'\x7d'" stop], [])
  | t :: rest =>
    if t.kind = .rbrace then ([leaf t], rest)
    else let (ds, left) := untilBrace stop rest; (leaf t :: ds, left)

/-- Everything up to and with the closing angle bracket; a semicolon ends it early. -/
def untilAngle (stop : Nat) : List Token → List Derivation × List Token
  | [] => ([missing "'>'" stop], [])
  | t :: rest =>
    if t.kind = .punct && t.text = ">" then ([leaf t], rest)
    else if t.kind = .semi then ([missing "'>'" t.span.start], t :: rest)
    else let (ds, left) := untilAngle stop rest; (leaf t :: ds, left)

theorem length_takeIf (p : Token → Bool) (toks : List Token) :
    (takeIf p toks).2.length ≤ toks.length := by
  cases toks with
  | nil => simp [takeIf]
  | cons t rest => simp only [takeIf]; split <;> simp

theorem length_expect (kind : TokenKind) (what : String) (stop : Nat) (toks : List Token) :
    (expect kind what stop toks).2.length ≤ toks.length := by
  cases toks with
  | nil => simp [expect]
  | cons t rest => simp only [expect]; split <;> simp

theorem length_takeRun (p : Token → Bool) (toks : List Token) :
    (takeRun p toks).2.length ≤ toks.length := by
  induction toks with
  | nil => simp [takeRun]
  | cons t rest ih => simp only [takeRun]; split <;> simp; omega

theorem length_untilSemi (stop : Nat) (toks : List Token) :
    (untilSemi stop toks).2.length ≤ toks.length := by
  induction toks with
  | nil => simp [untilSemi]
  | cons t rest ih =>
    simp only [untilSemi]
    split
    · simp
    · split <;> simp; omega

theorem length_untilBrace (stop : Nat) (toks : List Token) :
    (untilBrace stop toks).2.length ≤ toks.length := by
  induction toks with
  | nil => simp [untilBrace]
  | cons t rest ih => simp only [untilBrace]; split <;> simp; omega

theorem length_untilAngle (stop : Nat) (toks : List Token) :
    (untilAngle stop toks).2.length ≤ toks.length := by
  induction toks with
  | nil => simp [untilAngle]
  | cons t rest ih =>
    simp only [untilAngle]
    split
    · simp
    · split <;> simp; omega

/-! ### Constructs -/

/-- A declaration that ends with a semicolon, such as the grammar's name. -/
def declaration (name : RuleName) (stop : Nat) (t : Token) (rest : List Token) :
    Derivation × List Token :=
  let (ds, left) := untilSemi stop rest
  (construct name t.span.start (leaf t :: ds), left)

/-- A word followed by a list in braces, such as the options. -/
def braced (name : RuleName) (stop : Nat) (t : Token) (rest : List Token) :
    Derivation × List Token :=
  let (opening, inside) := expect .lbrace "'\x7b'" stop rest
  let (ds, left) := untilBrace stop inside
  (construct name t.span.start (leaf t :: opening :: ds), left)

/-- An action with a name, such as a header. -/
def namedAction (stop : Nat) (t : Token) (rest : List Token) : Derivation × List Token :=
  let (names, behind) := takeRun (fun t => isName t || t.kind == .keyword || t.kind == .colon) rest
  let (action, left) := expect .action "action block" stop behind
  (construct .actionSpec t.span.start (leaf t :: names ++ [action]), left)

/-- One command of a lexer rule, with its argument. -/
def command (stop : Nat) (t : Token) (rest : List Token) : Derivation × List Token :=
  match rest with
  | [] => (construct .lexerCommand t.span.start [leaf t], [])
  | opening :: inside =>
    if opening.kind = .lparen then
      let (argument, behind) := takeIf (fun t => isName t || t.kind == .int) inside
      let (closing, left) := expect .rparen "')'" stop behind
      (construct .lexerCommand t.span.start (leaf t :: leaf opening :: argument ++ [closing]), left)
    else (construct .lexerCommand t.span.start [leaf t], opening :: inside)

theorem length_braced (name : RuleName) (stop : Nat) (t : Token) (rest : List Token) :
    (braced name stop t rest).2.length ≤ rest.length := by
  have opened := length_expect .lbrace "'\x7b'" stop rest
  have closed := length_untilBrace stop (expect .lbrace "'\x7b'" stop rest).2
  simp only [braced]
  omega

theorem length_namedAction (stop : Nat) (t : Token) (rest : List Token) :
    (namedAction stop t rest).2.length ≤ rest.length := by
  simp only [namedAction]
  exact Nat.le_trans (length_expect _ _ _ _) (length_takeRun _ _)

theorem length_command (stop : Nat) (t : Token) (rest : List Token) :
    (command stop t rest).2.length ≤ rest.length := by
  cases rest with
  | nil => simp [command]
  | cons opening inside =>
    simp only [command]
    split
    · have := Nat.le_trans (length_expect .rparen "')'" stop _)
        (length_takeIf (fun t => isName t || t.kind == .int) inside)
      simp only [List.length_cons]
      omega
    · simp

/-- Commands with commas between them. -/
def commands (stop : Nat) : List Token → List Derivation × List Token
  | [] => ([], [])
  | t :: rest =>
    if isName t || t.kind == .keyword then
      match _read : command stop t rest with
      | (d, []) => ([d], [])
      | (d, comma :: behind) =>
        if comma.kind = .comma then
          let others := commands stop behind
          (d :: leaf comma :: others.1, others.2)
        else ([d], comma :: behind)
    else ([], t :: rest)
termination_by toks => toks.length
decreasing_by
  have bound := length_command stop t rest
  rw [_read] at bound
  simp at bound ⊢
  omega

theorem length_commands (stop : Nat) (toks : List Token) :
    (commands stop toks).2.length ≤ toks.length := by
  fun_induction commands stop toks with
  | case1 => simp
  | case2 => simp
  | case3 t rest named d comma behind read isComma others ih =>
    have bound := length_command stop t rest
    rw [read] at bound
    simp [others] at bound ⊢
    omega
  | case4 t rest named d comma behind read notComma =>
    have bound := length_command stop t rest
    rw [read] at bound
    simp at bound ⊢
    omega
  | case5 => simp

/-- The handlers behind a rule. -/
def handlers : List Token → List Derivation × List Token
  | [] => ([], [])
  | t :: rest =>
    if isWord "catch" t || isWord "finally" t then
      let argument := takeIf (fun t => t.kind == .charSet) rest
      let body := takeIf (fun t => t.kind == .action) argument.2
      let (ds, left) := handlers body.2
      (leaf t :: argument.1 ++ body.1 ++ ds, left)
    else ([], t :: rest)
termination_by toks => toks.length
decreasing_by
  have first := length_takeIf (fun t => t.kind == .charSet) rest
  have second := length_takeIf (fun t => t.kind == .action)
    (takeIf (fun t => t.kind == .charSet) rest).2
  simp
  omega

theorem length_handlers (toks : List Token) : (handlers toks).2.length ≤ toks.length := by
  fun_induction handlers toks with
  | case1 => simp
  | case2 t rest word argument body ds left recur ih =>
    have first := length_takeIf (fun t => t.kind == .charSet) rest
    have second := length_takeIf (fun t => t.kind == .action) argument.2
    simp_all [argument, body]
    omega
  | case3 => simp

/-- The elements read from a rule body, the tokens left, and whether the body's closing token is
the next one. -/
structure Body where
  elements : List Derivation
  left : List Token
  closed : Bool
  deriving Repr

/-- Whether a rule body must end before this token, because what follows is no part of it. -/
def endsBody (t : Token) (rest : List Token) : Bool :=
  t.kind == .semi || (isName t && nextIs .colon rest) || isWord "fragment" t ||
    (isWord "mode" t && !nextIs .lparen rest)

/-- A body that leaves at most `n` tokens. -/
abbrev BodyWithin (n : Nat) := { b : Body // b.left.length ≤ n }

/-- One more element in front. -/
def BodyWithin.prepend {m n : Nat} (d : Derivation) (b : BodyWithin m) (bound : m ≤ n) :
    BodyWithin n :=
  ⟨⟨d :: b.val.elements, b.val.left, b.val.closed⟩, Nat.le_trans b.property bound⟩

/-- The elements of a rule body up to its closing token, which is left in place. A parenthesis
opens a block with a body of its own. -/
def elements (stop : Nat) (close : TokenKind) : (toks : List Token) → BodyWithin toks.length
  | [] => ⟨⟨[], [], false⟩, by simp⟩
  | t :: rest =>
    if t.kind = close then ⟨⟨[], t :: rest, true⟩, by simp⟩
    else if endsBody t rest then ⟨⟨[], t :: rest, false⟩, by simp⟩
    else if t.kind = .lparen then
      let inner := elements stop .rparen rest
      let closing := expect .rparen "')'" stop inner.val.left
      have shorter : closing.2.length < (t :: rest).length :=
        Nat.lt_succ_of_le (Nat.le_trans (length_expect _ _ _ _) inner.property)
      let block := construct .block t.span.start (leaf t :: inner.val.elements ++ [closing.1])
      (elements stop close closing.2).prepend block (Nat.le_of_lt shorter)
    else if t.kind = .rparen then
      (elements stop close rest).prepend (stray t) (Nat.le_succ _)
    else if t.kind = .rarrow then
      let list := commands stop rest
      have shorter : list.2.length < (t :: rest).length :=
        Nat.lt_succ_of_le (length_commands stop rest)
      let group := construct .lexerCommands t.span.start (leaf t :: list.1)
      (elements stop close list.2).prepend group (Nat.le_of_lt shorter)
    else if t.kind = .punct && t.text = "<" then
      let list := untilAngle stop rest
      have shorter : list.2.length < (t :: rest).length :=
        Nat.lt_succ_of_le (length_untilAngle stop rest)
      let group := construct .elementOptions t.span.start (leaf t :: list.1)
      (elements stop close list.2).prepend group (Nat.le_of_lt shorter)
    else (elements stop close rest).prepend (leaf t) (Nat.le_succ _)
termination_by toks => toks.length
decreasing_by
  · simp
  · exact shorter
  · simp
  · exact shorter
  · exact shorter
  · simp

/-- What stands between a rule's name and its colon, with the colon if there is one; the flag says
whether the body follows. -/
def prequel (stop : Nat) : List Token → List Derivation × List Token × Bool
  | [] => ([missing "':'" stop], [], false)
  | t :: rest =>
    if startsRule (t :: rest) || isWord "fragment" t || isWord "mode" t then
      ([missing "':'" t.span.start], t :: rest, false)
    else if t.kind = .colon then ([leaf t], rest, true)
    else if isWord "options" t then
      let opts := braced .optionsSpec stop t rest
      let (ds, out) := prequel stop opts.2
      (opts.1 :: ds, out)
    else if t.kind = .semi then ([missing "':'" t.span.start, leaf t], rest, false)
    else
      let (ds, out) := prequel stop rest
      (leaf t :: ds, out)
termination_by toks => toks.length
decreasing_by
  · have := length_braced .optionsSpec stop t rest
    simp
    omega
  · simp

theorem length_prequel (stop : Nat) (toks : List Token) :
    (prequel stop toks).2.1.length ≤ toks.length := by
  fun_induction prequel stop toks with
  | case1 => simp
  | case2 => simp
  | case3 => simp
  | case4 t rest _ _ _ opts ds out recur ih =>
    have := length_braced .optionsSpec stop t rest
    simp_all [opts]
    omega
  | case5 => simp
  | case6 t rest _ _ _ _ ds out recur ih => simp_all; omega

/-- A rule from its name on: what stands before the colon, the body, the semicolon, the handlers.
A rule whose colon is missing has no body. -/
def ruleTail (stop : Nat) (toks : List Token) : List Derivation × List Token :=
  let before := prequel stop toks
  if before.2.2 then
    let body := elements stop .semi before.2.1
    let block := construct .ruleBlock (here stop before.2.1) body.val.elements
    let closing := expect .semi "';'" stop body.val.left
    let group := handlers closing.2
    let tail := if group.1.isEmpty then [] else
      [construct .exceptionGroup (here stop closing.2) group.1]
    (before.1 ++ block :: closing.1 :: tail, group.2)
  else (before.1, before.2.1)

theorem length_ruleTail (stop : Nat) (toks : List Token) :
    (ruleTail stop toks).2.length ≤ toks.length := by
  have before := length_prequel stop toks
  simp only [ruleTail]
  split
  · have body := (elements stop .semi (prequel stop toks).2.1).property
    have closing := length_expect .semi "';'" stop
      (elements stop .semi (prequel stop toks).2.1).val.left
    have group := length_handlers
      (expect .semi "';'" stop (elements stop .semi (prequel stop toks).2.1).val.left).2
    simp only
    omega
  · exact before

/-- A rule; after the word `fragment` the next token is taken for its name. -/
def ruleSpec (name : RuleName) (stop : Nat) (t : Token) (rest : List Token) :
    Derivation × List Token :=
  let head := if isWord "fragment" t then takeIf (fun _ => true) rest else ([], rest)
  let tail := ruleTail stop head.2
  (construct name t.span.start (leaf t :: head.1 ++ tail.1), tail.2)

theorem length_ruleSpec (name : RuleName) (stop : Nat) (t : Token) (rest : List Token) :
    (ruleSpec name stop t rest).2.length ≤ rest.length := by
  simp only [ruleSpec]
  split
  · exact Nat.le_trans (length_ruleTail _ _) (length_takeIf _ _)
  · exact length_ruleTail _ _

/-- The top-level construct that starts with `t`. -/
def item (stop : Nat) (t : Token) (rest : List Token) : Derivation × List Token :=
  match t.kind with
  | .keyword =>
    match t.text with
    | "lexer" | "parser" | "grammar" => declaration .grammarDecl stop t rest
    | "import" => declaration .delegateGrammars stop t rest
    | "mode" => declaration .modeSpec stop t rest
    | "options" => braced .optionsSpec stop t rest
    | "tokens" => braced .tokensSpec stop t rest
    | "channels" => braced .channelsSpec stop t rest
    | "fragment" => ruleSpec .lexerRuleSpec stop t rest
    | _ => (stray t, rest)
  | .tokenRef => ruleSpec .lexerRuleSpec stop t rest
  | .ruleRef => ruleSpec .parserRuleSpec stop t rest
  | .atSign => namedAction stop t rest
  | _ => (stray t, rest)

theorem length_item (stop : Nat) (t : Token) (rest : List Token) :
    (item stop t rest).2.length ≤ rest.length := by
  unfold item declaration
  split <;> try split
  all_goals first
    | exact length_untilSemi _ _
    | exact length_braced _ _ _ _
    | exact length_ruleSpec _ _ _ _
    | exact length_namedAction _ _ _
    | exact Nat.le_refl _

/-- The top-level constructs in order. -/
def items (stop : Nat) : List Token → List Derivation
  | [] => []
  | t :: rest =>
    let next := item stop t rest
    next.1 :: items stop next.2
termination_by toks => toks.length
decreasing_by
  have := length_item stop t rest
  simp only [List.length_cons]
  omega

/-- The derivation of a token list from a text of length `stop`. -/
def derive (stop : Nat) (toks : List Token) : Derivation :=
  .node (.rule .grammarSpec) ⟨0, stop⟩ (items stop toks)

/-- The numbers of the error leaves of a tree, ascending. -/
def errorsOf (t : SyntaxTree) : List Nat :=
  (List.range t.size).filter fun id => ((t.kind? id).map NodeKind.isError).getD false

/-- Read a grammar text. -/
def parse (text : String) : Parsed :=
  let (tokens, comments) := tokenize text
  let tree := (derive text.length tokens).toTree
  ⟨tree, tokens, comments, errorsOf tree⟩

end GrammarIndex.Grammar

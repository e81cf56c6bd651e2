import GrammarIndex.Grammar.Parse
import Mathlib.Algebra.GroupWithZero.Nat

/-!
Other names in the same places.

A respelling puts one name in the place of some names of a text and moves what stands behind them.
The parser looks at the kinds of names and never at their texts, so reading respelled tokens comes
to respelling what was read: the tree has the same nodes in the same order.
-/
namespace GrammarIndex.Grammar

/-- Names of a text, by their ranges, and the name that takes their place. -/
structure Respelling where
  spans : List Span
  name : String

/-- The kinds of names that are no reserved words. -/
def isNameKind (kind : TokenKind) : Bool := kind == .ruleRef || kind == .tokenRef

namespace Respelling

variable (r : Respelling)

/-! ### What becomes of a text -/

/-- Where an offset goes: the names that end before it take the length of the new one. -/
def move (offset : Nat) : Nat :=
  let before := r.spans.filter (·.stop ≤ offset)
  offset + before.length * r.name.length - (before.map Span.length).sum

def span (s : Span) : Span := ⟨r.move s.start, r.move s.stop⟩

/-- The text of a token, given its kind and its range. -/
def text (kind : TokenKind) (span : Span) (text : String) : String :=
  if isNameKind kind && r.spans.contains span then r.name else text

def token (t : Token) : Token := ⟨t.kind, r.text t.kind t.span t.text, r.span t.span⟩

def comment (c : Comment) : Comment := ⟨c.text, r.span c.span⟩

def kind (span : Span) : NodeKind → NodeKind
  | .terminal kind text => .terminal kind (r.text kind span text)
  | .rule name => .rule name
  | .error text => .error text

def node (n : Node) : Node := { n with kind := r.kind n.span n.kind, span := r.span n.span }

def tree (t : SyntaxTree) : SyntaxTree := ⟨t.nodes.map r.node⟩

/-- What was read, with other names: the same nodes, moved. -/
def parsed (p : Parsed) : Parsed :=
  ⟨r.tree p.tree, p.tokens.map r.token, p.comments.map r.comment, p.errors⟩

mutual

def derivation : Derivation → Derivation
  | .node kind span children => .node (r.kind span kind) (r.span span) (derivations children)

def derivations : List Derivation → List Derivation
  | [] => []
  | d :: rest => derivation d :: derivations rest

end

@[simp] theorem derivations_eq_map (ds : List Derivation) :
    r.derivations ds = ds.map r.derivation := by
  induction ds with
  | nil => rfl
  | cons d ds ih => rw [derivations, ih, List.map_cons]

/-- What a reader built and what it left. -/
def read (x : List Derivation × List Token) : List Derivation × List Token :=
  (x.1.map r.derivation, x.2.map r.token)

@[simp] theorem fst_read (x : List Derivation × List Token) :
    (r.read x).1 = x.1.map r.derivation := rfl

@[simp] theorem snd_read (x : List Derivation × List Token) : (r.read x).2 = x.2.map r.token := rfl

/-! ### Tokens -/

@[simp] theorem kind_token (t : Token) : (r.token t).kind = t.kind := rfl

@[simp] theorem start_token (t : Token) : (r.token t).span.start = r.move t.span.start := rfl

theorem text_of_not_name {kind : TokenKind} (other : isNameKind kind = false) (span : Span)
    (text : String) : r.text kind span text = text := by
  simp [Respelling.text, other]

theorem text_token_of_not_name {t : Token} (other : isNameKind t.kind = false) :
    (r.token t).text = t.text := r.text_of_not_name other _ _

@[simp] theorem isName_token (t : Token) : isName (r.token t) = isName t := rfl

@[simp] theorem isWord_token (word : String) (t : Token) :
    isWord word (r.token t) = isWord word t := by
  unfold isWord
  rw [kind_token]
  cases keyword : t.kind == .keyword with
  | false => rfl
  | true =>
    have other : isNameKind t.kind = false := by rw [eq_of_beq keyword]; rfl
    rw [r.text_token_of_not_name other]

/-- Whether a token is a certain punctuation mark. -/
theorem punct_token (t : Token) (mark : String) :
    (decide ((r.token t).kind = .punct) && decide ((r.token t).text = mark)) =
      (decide (t.kind = .punct) && decide (t.text = mark)) := by
  by_cases punct : t.kind = .punct
  · rw [r.text_token_of_not_name (by rw [punct]; rfl), kind_token]
  · simp [punct]

@[simp] theorem nextIs_map (kind : TokenKind) (toks : List Token) :
    nextIs kind (toks.map r.token) = nextIs kind toks := by
  cases toks <;> rfl

@[simp] theorem startsRule_map (toks : List Token) :
    startsRule (toks.map r.token) = startsRule toks := by
  cases toks with
  | nil => rfl
  | cons t rest => simp [startsRule]

@[simp] theorem startsRule_cons (t : Token) (rest : List Token) :
    startsRule (r.token t :: rest.map r.token) = startsRule (t :: rest) :=
  r.startsRule_map (t :: rest)

@[simp] theorem endsBody_map (t : Token) (rest : List Token) :
    endsBody (r.token t) (rest.map r.token) = endsBody t rest := by
  simp [endsBody]

@[simp] theorem here_map (stop : Nat) (toks : List Token) :
    here (r.move stop) (toks.map r.token) = r.move (here stop toks) := by
  cases toks <;> rfl

/-! ### Leaves and constructs -/

@[simp] theorem leaf_token (t : Token) : leaf (r.token t) = r.derivation (leaf t) := by
  by_cases error : t.kind = .error
  · rw [leaf, leaf, kind_token, if_pos error, if_pos error,
      r.text_token_of_not_name (by rw [error]; rfl)]
    rfl
  · rw [leaf, leaf, kind_token, if_neg error, if_neg error]
    rfl

theorem stray_token {t : Token} (other : isNameKind t.kind = false) :
    stray (r.token t) = r.derivation (stray t) := by
  rw [stray, r.text_token_of_not_name other]
  rfl

@[simp] theorem missing_move (what : String) (offset : Nat) :
    missing what (r.move offset) = r.derivation (missing what offset) := rfl

@[simp] theorem span_derivation (d : Derivation) : (r.derivation d).span = r.span d.span := by
  cases d
  rfl

@[simp] theorem construct_map (name : RuleName) (offset : Nat) (ds : List Derivation) :
    construct name (r.move offset) (ds.map r.derivation) = r.derivation (construct name offset ds) := by
  have moved : extent (r.move offset) (ds.map r.derivation) = r.span (extent offset ds) := by
    unfold extent
    rw [List.head?_map, List.getLast?_map]
    cases ds.head? with
    | none => rfl
    | some first =>
      cases ds.getLast? with
      | none => rfl
      | some last =>
        simp only [Option.map_some, span_derivation]
        rfl
  rw [construct, moved, construct, derivation, derivations_eq_map]
  rfl

theorem construct_cons (name : RuleName) (t : Token) (ds : List Derivation) :
    construct name (r.move t.span.start) (r.derivation (leaf t) :: ds.map r.derivation) =
      r.derivation (construct name t.span.start (leaf t :: ds)) :=
  r.construct_map name t.span.start (leaf t :: ds)

/-! ### Readers -/

variable (stop : Nat)

@[simp] theorem takeIf_map {p : Token → Bool} (blind : ∀ t, p (r.token t) = p t)
    (toks : List Token) : takeIf p (toks.map r.token) = r.read (takeIf p toks) := by
  cases toks with
  | nil => rfl
  | cons t rest =>
    simp only [takeIf, List.map_cons, blind]
    split <;> simp [read]

@[simp] theorem takeRun_map {p : Token → Bool} (blind : ∀ t, p (r.token t) = p t)
    (toks : List Token) : takeRun p (toks.map r.token) = r.read (takeRun p toks) := by
  induction toks with
  | nil => rfl
  | cons t rest ih =>
    simp only [takeRun, List.map_cons, blind, ih]
    split <;> simp [read]

@[simp] theorem expect_map (kind : TokenKind) (what : String) (toks : List Token) :
    expect kind what (r.move stop) (toks.map r.token) =
      (r.derivation (expect kind what stop toks).1, (expect kind what stop toks).2.map r.token) := by
  cases toks with
  | nil => rfl
  | cons t rest =>
    by_cases here : t.kind = kind <;> simp [expect, here]

@[simp] theorem untilSemi_map (toks : List Token) :
    untilSemi (r.move stop) (toks.map r.token) = r.read (untilSemi stop toks) := by
  induction toks with
  | nil => rfl
  | cons t rest ih =>
    simp only [untilSemi, List.map_cons, startsRule_cons, kind_token, ih]
    split
    · simp [read]
    · split <;> simp [read]

@[simp] theorem untilBrace_map (toks : List Token) :
    untilBrace (r.move stop) (toks.map r.token) = r.read (untilBrace stop toks) := by
  induction toks with
  | nil => rfl
  | cons t rest ih =>
    simp only [untilBrace, List.map_cons, kind_token, ih]
    split <;> simp [read]

@[simp] theorem untilAngle_map (toks : List Token) :
    untilAngle (r.move stop) (toks.map r.token) = r.read (untilAngle stop toks) := by
  induction toks with
  | nil => rfl
  | cons t rest ih =>
    rw [List.map_cons, untilAngle, untilAngle, punct_token, kind_token, start_token, ih]
    split
    · simp [read]
    · split <;> simp [read]

/-- What a reader of one construct built and what it left. -/
def readOne (x : Derivation × List Token) : Derivation × List Token :=
  (r.derivation x.1, x.2.map r.token)

@[simp] theorem declaration_map (name : RuleName) (t : Token) (rest : List Token) :
    declaration name (r.move stop) (r.token t) (rest.map r.token) =
      r.readOne (declaration name stop t rest) := by
  simp [declaration, readOne, construct_cons]

@[simp] theorem braced_map (name : RuleName) (t : Token) (rest : List Token) :
    braced name (r.move stop) (r.token t) (rest.map r.token) =
      r.readOne (braced name stop t rest) := by
  simp only [braced, readOne, expect_map, untilBrace_map, fst_read, snd_read, leaf_token, start_token,
    ← List.map_cons, construct_map]

@[simp] theorem namedAction_map (t : Token) (rest : List Token) :
    namedAction (r.move stop) (r.token t) (rest.map r.token) =
      r.readOne (namedAction stop t rest) := by
  have names := r.takeRun_map (p := fun t => isName t || t.kind == .keyword || t.kind == .colon)
    (fun _ => rfl) rest
  have ds := r.construct_map .actionSpec t.span.start (leaf t ::
    (takeRun (fun t => isName t || t.kind == .keyword || t.kind == .colon) rest).1 ++
      [(expect .action "action block" stop
        (takeRun (fun t => isName t || t.kind == .keyword || t.kind == .colon) rest).2).1])
  simp only [List.map_cons, List.map_append, List.map_nil, List.cons_append] at ds
  simp [namedAction, readOne, names, ds]

@[simp] theorem command_map (t : Token) (rest : List Token) :
    command (r.move stop) (r.token t) (rest.map r.token) = r.readOne (command stop t rest) := by
  have alone := r.construct_map .lexerCommand t.span.start [leaf t]
  simp only [List.map_cons, List.map_nil] at alone
  cases rest with
  | nil => simp [command, readOne, alone]
  | cons opening inside =>
    have argument := r.takeIf_map (p := fun t => isName t || t.kind == .int) (fun _ => rfl) inside
    have ds := r.construct_map .lexerCommand t.span.start (leaf t :: leaf opening ::
      (takeIf (fun t => isName t || t.kind == .int) inside).1 ++
        [(expect .rparen "')'" stop (takeIf (fun t => isName t || t.kind == .int) inside).2).1])
    simp only [List.map_cons, List.map_append, List.map_nil, List.cons_append] at ds
    by_cases opens : opening.kind = .lparen
    · simp [command, readOne, opens, argument, ds]
    · simp [command, readOne, opens, alone]

theorem commands_of_named (stop : Nat) {t : Token} {rest : List Token}
    (named : (isName t || t.kind == .keyword) = true) :
    commands stop (t :: rest) = match command stop t rest with
      | (d, []) => ([d], [])
      | (d, comma :: behind) =>
        if comma.kind = .comma then
          (d :: leaf comma :: (commands stop behind).1, (commands stop behind).2)
        else ([d], comma :: behind) := by
  rw [commands, if_pos named]
  split <;> next taken => rw [taken]

@[simp] theorem commands_map (toks : List Token) :
    commands (r.move stop) (toks.map r.token) = r.read (commands stop toks) := by
  fun_induction commands stop toks with
  | case1 => simp [commands, read]
  | case2 t rest named d taken =>
    have first := r.command_map stop t rest
    rw [taken] at first
    rw [List.map_cons, commands_of_named _ (t := r.token t) named, first]
    rfl
  | case3 t rest named d comma behind taken isComma others ih =>
    have first := r.command_map stop t rest
    rw [taken] at first
    rw [List.map_cons, commands_of_named _ (t := r.token t) named, first]
    simp [readOne, read, isComma, ih, others]
  | case4 t rest named d comma behind taken notComma =>
    have first := r.command_map stop t rest
    rw [taken] at first
    rw [List.map_cons, commands_of_named _ (t := r.token t) named, first]
    simp [readOne, read, notComma]
  | case5 t rest other =>
    rw [List.map_cons, commands, isName_token, kind_token, if_neg other]
    rfl

@[simp] theorem handlers_map (toks : List Token) :
    handlers (toks.map r.token) = r.read (handlers toks) := by
  have sets := r.takeIf_map (p := fun t => t.kind == .charSet) fun _ => rfl
  have actions := r.takeIf_map (p := fun t => t.kind == .action) fun _ => rfl
  fun_induction handlers toks with
  | case1 => simp [handlers, read]
  | case2 t rest word argument body ds left recur ih =>
    rw [recur] at ih
    rw [List.map_cons, handlers, isWord_token, isWord_token, if_pos word]
    simp only [sets, snd_read, actions, fst_read, leaf_token]
    rw [ih]
    simp [read, argument, body]
  | case3 t rest other =>
    rw [List.map_cons, handlers, isWord_token, isWord_token, if_neg other]
    rfl

/-- What is read of a rule body, without the bound on what is left. -/
def bodyOf (stop : Nat) (close : TokenKind) (toks : List Token) : Body :=
  (elements stop close toks).val

/-- One more element in front of a body. -/
def inFront (d : Derivation) (b : Body) : Body := ⟨d :: b.elements, b.left, b.closed⟩

theorem bodyOf_nil (close : TokenKind) : bodyOf stop close [] = ⟨[], [], false⟩ := by
  rw [bodyOf, elements]

theorem bodyOf_cons (close : TokenKind) (t : Token) (rest : List Token) :
    bodyOf stop close (t :: rest) =
      if t.kind = close then ⟨[], t :: rest, true⟩
      else if endsBody t rest then ⟨[], t :: rest, false⟩
      else if t.kind = .lparen then
        let inner := bodyOf stop .rparen rest
        let closing := expect .rparen "')'" stop inner.left
        inFront (construct .block t.span.start (leaf t :: inner.elements ++ [closing.1]))
          (bodyOf stop close closing.2)
      else if t.kind = .rparen then inFront (stray t) (bodyOf stop close rest)
      else if t.kind = .rarrow then
        inFront (construct .lexerCommands t.span.start (leaf t :: (commands stop rest).1))
          (bodyOf stop close (commands stop rest).2)
      else if t.kind = .punct && t.text = "<" then
        inFront (construct .elementOptions t.span.start (leaf t :: (untilAngle stop rest).1))
          (bodyOf stop close (untilAngle stop rest).2)
      else inFront (leaf t) (bodyOf stop close rest) := by
  rw [bodyOf, elements]
  split
  · rfl
  · split
    · rfl
    · split
      · rfl
      · split
        · rfl
        · split
          · rfl
          · split <;> rfl

/-- What was read of a rule body and what was left. -/
def body (b : Body) : Body := ⟨b.elements.map r.derivation, b.left.map r.token, b.closed⟩

@[simp] theorem bodyOf_map (close : TokenKind) (toks : List Token) :
    bodyOf (r.move stop) close (toks.map r.token) = r.body (bodyOf stop close toks) := by
  fun_induction elements stop close toks with
  | case1 close => simp [bodyOf_nil, body]
  | case2 t rest =>
    rw [List.map_cons, bodyOf_cons, bodyOf_cons, kind_token, if_pos rfl, if_pos rfl]
    rfl
  | case3 close t rest goes ends =>
    rw [List.map_cons, bodyOf_cons, bodyOf_cons, kind_token, if_neg goes, if_neg goes, endsBody_map,
      if_pos ends, if_pos ends]
    rfl
  | case4 close t rest goes inside opens inner closing shorter block ihInner ihRest =>
    have ds := r.construct_map .block t.span.start (leaf t :: inner.val.elements ++ [closing.1])
    simp only [List.map_cons, List.map_append, List.map_nil] at ds
    rw [List.map_cons, bodyOf_cons, bodyOf_cons, kind_token, if_neg goes, if_neg goes, endsBody_map,
      if_neg inside, if_neg inside, if_pos opens, if_pos opens]
    simp only [ihInner, body, expect_map, leaf_token]
    exact congr (congrArg inFront ds) ihRest
  | case5 close t rest goes inside noBlock closes ih =>
    rw [List.map_cons, bodyOf_cons, bodyOf_cons, kind_token, if_neg goes, if_neg goes, endsBody_map,
      if_neg inside, if_neg inside, if_neg noBlock, if_neg noBlock, if_pos closes, if_pos closes, ih,
      r.stray_token (by rw [closes]; rfl)]
    rfl
  | case6 close t rest goes inside noBlock noStray arrow list shorter group ih =>
    rw [List.map_cons, bodyOf_cons, bodyOf_cons, kind_token, if_neg goes, if_neg goes, endsBody_map,
      if_neg inside, if_neg inside, if_neg noBlock, if_neg noBlock, if_neg noStray, if_neg noStray,
      if_pos arrow, if_pos arrow, commands_map, snd_read, ih, fst_read, leaf_token, start_token,
      construct_cons]
    rfl
  | case7 close t rest goes inside noBlock noStray noArrow angle list shorter group ih =>
    rw [List.map_cons, bodyOf_cons, bodyOf_cons, punct_token, kind_token, if_neg goes, if_neg goes,
      endsBody_map, if_neg inside, if_neg inside, if_neg noBlock, if_neg noBlock, if_neg noStray,
      if_neg noStray, if_neg noArrow, if_neg noArrow, if_pos angle, if_pos angle, untilAngle_map,
      snd_read, ih, fst_read, leaf_token, start_token, construct_cons]
    rfl
  | case8 close t rest goes inside noBlock noStray noArrow noAngle ih =>
    rw [List.map_cons, bodyOf_cons, bodyOf_cons, punct_token, kind_token, if_neg goes, if_neg goes,
      endsBody_map, if_neg inside, if_neg inside, if_neg noBlock, if_neg noBlock, if_neg noStray,
      if_neg noStray, if_neg noArrow, if_neg noArrow, if_neg noAngle, if_neg noAngle, ih, leaf_token]
    rfl

@[simp] theorem prequel_map (toks : List Token) :
    prequel (r.move stop) (toks.map r.token) =
      ((prequel stop toks).1.map r.derivation, (prequel stop toks).2.1.map r.token,
        (prequel stop toks).2.2) := by
  fun_induction prequel stop toks with
  | case1 => simp [prequel]
  | case2 t rest early => simp [prequel, early]
  | case3 t rest late colon => simp [prequel, late, colon]
  | case4 t rest late other word opts ds out recur ih =>
    rw [recur] at ih
    rw [List.map_cons, prequel]
    simp only [startsRule_cons, isWord_token, kind_token, late, other, word, if_false, if_true,
      braced_map, readOne]
    rw [ih]
    rfl
  | case5 t rest late other word semi => simp [prequel, late, word, semi]
  | case6 t rest late other word more ds out recur ih =>
    rw [recur] at ih
    rw [List.map_cons, prequel]
    simp only [startsRule_cons, isWord_token, kind_token, late, other, word, more, if_false, ih]
    simp

@[simp] theorem ruleTail_map (toks : List Token) :
    ruleTail (r.move stop) (toks.map r.token) = r.read (ruleTail stop toks) := by
  have folded : ∀ toks, (elements stop .semi toks).val = bodyOf stop .semi toks := fun _ => rfl
  have folded' : ∀ toks, (elements (r.move stop) .semi toks).val =
      bodyOf (r.move stop) .semi toks := fun _ => rfl
  simp only [ruleTail, folded, folded', prequel_map]
  split
  · simp only [bodyOf_map, body, expect_map, handlers_map, here_map, construct_map,
      List.isEmpty_map, read, List.map_append, List.map_cons]
    congr 4
    split <;> simp
  · rfl

@[simp] theorem ruleSpec_map (name : RuleName) (t : Token) (rest : List Token) :
    ruleSpec name (r.move stop) (r.token t) (rest.map r.token) =
      r.readOne (ruleSpec name stop t rest) := by
  have first := r.takeIf_map (p := fun _ => true) (fun _ => rfl) rest
  have head : (if isWord "fragment" (r.token t) then takeIf (fun _ => true) (rest.map r.token)
      else ([], rest.map r.token)) =
      r.read (if isWord "fragment" t then takeIf (fun _ => true) rest else ([], rest)) := by
    rw [isWord_token, first]
    split <;> rfl
  simp only [ruleSpec, head, snd_read, fst_read, ruleTail_map, leaf_token, start_token,
    ← List.map_cons, ← List.map_append, construct_map]
  rfl

theorem item_map (t : Token) (rest : List Token) :
    item (r.move stop) (r.token t) (rest.map r.token) = r.readOne (item stop t rest) := by
  unfold item
  rw [kind_token]
  split
  · next keyword =>
    rw [r.text_token_of_not_name (by rw [keyword]; rfl)]
    split
    all_goals first
      | exact r.declaration_map stop _ t rest
      | exact r.braced_map stop _ t rest
      | exact r.ruleSpec_map stop _ t rest
      | rw [r.stray_token (by rw [keyword]; rfl)]; rfl
  · exact r.ruleSpec_map stop _ t rest
  · exact r.ruleSpec_map stop _ t rest
  · exact r.namedAction_map stop t rest
  · next noToken noRule _ =>
    have other : isNameKind t.kind = false := by
      rw [isNameKind, Bool.or_eq_false_iff]
      exact ⟨beq_eq_false_iff_ne.2 noRule, beq_eq_false_iff_ne.2 noToken⟩
    rw [r.stray_token other]
    rfl

theorem items_map (toks : List Token) :
    items (r.move stop) (toks.map r.token) = (items stop toks).map r.derivation := by
  fun_induction items stop toks with
  | case1 => simp [items]
  | case2 t rest next ih =>
    rw [List.map_cons, items, item_map]
    simp only [readOne, next] at ih ⊢
    rw [ih, List.map_cons]

theorem derive_map (toks : List Token) (start : r.move 0 = 0) :
    derive (r.move stop) (toks.map r.token) = r.derivation (derive stop toks) := by
  rw [derive, items_map, derive, derivation, derivations_eq_map, span, start]
  rfl

/-! ### Trees -/

mutual

@[simp] theorem flatten_derivation (d : Derivation) (parent : Option Nat) (id : Nat) :
    (r.derivation d).flatten parent id = (d.flatten parent id).map r.node := by
  cases d with
  | node kind span children =>
    rw [derivation, Derivation.flatten, Derivation.flatten, flattenAll_derivations children]
    rfl

@[simp] theorem flattenAll_derivations (ds : List Derivation) (parent : Option Nat) (id : Nat) :
    Derivation.flattenAll parent id (r.derivations ds) =
      ((Derivation.flattenAll parent id ds).1, (Derivation.flattenAll parent id ds).2.map r.node) := by
  cases ds with
  | nil => rfl
  | cons d rest =>
    rw [derivations, Derivation.flattenAll, Derivation.flattenAll, flatten_derivation d,
      List.length_map, flattenAll_derivations rest, List.map_append]

end

theorem toTree_derivation (d : Derivation) : (r.derivation d).toTree = r.tree d.toTree := by
  simp [Derivation.toTree, tree]

@[simp] theorem size_tree (t : SyntaxTree) : (r.tree t).size = t.size := by
  simp [tree, SyntaxTree.size]

@[simp] theorem node?_tree (t : SyntaxTree) (n : Nat) :
    (r.tree t).node? n = (t.node? n).map r.node := by
  simp [tree, SyntaxTree.node?]

theorem errorsOf_tree (t : SyntaxTree) : errorsOf (r.tree t) = errorsOf t := by
  unfold errorsOf
  rw [size_tree]
  congr 1
  funext n
  rw [SyntaxTree.kind?, SyntaxTree.kind?, node?_tree]
  cases t.node? n with
  | none => rfl
  | some node =>
    obtain ⟨kind, span, parent, children⟩ := node
    cases kind <;> rfl

/-- Reading the respelled tokens comes to respelling what was read. -/
theorem parse_of_tokenize {text text' : String} (start : r.move 0 = 0)
    (length : text'.length = r.move text.length)
    (tokens : tokenize text' =
      ((tokenize text).1.map r.token, (tokenize text).2.map r.comment)) :
    parse text' = r.parsed (parse text) := by
  simp only [parse, tokens, length, r.derive_map _ _ start, toTree_derivation, errorsOf_tree]
  rfl

end Respelling

end GrammarIndex.Grammar

import GrammarIndex.Proofs.Grammar.Lossless
import GrammarIndex.Proofs.Grammar.Respelled

/-!
What names are, with another name in some places.

Which terminals define a name and which refer to one is told from their kinds and places, and from
the reserved words and command names beside them. Where only names that are defined or referred to
become another one, none of this changes.
-/
namespace GrammarIndex.Grammar

open GrammarIndex.Derivation

/-! ### Finding the way -/

namespace Respelling

variable (r : Respelling) (t : SyntaxTree) (n : Nat)

@[simp] theorem kind?_tree :
    (r.tree t).kind? n = (t.kind? n).map (r.kind (t.spanOf n)) := by
  rw [SyntaxTree.kind?, SyntaxTree.kind?, SyntaxTree.spanOf, node?_tree]
  cases t.node? n <;> rfl

theorem spanOf_tree (start : r.move 0 = 0) : (r.tree t).spanOf n = r.span (t.spanOf n) := by
  rw [SyntaxTree.spanOf, SyntaxTree.spanOf, node?_tree]
  cases t.node? n with
  | none => simp [span, start]
  | some node => rfl

@[simp] theorem rule?_kind (s : Span) (k : NodeKind) : (r.kind s k).rule? = k.rule? := by
  cases k <;> rfl

@[simp] theorem token?_kind (s : Span) (k : NodeKind) : (r.kind s k).token? = k.token? := by
  cases k <;> rfl

@[simp] theorem isTerminal_kind (s : Span) (k : NodeKind) :
    (r.kind s k).isTerminal = k.isTerminal := by
  cases k <;> rfl

@[simp] theorem rule?_tree : (r.tree t).rule? n = t.rule? n := by
  rw [SyntaxTree.rule?, SyntaxTree.rule?, kind?_tree]
  cases t.kind? n <;> simp

@[simp] theorem token?_tree : (r.tree t).token? n = t.token? n := by
  rw [SyntaxTree.token?, SyntaxTree.token?, kind?_tree]
  cases t.kind? n <;> simp

@[simp] theorem isTerminal_tree : (r.tree t).isTerminal n = t.isTerminal n := by
  rw [SyntaxTree.isTerminal, SyntaxTree.isTerminal, kind?_tree]
  cases t.kind? n <;> simp

@[simp] theorem childrenOf_tree : (r.tree t).childrenOf n = t.childrenOf n := by
  rw [SyntaxTree.childrenOf, SyntaxTree.childrenOf, node?_tree]
  cases t.node? n <;> rfl

@[simp] theorem parent?_tree : (r.tree t).parent? n = t.parent? n := by
  rw [SyntaxTree.parent?, SyntaxTree.parent?, node?_tree]
  cases t.node? n <;> rfl

@[simp] theorem parentRule?_tree : (r.tree t).parentRule? n = t.parentRule? n := by
  rw [SyntaxTree.parentRule?, SyntaxTree.parentRule?, parent?_tree]
  exact congrArg _ (funext (r.rule?_tree t))

@[simp] theorem ancestor?_tree (rule : RuleName) :
    (r.tree t).ancestor? n rule = t.ancestor? n rule := by
  have within : ∀ steps n, (r.tree t).ancestorWithin rule steps n = t.ancestorWithin rule steps n := by
    intro steps
    induction steps with
    | zero => exact fun _ => rfl
    | succ steps ih =>
      intro n
      simp only [SyntaxTree.ancestorWithin, parent?_tree, rule?_tree, ih]
  rw [SyntaxTree.ancestor?, SyntaxTree.ancestor?, size_tree, within]

@[simp] theorem sibling?_tree (delta : Int) :
    (r.tree t).sibling? n delta = t.sibling? n delta := by
  simp only [SyntaxTree.sibling?, parent?_tree, childrenOf_tree]

@[simp] theorem terminals_tree : (r.tree t).terminals = t.terminals := by
  have from_ : ∀ depth n, (r.tree t).preorderFrom depth n = t.preorderFrom depth n := by
    intro depth
    induction depth with
    | zero => exact fun _ => rfl
    | succ depth ih =>
      intro n
      simp only [SyntaxTree.preorderFrom, childrenOf_tree, funext ih]
  simp only [SyntaxTree.terminals, SyntaxTree.preorder, size_tree, from_,
    funext (r.isTerminal_tree t)]

@[simp] theorem tokenIs_tree (kinds : List TokenKind) :
    tokenIs (r.tree t) n kinds = tokenIs t n kinds := by
  simp only [tokenIs, token?_tree]

@[simp] theorem below_tree (rule : RuleName) : below (r.tree t) n rule = below t n rule := by
  simp only [below, parentRule?_tree]

/-- What is no name keeps its text. -/
theorem text?_tree_of_not_name (other : ∀ k, t.token? n = some k → isNameKind k = false) :
    (r.tree t).text? n = t.text? n := by
  rw [SyntaxTree.token?] at other
  rw [SyntaxTree.text?, SyntaxTree.text?, kind?_tree]
  cases found : t.kind? n with
  | none => rfl
  | some kind =>
    cases kind with
    | terminal k held =>
      have plain : isNameKind k = false := other k (by rw [found]; rfl)
      exact congrArg some (r.text_of_not_name plain _ _)
    | rule name => rfl
    | error held => rfl

/-- A name has the new text if it is one of those that become the new name. -/
theorem text?_tree_of_terminal {k : TokenKind} {held : String}
    (found : t.kind? n = some (.terminal k held)) :
    (r.tree t).text? n = some (r.text k (t.spanOf n) held) := by
  rw [SyntaxTree.text?, kind?_tree, found]
  rfl

end Respelling

/-! ### Names and reserved words -/

/-- A name is a letter and more characters of names, and tells its kind. -/
theorem name_of_token {text : String} {t : Token} (member : t ∈ (tokenize text).1)
    (name : isNameKind t.kind = true) :
    isNameWith Char.isAlpha t.text.toList = true ∧ nameKind t.text.toList = t.kind := by
  obtain ⟨p, here, lexeme, held, _⟩ := exists_piece_of_token member
  obtain ⟨opensBlock, c, mid, rest, found, spelled⟩ :=
    exists_munch_of_mem_piecesFrom 0 false text.toList here
  rw [lexeme] at found
  have letter := isAlpha_of_munch (congrArg Prod.fst found) name
  rw [munch_letter opensBlock letter] at found
  have whole := takeWhile_of_length (congrArg Prod.snd found)
  have kind := congrArg Prod.fst found
  simp only [whole, Lexeme.token.injEq] at kind
  have all : mid.all isNameChar = true := by
    rw [← whole]
    exact List.all_takeWhile
  rw [← held, spelled, String.toList_ofList]
  exact ⟨by rw [isNameWith, letter, all]; rfl, kind⟩

theorem exists_token_of_terminal (text : String) {n : Nat} {k : TokenKind} {held : String}
    (found : (parse text).tree.kind? n = some (.terminal k held)) :
    ∃ t ∈ (tokenize text).1, t.kind = k ∧ t.text = held ∧ t.span = (parse text).tree.spanOf n := by
  obtain ⟨d, mirrors, part, _⟩ := part_of_node text (lt_size_of_kind? found)
  have kind : d.kind = .terminal k held := Option.some.inj (mirrors.kind.symm.trans found)
  rw [mirrors.span]
  cases part with
  | construct name span ds => cases kind
  | stray member => cases kind
  | missing what offset => cases kind
  | @leaf t member =>
    simp only [leaf, Derivation.kind] at kind
    split at kind
    · cases kind
    · cases kind
      exact ⟨t, member, rfl, rfl, rfl⟩

theorem isAlpha_of_firstLetter {c : Classification} {a : Char} (first : firstLetter c a = true) :
    a.isAlpha = true := by
  show (a.isUpper || a.isLower) = true
  cases c with
  | nonterminal => rw [show a.isLower = true from first, Bool.or_true]
  | terminal => rw [show a.isUpper = true from first, Bool.true_or]
  | _ => exact first

theorem validateName_eq_ok {c : Classification} {name : String} : validateName c name = .ok () ↔
    keywords.contains name = false ∧ isNameWith (firstLetter c) name.toList = true := by
  unfold validateName
  cases keywords.contains name <;> cases isNameWith (firstLetter c) name.toList <;> simp

theorem word_of_validateName {c : Classification} {name : String}
    (valid : validateName c name = .ok ()) : isNameWith Char.isAlpha name.toList = true := by
  obtain ⟨_, word⟩ := validateName_eq_ok.1 valid
  cases letters : name.toList with
  | nil => rw [letters] at word; cases word
  | cons a rest =>
    rw [letters, isNameWith, Bool.and_eq_true] at word
    rw [isNameWith, isAlpha_of_firstLetter word.1, word.2]
    rfl

/-- A text that is a name is one token. -/
theorem tokenize_name {name : String} (word : isNameWith Char.isAlpha name.toList = true) :
    tokenize name = ([⟨nameKind name.toList, name, ⟨0, name.length⟩⟩], []) := by
  cases letters : name.toList with
  | nil => rw [letters] at word; cases word
  | cons c cs =>
    rw [letters, isNameWith, Bool.and_eq_true] at word
    have all : cs.takeWhile isNameChar = cs :=
      List.takeWhile_eq_self_iff.2 (List.all_eq_true.1 word.2)
    have found : munch false c (cs ++ []) = (.token (nameKind (c :: cs)), cs.length) := by
      rw [List.append_nil, munch_letter false word.1, all]
    have cut := piecesFrom_of_munch found 0
    have none_ : ∀ offset opensBlock, piecesFrom offset opensBlock [] = [] := by
      intro offset opensBlock
      rw [piecesFrom]
    have size : name.length = 0 + 1 + cs.length := by
      rw [← String.length_toList, letters, List.length_cons]
      omega
    have spelled : String.ofList (c :: cs) = name := by rw [← letters, String.ofList_toList]
    simp only [List.append_nil, none_, spelled, ← size] at cut
    rw [tokenize, pieces, letters, cut]
    rfl

/-- A name is no reserved word. -/
theorem not_reserved {word : List Char} (name : isNameKind (nameKind word) = true) :
    keywords.contains (String.ofList word) = false := by
  unfold nameKind at name
  split at name
  · cases name
  · next free => exact Bool.eq_false_iff.2 free

/-! ### Lexer commands -/

theorem Built.fits_of_part {fits : RuleName → List Derivation → Prop} {stop : Nat}
    {ds : List Derivation} {left toks : List Token} (built : Built fits stop ds left toks) :
    ∀ d ∈ partsAll ds, ∀ name, d.kind = .rule name → fits name d.children := by
  induction built with
  | nil toks => exact fun d member => by cases member
  | leaf t rest =>
    rw [partsAll_leaf]
    rintro d member name rule
    rw [List.mem_singleton.1 member, Grammar.leaf, Derivation.kind] at rule
    split at rule <;> cases rule
  | stray t rest =>
    rw [partsAll_stray]
    rintro d member name rule
    rw [List.mem_singleton.1 member] at rule
    cases rule
  | missing what toks =>
    rw [partsAll_missing]
    rintro d member name rule
    rw [List.mem_singleton.1 member] at rule
    cases rule
  | construct fit _ inside =>
    rw [partsAll_construct]
    rintro d member name rule
    rcases List.mem_cons.1 member with rfl | member
    · cases rule
      exact fit
    · exact inside d member name rule
  | append _ _ one two =>
    rintro d member
    rw [partsAll_append, List.mem_append] at member
    exact member.elim (one d) (two d)

theorem tokenIs_iff {t : SyntaxTree} {n : Nat} {kinds : List TokenKind} :
    tokenIs t n kinds = true ↔ ∃ k, t.token? n = some k ∧ k ∈ kinds := by
  unfold tokenIs
  cases t.token? n with
  | none => simp
  | some k => simp

theorem exists_name_of_tokenIs {t : SyntaxTree} {n : Nat} {kinds : List TokenKind}
    (here : tokenIs t n kinds = true) (names : ∀ k ∈ kinds, isNameKind k = true) :
    ∃ k, t.token? n = some k ∧ isNameKind k = true := by
  obtain ⟨k, token, member⟩ := tokenIs_iff.1 here
  exact ⟨k, token, names k member⟩

/-- A terminal that refers to a name is a name, and stands for itself in a rule body or is an
argument. -/
theorem refers_cases {t : SyntaxTree} {defs : Table Nat Classification} {n : Nat}
    (refers : (dialect.reference? t defs n).isSome = true) :
    (∃ k, t.token? n = some k ∧ isNameKind k = true) ∧
      (isElement t defs n = true ∨ ∃ words, isArgumentOf words t n = true) := by
  have argument : ∀ words, isArgumentOf words t n = true →
      ∃ k, t.token? n = some k ∧ isNameKind k = true := by
    intro words holds
    simp only [isArgumentOf, Bool.and_eq_true] at holds
    exact exists_name_of_tokenIs holds.1.1.1 (by decide)
  rw [Dialect.reference?, Classifier.classify, Option.isSome_map] at refers
  obtain ⟨rule, found⟩ := Option.isSome_iff_exists.1 refers
  have holds := List.find?_some found
  have member := List.mem_of_find?_eq_some found
  simp only [dialect, referenceRules, List.mem_cons, List.not_mem_nil, or_false] at member
  rcases member with rfl | rfl | rfl | rfl
  · simp only [isParserRuleUse, Bool.and_eq_true] at holds
    exact ⟨exists_name_of_tokenIs holds.1 (by decide), .inl holds.2⟩
  · simp only [isLexerRuleUse, Bool.or_eq_true, Bool.and_eq_true] at holds
    rcases holds with element | inner
    · exact ⟨exists_name_of_tokenIs element.1 (by decide), .inl element.2⟩
    · exact ⟨argument _ inner, .inr ⟨_, inner⟩⟩
  · exact ⟨argument _ holds, .inr ⟨_, holds⟩⟩
  · exact ⟨argument _ holds, .inr ⟨_, holds⟩⟩

section Commands

variable (text : String) {p : Nat}
  (command : (parse text).tree.rule? p = some .lexerCommand)

include command

/-- In a lexer command a parenthesis opens behind the name only. -/
theorem opensSecond_of_command {i m : Nat} (child : ((parse text).tree.childrenOf p)[i]? = some m)
    (opens : (parse text).tree.token? m = some .lparen) : i = 1 := by
  have found := SyntaxTree.kind?_of_rule? command
  obtain ⟨d, member, mirrors⟩ : ∃ d ∈ (derive text.length (tokenize text).1).parts,
    Mirrors (parse text).tree p d := exists_part (lt_size_of_kind? found)
  have rule : d.kind = .rule .lexerCommand := Option.some.inj (mirrors.kind.symm.trans found)
  rw [parts_derive] at member
  rcases List.mem_cons.1 member with rfl | member
  · cases rule
  · have second : OpensSecond d.children :=
      (built_items text.length (tokenize text).1).fits_of_part d member _ rule rfl
    have kinds := congrArg (·[i]?) mirrors.kinds
    simp only [List.getElem?_map, child, Option.map_some] at kinds
    obtain ⟨d', child', kind'⟩ := Option.map_eq_some_iff.1 kinds.symm
    refine second i d' child' ?_
    rwa [SyntaxTree.token?, ← kind', Option.bind_some] at opens

theorem parent?_of_command {m : Nat} (child : m ∈ (parse text).tree.childrenOf p) :
    (parse text).tree.parent? m = some p := by
  obtain ⟨kind, found, _⟩ := Option.bind_eq_some_iff.1 command
  obtain ⟨_, mirrors, _⟩ := part_of_node text (lt_size_of_kind? found)
  exact mirrors.parent m child

/-- The name of a lexer command defines nothing and refers to nothing. -/
theorem unclassified_of_command {m : Nat} (first : ((parse text).tree.childrenOf p)[0]? = some m)
    (defs : Table Nat Classification) : dialect.definition? (parse text).tree defs m = none ∧
      dialect.reference? (parse text).tree defs m = none := by
  have parent := parent?_of_command text command (List.mem_of_getElem? first)
  constructor
  · rw [Option.eq_none_iff_forall_ne_some]
    intro c defines
    obtain ⟨rule, above, top⟩ := parentRule?_of_definition (Option.isSome_iff_exists.2 ⟨c, defines⟩)
    rw [SyntaxTree.parentRule?, parent, Option.bind_some, command] at above
    cases above
    cases top
  · rw [Option.eq_none_iff_forall_ne_some]
    intro c refers
    rcases (refers_cases (Option.isSome_iff_exists.2 ⟨c, refers⟩)).2 with element | ⟨words, argument⟩
    · have inside : (parse text).tree.ancestor? m .lexerCommand = some p := by
        obtain ⟨kind, found, _⟩ := Option.bind_eq_some_iff.1 command
        obtain ⟨steps, size⟩ := Nat.exists_eq_succ_of_ne_zero (Nat.ne_zero_of_lt
          (lt_size_of_kind? found))
        rw [SyntaxTree.ancestor?, size, SyntaxTree.ancestorWithin, parent]
        exact if_pos command
      simp [isElement, inside] at element
    · have before : ((parse text).tree.sibling? m (-1)).isSome = true := by
        unfold isArgumentOf at argument
        cases before : (parse text).tree.sibling? m (-1) with
        | none => simp [before] at argument
        | some prev => rfl
      obtain ⟨prev, before⟩ := Option.isSome_iff_exists.1 before
      obtain ⟨p', i, up, here, low, _⟩ := SyntaxTree.exists_of_sibling? before
      rw [parent] at up
      cases up
      have zero : ((parse text).tree.childrenOf p).findIdx? (· == m) = some 0 := by
        cases children : (parse text).tree.childrenOf p with
        | nil => rw [children] at first; cases first
        | cons c rest =>
          rw [children] at first
          cases first
          rw [List.findIdx?_cons, beq_self_eq_true, if_pos rfl]
      rw [zero] at here
      cases here
      omega

end Commands

/-- The name of a lexer command with an argument defines nothing and refers to nothing. -/
theorem unclassified_of_argument (text : String) {n prev m : Nat}
    (argument : below (parse text).tree n .lexerCommand = true)
    (before : (parse text).tree.sibling? n (-1) = some prev)
    (opens : tokenIs (parse text).tree prev [.lparen] = true)
    (first : (parse text).tree.sibling? n (-2) = some m) (defs : Table Nat Classification) :
    dialect.definition? (parse text).tree defs m = none ∧
      dialect.reference? (parse text).tree defs m = none := by
  obtain ⟨p, i, up, here, low, child⟩ := SyntaxTree.exists_of_sibling? before
  obtain ⟨p', i', up', here', low', child'⟩ := SyntaxTree.exists_of_sibling? first
  rw [up] at up'
  cases up'
  rw [here] at here'
  cases here'
  have command : (parse text).tree.rule? p = some .lexerCommand := by
    rw [below, SyntaxTree.parentRule?, up] at argument
    exact eq_of_beq argument
  obtain ⟨kind, opening, paren⟩ := tokenIs_iff.1 opens
  rw [List.mem_singleton.1 paren] at opening
  have second := opensSecond_of_command text command child opening
  have zero : ((i : Int) + -2).toNat = 0 := by omega
  rw [zero] at child'
  exact unclassified_of_command text command child' defs

/-! ### Classes -/

theorem mem_terminals {text : String} {n : Nat} {k : TokenKind} {held : String}
    (found : (parse text).tree.kind? n = some (.terminal k held)) :
    n ∈ (parse text).tree.terminals := by
  have inside : n < (derive text.length (tokenize text).1).size := by
    rw [← size_toTree]
    exact lt_size_of_kind? found
  refine List.mem_filter.2 ⟨?_, ?_⟩
  · rw [tree_parse, preorder_toTree]
    exact List.mem_range.2 inside
  · rw [SyntaxTree.isTerminal, found]
    rfl

/-- A terminal that defines a name is a name. -/
theorem exists_name_of_definition {t : SyntaxTree} {defs : Table Nat Classification} {n : Nat}
    (defines : (dialect.definition? t defs n).isSome = true) :
    ∃ k, t.token? n = some k ∧ isNameKind k = true := by
  rw [Dialect.definition?, Classifier.classify, Option.isSome_map] at defines
  obtain ⟨rule, found⟩ := Option.isSome_iff_exists.1 defines
  have holds := List.find?_some found
  have member := List.mem_of_find?_eq_some found
  simp only [dialect, definitionRules, List.mem_cons, List.not_mem_nil, or_false] at member
  rcases member with rfl | rfl | rfl | rfl | rfl
  · simp only [isParserRuleHead, Bool.and_eq_true] at holds
    exact exists_name_of_tokenIs holds.1.1 (by decide)
  · simp only [isLexerRuleHead, Bool.and_eq_true] at holds
    exact exists_name_of_tokenIs holds.1.1 (by decide)
  · simp only [isTokenEntry, Bool.and_eq_true] at holds
    exact exists_name_of_tokenIs holds.1 (by decide)
  · simp only [isModeName, Bool.and_eq_true] at holds
    exact exists_name_of_tokenIs holds.1.1 (by decide)
  · simp only [isChannelEntry, Bool.and_eq_true] at holds
    exact exists_name_of_tokenIs holds.1 (by decide)

/-- What is classified is a token with a name. -/
theorem exists_token_of_classified {text : String} {n : Nat} {defs : Table Nat Classification}
    (classified : (dialect.definition? (parse text).tree defs n).isSome = true ∨
      (dialect.reference? (parse text).tree defs n).isSome = true) :
    ∃ t ∈ (tokenize text).1, isNameKind t.kind = true ∧ t.text = (parse text).tree.textOf n ∧
      t.span = (parse text).tree.spanOf n := by
  obtain ⟨k, token, plain⟩ := classified.elim exists_name_of_definition fun refers =>
    (refers_cases refers).1
  obtain ⟨kind, here, isToken⟩ := Option.bind_eq_some_iff.1 token
  cases kind with
  | rule => cases isToken
  | error => cases isToken
  | terminal k' held =>
    cases isToken
    obtain ⟨t, listed, rfl, rfl, span⟩ := exists_token_of_terminal text here
    refine ⟨t, listed, plain, ?_, span⟩
    rw [SyntaxTree.textOf, SyntaxTree.text?, here]
    rfl

/-- The ranges are those of terminals that define a name or refer to one. -/
def Respelling.Marks (r : Respelling) (text : String) : Prop :=
  ∀ s ∈ r.spans, ∃ n ∈ (parse text).tree.terminals, (parse text).tree.spanOf n = s ∧
    ((dialect.definition? (parse text).tree ∅ n).isSome = true ∨
      (dialect.reference? (parse text).tree ∅ n).isSome = true)

namespace Respelling

/-- A reserved word stays where it was, and no other comes in. -/
theorem Fits.textIs_reserved {r : Respelling} {text : String} (fits : r.Fits text) {word : String}
    (reserved : keywords.contains word = true) (node : Option Nat) :
    textIs (r.tree (parse text).tree) node [word] = textIs (parse text).tree node [word] := by
  cases node with
  | none => rfl
  | some m =>
    simp only [textIs, Option.bind_some]
    by_cases named : ∃ k, (parse text).tree.token? m = some k ∧ isNameKind k = true
    · obtain ⟨k, token, name⟩ := named
      obtain ⟨kind, found, isToken⟩ := Option.bind_eq_some_iff.1 token
      cases kind with
      | rule => cases isToken
      | error => cases isToken
      | terminal k' held =>
        cases isToken
        obtain ⟨t, member, kind, rfl, _⟩ := exists_token_of_terminal text found
        have free : ∀ name : String, isNameKind (nameKind name.toList) = true → name ≠ word := by
          rintro name plain rfl
          have other := not_reserved plain
          rw [String.ofList_toList, reserved] at other
          cases other
        have old : t.text ≠ word := free _ (by
          rw [(name_of_token member (kind ▸ name)).2, kind, name])
        have new : r.text k ((parse text).tree.spanOf m) t.text ≠ word := by
          rw [Respelling.text]
          split
          · exact free _ fits.plain
          · exact old
        rw [r.text?_tree_of_terminal _ _ found, SyntaxTree.text?, found]
        simp [NodeKind.text?, old, new]
    · rw [r.text?_tree_of_not_name _ _ fun k token => Bool.eq_false_iff.2 fun name =>
        named ⟨k, token, name⟩]

/-- The same terminals define names. -/
theorem Fits.definition?_tree {r : Respelling} {text : String} (fits : r.Fits text)
    (defs : Table Nat Classification) (n : Nat) :
    dialect.definition? (r.tree (parse text).tree) defs n =
      dialect.definition? (parse text).tree defs n := by
  have fragment := fits.textIs_reserved (show keywords.contains "fragment" = true by decide)
  have mode := fits.textIs_reserved (show keywords.contains "mode" = true by decide)
  simp only [Dialect.definition?, Classifier.classify, dialect, definitionRules, List.find?_cons,
    List.find?_nil, isParserRuleHead, isLexerRuleHead, isTokenEntry, isModeName, isChannelEntry,
    tokenIs_tree, below_tree, sibling?_tree, fragment, mode]

/-- A terminal that is one of the names has the new name, any other keeps its text. -/
theorem Fits.textOf_tree {r : Respelling} {text : String} (fits : r.Fits text) {n : Nat}
    (terminal : n ∈ (parse text).tree.terminals) : (r.tree (parse text).tree).textOf n =
      if (parse text).tree.spanOf n ∈ r.spans then r.name else (parse text).tree.textOf n := by
  obtain ⟨k, held, found⟩ := kind_of_terminal terminal
  obtain ⟨t, member, rfl, rfl, span⟩ := exists_token_of_terminal text found
  rw [SyntaxTree.textOf, r.text?_tree_of_terminal _ _ found, SyntaxTree.textOf, SyntaxTree.text?,
    found, Respelling.text]
  by_cases listed : (parse text).tree.spanOf n ∈ r.spans
  · obtain ⟨p, here, lexeme, _, place⟩ := exists_piece_of_token member
    have named := fits.lexeme here (place.trans span ▸ listed)
    rw [lexeme] at named
    have name : isNameKind t.kind = true := by rw [Lexeme.token.inj named, fits.plain]
    simp [listed, name]
  · simp [listed, NodeKind.text?]

section Marks

variable {r : Respelling} {text : String} (marks : r.Marks text)

include marks

/-- The name of a lexer command with an argument stays. -/
theorem Marks.text?_command {n prev m : Nat}
    (argument : below (parse text).tree n .lexerCommand = true)
    (before : (parse text).tree.sibling? n (-1) = some prev)
    (opens : tokenIs (parse text).tree prev [.lparen] = true)
    (first : (parse text).tree.sibling? n (-2) = some m) :
    (r.tree (parse text).tree).text? m = (parse text).tree.text? m := by
  cases found : (parse text).tree.kind? m with
  | none => rw [SyntaxTree.text?, SyntaxTree.text?, r.kind?_tree, found]; rfl
  | some kind =>
    cases kind with
    | rule => rw [SyntaxTree.text?, SyntaxTree.text?, r.kind?_tree, found]; rfl
    | error => rw [SyntaxTree.text?, SyntaxTree.text?, r.kind?_tree, found]; rfl
    | terminal k held =>
      have unlisted : (parse text).tree.spanOf m ∉ r.spans := by
        intro listed
        obtain ⟨m', terminal, same, classified⟩ := marks _ listed
        obtain rfl := spanOf_inj text (mem_terminals found) terminal same
        have neither := unclassified_of_argument text argument before opens first ∅
        rw [neither.1, neither.2] at classified
        rcases classified with none_ | none_ <;> cases none_
      rw [r.text?_tree_of_terminal _ _ found, SyntaxTree.text?, found, Respelling.text]
      simp [unlisted, NodeKind.text?]

theorem Marks.isArgumentOf_tree (words : List String) (n : Nat) :
    isArgumentOf words (r.tree (parse text).tree) n = isArgumentOf words (parse text).tree n := by
  simp only [isArgumentOf, tokenIs_tree, below_tree, sibling?_tree]
  cases argument : below (parse text).tree n .lexerCommand with
  | false => simp
  | true =>
    cases before : (parse text).tree.sibling? n (-1) with
    | none => simp
    | some prev =>
      cases opens : tokenIs (parse text).tree prev [.lparen] with
      | false => simp [opens]
      | true =>
        cases first : (parse text).tree.sibling? n (-2) with
        | none => rfl
        | some m =>
          simp only [textIs, Option.bind_some, marks.text?_command argument before opens first]

/-- The same terminals refer to names. -/
theorem Marks.reference?_tree (defs : Table Nat Classification) (n : Nat) :
    dialect.reference? (r.tree (parse text).tree) defs n =
      dialect.reference? (parse text).tree defs n := by
  simp only [Dialect.reference?, Classifier.classify, dialect, referenceRules, List.find?_cons,
    List.find?_nil, isParserRuleUse, isLexerRuleUse, isModeUse, isChannelUse, isElement,
    tokenIs_tree, ancestor?_tree, sibling?_tree, marks.isArgumentOf_tree]

end Marks

end Respelling

end GrammarIndex.Grammar

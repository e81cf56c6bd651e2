import GrammarIndex.Proofs.Grammar.Reads
import GrammarIndex.Proofs.Grammar.Reclassified
import GrammarIndex.Proofs.Grammar.RuleStarts

/-!
What a terminal is, decided in one way only.

The tests on a terminal exclude each other. What a definition is, is told by the construct it stands
in; what a reference is, by its kind, or in a lexer command by the name of the command. So the order
of the tests does not matter, and neither does what is known of a file so far. And a rule defines
its own name and nothing else: a parser rule has its name in front, a lexer rule has it in front or
behind the word `fragment`, which stands nowhere else in a rule.
-/
namespace GrammarIndex.Grammar

open GrammarIndex.Derivation

/-! ### Tests that exclude each other -/

section Lists

variable {α κ : Type} {p : α → Bool} {k : κ} {l : List α} {keys : List κ}

/-- What satisfies a test has its key among those of the list. -/
theorem key_mem (told : List.Forall₂ (fun a k' => p a = true → k = k') l keys) {a : α}
    (member : a ∈ l) (holds : p a = true) : k ∈ keys := by
  induction told with
  | nil => cases member
  | cons key _ ih =>
    rcases List.mem_cons.1 member with rfl | member
    · exact key holds ▸ List.mem_cons_self
    · exact List.mem_cons_of_mem _ (ih member)

/-- Where a test can hold for one key only and no key is given twice, it holds once at most. -/
theorem length_filter_le_one (told : List.Forall₂ (fun a k' => p a = true → k = k') l keys)
    (different : keys.Nodup) : (l.filter p).length ≤ 1 := by
  induction told with
  | nil => exact Nat.zero_le 1
  | cons key behind ih =>
    obtain ⟨new, different⟩ := List.nodup_cons.1 different
    rw [List.filter_cons]
    split
    · next holds =>
      have none_ : List.filter p _ = [] := List.filter_eq_nil_iff.2 fun a member holds' =>
        new (key holds ▸ key_mem behind member holds')
      rw [none_, List.length_singleton]
    · exact ih different

/-- Where a test can hold in one place only, it holds once at most. -/
theorem length_filter_le_one_of_place {m : Nat}
    (place : ∀ i a, l[i]? = some a → p a = true → i = m) : (l.filter p).length ≤ 1 := by
  have told : List.Forall₂ (fun a k' => p a = true → m = k') l (List.range l.length) := by
    refine List.forall₂_iff_get.2 ⟨List.length_range.symm, fun i inside _ holds => ?_⟩
    rw [List.get_eq_getElem, List.getElem_range]
    exact (place i l[i] (List.getElem?_eq_getElem inside) holds).symm
  exact length_filter_le_one told List.nodup_range

theorem eq_of_perm_of_length {l l' : List α} (perm : l'.Perm l) (short : l.length ≤ 1) :
    l' = l := by
  match l, short with
  | [], _ => exact List.perm_nil.1 perm
  | [a], _ => exact List.perm_singleton.1 perm

end Lists

/-- Of tests that exclude each other any order decides the same. -/
theorem classify_of_perm {rules rules' : Classifier} {tree : SyntaxTree}
    {defs : Table Nat Classification} {n : Nat} (perm : rules'.Perm rules)
    (once : (rules.filter fun r => r.2 tree defs n).length ≤ 1) :
    rules'.classify tree defs n = rules.classify tree defs n := by
  have same := eq_of_perm_of_length (perm.filter fun r => r.2 tree defs n) once
  rw [Classifier.classify, Classifier.classify, ← List.head?_filter, ← List.head?_filter, same]

theorem filter_of_classify_none (rules : Classifier) {tree : SyntaxTree}
    {defs : Table Nat Classification} {n : Nat} (none_ : rules.classify tree defs n = none) :
    (rules.filter fun r => r.2 tree defs n) = [] := by
  rw [Classifier.classify, Option.map_eq_none_iff, List.find?_eq_none] at none_
  exact List.filter_eq_nil_iff.2 none_

/-! ### What the tests tell -/

section Tests

variable {tree : SyntaxTree} {defs : Table Nat Classification} {n : Nat}

theorem below_iff {name : RuleName} :
    below tree n name = true ↔ tree.parentRule? n = some name := by
  rw [below, beq_iff_eq]

theorem textIs_iff {node : Option Nat} {words : List String} :
    textIs tree node words = true ↔ ∃ word, node.bind tree.text? = some word ∧ word ∈ words := by
  unfold textIs
  cases node.bind tree.text? with
  | none => simp
  | some word => simp

/-- The class of the names that a lexer command takes. -/
def argumentClass (command : String) : Classification :=
  if command = "type" then .terminal else if command = "channel" then .channel else .mode

/-- The class of the names that a terminal can refer to: a command says it for its argument, and
otherwise the terminal is of a kind that names rules of one class. -/
def referredClass (tree : SyntaxTree) (n : Nat) : Option Classification :=
  if below tree n .lexerCommand then
    ((tree.sibling? n (-2)).bind tree.text?).map argumentClass
  else if tokenIs tree n [.ruleRef] then some .nonterminal
  else some .terminal

theorem definitionRules_exclusive (tree : SyntaxTree) (defs : Table Nat Classification) (n : Nat) :
    (definitionRules.filter fun r => r.2 tree defs n).length ≤ 1 := by
  have told : List.Forall₂ (fun r k => r.2 tree defs n = true → tree.parentRule? n = k)
      definitionRules [some .parserRuleSpec, some .lexerRuleSpec, some .tokensSpec, some .modeSpec,
        some .channelsSpec] := by
    refine .cons ?_ (.cons ?_ (.cons ?_ (.cons ?_ (.cons ?_ .nil))))
    all_goals
      intro holds
      simp only [isParserRuleHead, isLexerRuleHead, isTokenEntry, isModeName, isChannelEntry,
        Bool.and_eq_true, below_iff] at holds
      first
        | exact holds.1.2
        | exact holds.2
  exact length_filter_le_one told (by decide)

/-- What stands for itself in a rule body stands in no lexer command. -/
theorem below_of_isElement (element : isElement tree defs n = true) :
    below tree n .lexerCommand = false := by
  rw [Bool.eq_false_iff]
  intro inside
  have above := ancestor?_of_parentRule? (below_iff.1 inside)
  simp only [isElement, Bool.and_eq_true, Option.isNone_iff_eq_none] at element
  exact above element.1.2

theorem word_of_isArgumentOf {commands : List String}
    (argument : isArgumentOf commands tree n = true) : below tree n .lexerCommand = true ∧
      ∃ word ∈ commands, (tree.sibling? n (-2)).bind tree.text? = some word := by
  simp only [isArgumentOf, Bool.and_eq_true] at argument
  obtain ⟨word, read, listed⟩ := textIs_iff.1 argument.2
  exact ⟨argument.1.1.2, word, listed, read⟩

theorem referenceRules_exclusive (tree : SyntaxTree) (defs : Table Nat Classification) (n : Nat) :
    (referenceRules.filter fun r => r.2 tree defs n).length ≤ 1 := by
  have told : List.Forall₂ (fun r k => r.2 tree defs n = true → referredClass tree n = k)
      referenceRules [some .nonterminal, some .terminal, some .mode, some .channel] := by
    have asked : ∀ {commands c}, (∀ word ∈ commands, argumentClass word = c) →
        isArgumentOf commands tree n = true → referredClass tree n = some c := by
      intro commands c same argument
      obtain ⟨inside, word, listed, read⟩ := word_of_isArgumentOf argument
      rw [referredClass, if_pos inside, read, Option.map_some, same word listed]
    refine .cons ?_ (.cons ?_ (.cons ?_ (.cons ?_ .nil))) <;> intro holds
    · simp only [isParserRuleUse, Bool.and_eq_true] at holds
      rw [referredClass, below_of_isElement holds.2, if_neg Bool.false_ne_true, if_pos holds.1]
    · simp only [isLexerRuleUse, Bool.or_eq_true, Bool.and_eq_true] at holds
      rcases holds with ⟨kind, element⟩ | argument
      · obtain ⟨k, token, listed⟩ := tokenIs_iff.1 kind
        have other : tokenIs tree n [.ruleRef] = false := by
          rw [tokenIs, token, List.mem_singleton.1 listed]
          rfl
        rw [referredClass, below_of_isElement element, if_neg Bool.false_ne_true, other,
          if_neg Bool.false_ne_true]
      · exact asked (by decide) argument
    · exact asked (by decide) holds
    · exact asked (by decide) holds
  exact length_filter_le_one told (by decide)

end Tests

/-- At most one of all tests holds of a terminal. -/
theorem rules_exclusive (text : String) (defs : Table Nat Classification) (n : Nat) :
    ((definitionRules ++ referenceRules).filter
      fun r => r.2 (parse text).tree defs n).length ≤ 1 := by
  rw [List.filter_append, List.length_append]
  have one := definitionRules_exclusive (parse text).tree defs n
  have other := referenceRules_exclusive (parse text).tree defs n
  cases defines : dialect.definition? (parse text).tree defs n with
  | none =>
    rw [filter_of_classify_none definitionRules defines]
    simpa using other
  | some c =>
    have none_ : dialect.reference? (parse text).tree defs n = none :=
      reference?_of_definition text (Option.isSome_iff_exists.2 ⟨c, defines⟩)
    rw [filter_of_classify_none referenceRules none_]
    simpa using one

/-- What is known of a file so far does not matter, as long as only what defines a name is known to
do so. -/
theorem reference?_of_known (text : String) {known : Table Nat Classification}
    (sound : ∀ m, known.contains m = true →
      (dialect.definition? (parse text).tree known m).isSome = true) (n : Nat) :
    dialect.reference? (parse text).tree known n = dialect.reference? (parse text).tree ∅ n := by
  cases held : known.contains n with
  | true =>
    have defines := sound n held
    rw [reference?_of_definition text defines, reference?_of_definition text defines]
  | false =>
    exact reference?_congr held

/-! ### The children of a rule -/

theorem text?_leaf (t : Token) : (leaf t).kind.text? = some t.text := by
  simp only [leaf, Derivation.kind]
  split <;> rfl

/-- What reads like a reserved word is one. -/
theorem kind_of_keyword {text : String} {t : Token} (member : t ∈ (tokenize text).1)
    (word : isNameWith Char.isAlpha t.text.toList = true)
    (reserved : keywords.contains t.text = true) : t.kind = .keyword := by
  obtain ⟨p, here, lexeme, held, _⟩ := exists_piece_of_token member
  obtain ⟨opensBlock, c, mid, rest, found, spelled⟩ :=
    exists_munch_of_mem_piecesFrom 0 false text.toList here
  rw [← held, spelled] at word reserved
  rw [String.toList_ofList, isNameWith, Bool.and_eq_true] at word
  rw [lexeme, munch_letter opensBlock word.1] at found
  have whole := takeWhile_of_length (congrArg Prod.snd found)
  have kind := congrArg Prod.fst found
  simp only [whole, nameKind, reserved, if_true, Lexeme.token.injEq] at kind
  exact kind.symm

/-- The tokens that read like the word `fragment` are reserved words. -/
def Spelled (toks : List Token) : Prop := ∀ t ∈ toks, t.text = "fragment" → t.kind = .keyword

theorem spelled_tokens (text : String) : Spelled (tokenize text).1 := by
  intro t member same
  refine kind_of_keyword member ?_ ?_ <;> rw [same] <;> decide

/-- A child that is not the word `fragment`. -/
def Unmarked (d : Derivation) : Prop := d.kind.text? ≠ some "fragment"

theorem unmarked_leaf {toks : List Token} (spelled : Spelled toks) {t : Token} (member : t ∈ toks)
    (other : isWord "fragment" t = false) : Unmarked (leaf t) := by
  rw [Unmarked, text?_leaf]
  intro same
  have text := Option.some.inj same
  simp [isWord, text, spelled t member text] at other

section Children

variable (stop : Nat)

theorem unmarked_prequel {toks : List Token} (spelled : Spelled toks) :
    ∀ d ∈ (prequel stop toks).1, Unmarked d := by
  have noted : ∀ offset, Unmarked (missing "':'" offset) := fun _ same =>
    absurd (Option.some.inj same) (by decide)
  fun_induction prequel stop toks with
  | case1 => exact fun d member => List.mem_singleton.1 member ▸ noted stop
  | case2 t rest => exact fun d member => List.mem_singleton.1 member ▸ noted _
  | case3 t rest idle colon =>
    simp only [Bool.or_eq_true, not_or, Bool.not_eq_true] at idle
    exact fun d member =>
      List.mem_singleton.1 member ▸ unmarked_leaf spelled List.mem_cons_self idle.1.2
  | case4 t rest _ _ _ opts ds out recur ih =>
    rw [recur] at ih
    have later : opts.2 <:+ t :: rest :=
      Built.suffix (built_braced stop .optionsSpec t rest : Built Inner stop _ _ (t :: rest))
    intro d member
    rcases List.mem_cons.1 member with rfl | member
    · intro same
      cases same
    · exact ih (fun t' within => spelled t' (later.subset within)) d member
  | case5 t rest idle =>
    simp only [Bool.or_eq_true, not_or, Bool.not_eq_true] at idle
    intro d member
    rcases List.mem_cons.1 member with rfl | member
    · exact noted _
    · exact List.mem_singleton.1 member ▸ unmarked_leaf spelled List.mem_cons_self idle.1.2
  | case6 t rest idle _ _ _ ds out recur ih =>
    rw [recur] at ih
    simp only [Bool.or_eq_true, not_or, Bool.not_eq_true] at idle
    intro d member
    rcases List.mem_cons.1 member with rfl | member
    · exact unmarked_leaf spelled List.mem_cons_self idle.1.2
    · exact ih (fun t' within => spelled t' (List.mem_cons_of_mem _ within)) d member

theorem unmarked_expect {toks : List Token} (spelled : Spelled toks) :
    Unmarked (expect .semi "';'" stop toks).1 := by
  cases toks with
  | nil => exact fun same => absurd (Option.some.inj same) (by decide)
  | cons t rest =>
    simp only [expect]
    split
    · next semi => exact unmarked_leaf spelled List.mem_cons_self (by simp [isWord, semi])
    · exact fun same => absurd (Option.some.inj same) (by decide)

/-- Behind its name no child of a rule is the word `fragment`. -/
theorem unmarked_ruleTail {toks : List Token} (spelled : Spelled toks) :
    ∀ d ∈ (ruleTail stop toks).1, Unmarked d := by
  have before := unmarked_prequel stop spelled
  simp only [ruleTail]
  split
  · have last : (elements stop .semi (prequel stop toks).2.1).val.left <:+ toks :=
      (built_elements stop .semi (prequel stop toks).2.1).suffix.trans
        (built_prequel stop toks).suffix
    have closing := unmarked_expect stop fun t within => spelled t (last.subset within)
    intro d member
    simp only [List.mem_append, List.mem_cons] at member
    rcases member with member | rfl | rfl | member
    · exact before d member
    · intro same
      cases same
    · exact closing
    · split at member
      · cases member
      · rw [List.mem_singleton.1 member]
        intro same
        cases same
  · exact before

theorem readerOf_ne {name : RuleName} (spec : name ∈ ruleSpecs) (kind : TokenKind)
    (text : String) : readerOf kind text ≠ .declaration name ∧
      readerOf kind text ≠ .braced name := by
  simp only [ruleSpecs, List.mem_cons, List.not_mem_nil, or_false] at spec
  unfold readerOf
  rcases spec with rfl | rfl <;> split <;> (try split) <;> decide

theorem kind_of_parserRule {kind : TokenKind} {text : String}
    (reads : readerOf kind text = .ruleSpec .parserRuleSpec) : kind = .ruleRef := by
  unfold readerOf at reads
  split at reads
  · split at reads <;> cases reads
  all_goals first
    | rfl
    | cases reads

theorem kind_of_lexerRule {t : Token} (reads : readerOf t.kind t.text = .ruleSpec .lexerRuleSpec) :
    t.kind = .tokenRef ∨ isWord "fragment" t = true := by
  unfold readerOf at reads
  split at reads
  · next keyword =>
    split at reads
    all_goals first
      | (cases reads; done)
      | simp [isWord, *]
  · next name => exact .inl name
  all_goals cases reads

/-- A rule at the top is read from the token that it starts with. -/
theorem exists_ruleSpec_of_mem_items {toks : List Token} {d : Derivation} {name : RuleName}
    (spec : name ∈ ruleSpecs) (member : d ∈ items stop toks) (kind : d.kind = .rule name) :
    ∃ t rest, t :: rest <:+ toks ∧ d = (ruleSpec name stop t rest).1 ∧
      readerOf t.kind t.text = .ruleSpec name := by
  fun_induction items stop toks with
  | case1 => cases member
  | case2 t rest next ih =>
    rcases List.mem_cons.1 member with rfl | member
    · refine ⟨t, rest, List.suffix_refl _, ?_⟩
      have others := readerOf_ne spec t.kind t.text
      simp only [next, item_eq] at kind ⊢
      generalize readerOf t.kind t.text = reader at kind others ⊢
      cases reader with
      | declaration name' => cases kind; exact absurd rfl others.1
      | braced name' => cases kind; exact absurd rfl others.2
      | ruleSpec name' => cases kind; exact ⟨rfl, rfl⟩
      | namedAction => cases kind; simp [ruleSpecs] at spec
      | stray => cases kind
    · obtain ⟨t', rest', later, found⟩ := ih member
      exact ⟨t', rest', later.trans ((suffix_item stop t rest).trans (List.suffix_cons t rest)),
        found⟩

/-- Where a rule can have its name: in front, or behind the word `fragment`. -/
def NamedAt (ds : List Derivation) (k : Nat) : Prop :=
  (∃ d, ds[k]? = some d ∧ d.kind.token? = some .tokenRef) ∧
    ∀ j, k = j + 1 → ∃ d, ds[j]? = some d ∧ d.kind.text? = some "fragment"

theorem NamedAt.le (front : List Derivation) {tail : List Derivation}
    (plain : ∀ d ∈ tail, Unmarked d) {k : Nat} (named : NamedAt (front ++ tail) k) :
    k ≤ front.length := by
  cases k with
  | zero => exact Nat.zero_le _
  | succ j =>
    obtain ⟨d, here, word⟩ := named.2 j rfl
    refine Nat.lt_of_not_le fun late => ?_
    rw [List.getElem?_append_right late] at here
    exact plain d (List.mem_of_getElem? here) word

theorem NamedAt.kind {ds : List Derivation} {k : Nat} (named : NamedAt ds k) {t : Token}
    (here : ds[k]? = some (leaf t)) : t.kind = .tokenRef := by
  obtain ⟨⟨d, found, token⟩, _⟩ := named
  cases here.symm.trans found
  exact token?_leaf token

theorem NamedAt.keyword {ds : List Derivation} {k : Nat} (named : NamedAt ds (k + 1)) {t : Token}
    (here : ds[k]? = some (leaf t)) (spelled : t.text = "fragment" → t.kind = .keyword) :
    t.kind = .keyword := by
  obtain ⟨d, found, word⟩ := named.2 k rfl
  cases here.symm.trans found
  rw [text?_leaf] at word
  exact spelled (Option.some.inj word)

/-- A lexer rule has one place for its name. -/
theorem namedAt_unique {toks : List Token} (spelled : Spelled toks) {t : Token}
    {rest : List Token} (later : t :: rest <:+ toks)
    (first : t.kind = .tokenRef ∨ isWord "fragment" t = true) :
    ∃ m, ∀ k, NamedAt (ruleSpec .lexerRuleSpec stop t rest).1.children k → k = m := by
  have behind : ∀ {toks'}, toks' <:+ rest → ∀ d ∈ (ruleTail stop toks').1, Unmarked d :=
    fun suffix => unmarked_ruleTail stop fun t' member =>
      spelled t' (later.subset (List.mem_cons_of_mem _ (suffix.subset member)))
  have keyword := spelled t (later.subset List.mem_cons_self)
  by_cases word : isWord "fragment" t = true
  · have kind : t.kind = .keyword := by
      rw [isWord, Bool.and_eq_true, beq_iff_eq] at word
      exact word.1
    have other : ∀ {ds}, ¬ NamedAt (leaf t :: ds) 0 := fun named => by
      have name := named.kind rfl
      rw [kind] at name
      cases name
    simp only [ruleSpec, word, if_true, construct, Derivation.children, List.cons_append]
    cases rest with
    | nil =>
      refine ⟨1, fun k named => ?_⟩
      have early : k ≤ 1 := NamedAt.le [leaf t] (behind List.nil_suffix) named
      obtain rfl | rfl : k = 0 ∨ k = 1 := by omega
      · exact absurd named other
      · rfl
    | cons t' rest =>
      have keyword' := spelled t' (later.subset (by simp))
      refine ⟨if t'.kind = .tokenRef then 1 else 2, fun k named => ?_⟩
      have early : k ≤ 2 :=
        NamedAt.le [leaf t, leaf t'] (behind (List.suffix_cons t' rest)) named
      obtain rfl | rfl | rfl : k = 0 ∨ k = 1 ∨ k = 2 := by omega
      · exact absurd named other
      · rw [if_pos (named.kind rfl)]
      · rw [named.keyword rfl keyword', if_neg (by decide)]
  · have kind := first.resolve_right word
    simp only [ruleSpec, word, construct, Derivation.children]
    refine ⟨0, fun k named => ?_⟩
    have early : k ≤ 1 := NamedAt.le [leaf t] (behind (List.suffix_refl rest)) named
    obtain rfl | rfl : k = 0 ∨ k = 1 := by omega
    · rfl
    · have reserved := named.keyword rfl keyword
      rw [kind] at reserved
      cases reserved

end Children

/-! ### The definitions of a rule -/

/-- The children of a node that define names. -/
def definedIn (tree : SyntaxTree) (defs : Table Nat Classification) (p : Nat) : List Nat :=
  (tree.childrenOf p).filter fun c => (dialect.definition? tree defs c).isSome

section Definitions

variable {tree : SyntaxTree} {defs : Table Nat Classification} {c : Nat}

/-- Directly in a parser rule only its name is a definition. -/
theorem definition?_in_parserRule (parent : tree.parentRule? c = some .parserRuleSpec) :
    dialect.definition? tree defs c =
      if isParserRuleHead tree defs c then some .nonterminal else none := by
  have elsewhere : ∀ name ≠ .parserRuleSpec, below tree c name = false := fun name other => by
    rw [Bool.eq_false_iff, Ne, below_iff, parent]
    exact fun same => other (Option.some.inj same).symm
  simp only [Dialect.definition?, Classifier.classify, dialect, definitionRules, List.find?_cons,
    List.find?_nil, isLexerRuleHead, isTokenEntry, isModeName, isChannelEntry, ne_eq,
    reduceCtorEq, not_false_eq_true, elsewhere, Bool.and_false, Bool.false_and]
  cases isParserRuleHead tree defs c <;> rfl

/-- Directly in a lexer rule only its name is a definition. -/
theorem definition?_in_lexerRule (parent : tree.parentRule? c = some .lexerRuleSpec) :
    dialect.definition? tree defs c =
      if isLexerRuleHead tree defs c then some .terminal else none := by
  have elsewhere : ∀ name ≠ .lexerRuleSpec, below tree c name = false := fun name other => by
    rw [Bool.eq_false_iff, Ne, below_iff, parent]
    exact fun same => other (Option.some.inj same).symm
  simp only [Dialect.definition?, Classifier.classify, dialect, definitionRules, List.find?_cons,
    List.find?_nil, isParserRuleHead, isTokenEntry, isModeName, isChannelEntry, ne_eq,
    reduceCtorEq, not_false_eq_true, elsewhere, Bool.and_false, Bool.false_and]
  cases isLexerRuleHead tree defs c <;> rfl

end Definitions

section Rules

variable (text : String) {p : Nat}

theorem kinds_partsAll (ds : List Derivation) : (partsAll ds).map (·.kind) = kindsAll ds := by
  have pairs := congrArg (List.map Prod.fst) (map_flattenAll ds none 0)
  rw [List.map_map, List.map_map] at pairs
  exact pairs.symm.trans (map_kind_flattenAll ds none 0)

/-- Among what is below, only children are constructs of the top. -/
theorem mem_of_isTop {ds : List Derivation}
    (nested : ∀ d ∈ ds, ∀ k ∈ kindsAll d.children, isTop k = false) {d : Derivation}
    (part : d ∈ partsAll ds) (top : isTop d.kind = true) : d ∈ ds := by
  induction ds with
  | nil => cases part
  | cons first rest ih =>
    rw [partsAll, List.mem_append] at part
    rcases part with part | part
    · obtain ⟨kind, span, children⟩ := first
      rw [parts] at part
      rcases List.mem_cons.1 part with rfl | below
      · exact List.mem_cons_self
      · have inner := nested _ List.mem_cons_self d.kind
          (kinds_partsAll children ▸ List.mem_map_of_mem below)
        rw [top] at inner
        cases inner
    · have nested' := fun d member => nested d (List.mem_cons_of_mem first member)
      exact List.mem_cons_of_mem _ (ih nested' part)

/-- The node of a rule stands for what was read from the token that the rule starts with. -/
theorem exists_ruleSpec_of_rule? {name : RuleName} (spec : name ∈ ruleSpecs)
    (rule : (parse text).tree.rule? p = some name) :
    ∃ t rest, t :: rest <:+ (tokenize text).1 ∧
      Mirrors (parse text).tree p (ruleSpec name text.length t rest).1 ∧
      readerOf t.kind t.text = .ruleSpec name := by
  have found := SyntaxTree.kind?_of_rule? rule
  obtain ⟨d, member, mirrors⟩ : ∃ d ∈ (derive text.length (tokenize text).1).parts,
    Mirrors (parse text).tree p d := exists_part (lt_size_of_kind? found)
  have kindD : d.kind = .rule name := Option.some.inj (mirrors.kind.symm.trans found)
  have top : isTop d.kind = true := by
    simp only [ruleSpecs, List.mem_cons, List.not_mem_nil, or_false] at spec
    rcases spec with rfl | rfl <;> rw [kindD] <;> rfl
  rw [parts_derive] at member
  rcases List.mem_cons.1 member with rfl | member
  · cases top
  · obtain ⟨t, rest, later, rfl, reads⟩ := exists_ruleSpec_of_mem_items text.length spec
      (mem_of_isTop (items_spec _ _).2 member top) kindD
    exact ⟨t, rest, later, mirrors, reads⟩

/-- The leaf in front of a child. -/
theorem sibling?_before {c k : Nat} {d : Derivation} (mirrors : Mirrors (parse text).tree p d)
    (child : ((parse text).tree.childrenOf p)[k]? = some c) :
    (parse text).tree.sibling? c (-1) =
      if k = 0 then none else ((parse text).tree.childrenOf p)[k - 1]? := by
  have ascending : ((parse text).tree.childrenOf p).Pairwise (· < ·) :=
    childrenOf_ascending (derive text.length (tokenize text).1) p
  rw [SyntaxTree.sibling?_of_child ascending (mirrors.parent c (List.mem_of_getElem? child)) child]
  cases k with
  | zero => rfl
  | succ k =>
    have inside : ¬ ((k + 1 : Nat) : Int) + -1 < 0 := by omega
    have place : (((k + 1 : Nat) : Int) + -1).toNat = k := by omega
    rw [if_neg inside, place, if_neg (Nat.succ_ne_zero k), Nat.add_sub_cancel]

/-- The one definition of a parser rule is its first child. -/
theorem definedIn_parserRule (defs : Table Nat Classification)
    (rule : (parse text).tree.rule? p = some .parserRuleSpec) :
    ∃ head rest, (parse text).tree.childrenOf p = head :: rest ∧
      definedIn (parse text).tree defs p = [head] ∧
      dialect.definition? (parse text).tree defs head = some .nonterminal := by
  obtain ⟨t, rest', _, mirrors, reads⟩ := exists_ruleSpec_of_rule? text (by decide) rule
  have kind := kind_of_parserRule reads
  have parent : ∀ c ∈ (parse text).tree.childrenOf p,
      (parse text).tree.parentRule? c = some .parserRuleSpec := fun c member => by
    rw [SyntaxTree.parentRule?, mirrors.parent c member, Option.bind_some, rule]
  have kinds := mirrors.kinds
  simp only [ruleSpec, construct, Derivation.children, List.cons_append, List.map_cons] at kinds
  obtain ⟨head, rest, children, first, _⟩ := List.map_eq_cons_iff.1 kinds
  have token : tokenIs (parse text).tree head [.ruleRef] = true := by
    refine tokenIs_iff.2 ⟨.ruleRef, ?_, List.mem_singleton_self _⟩
    rw [SyntaxTree.token?, first, leaf, kind]
    rfl
  have named : isParserRuleHead (parse text).tree defs head = true := by
    have here : ((parse text).tree.childrenOf p)[0]? = some head := by rw [children]; rfl
    have front := sibling?_before text mirrors here
    rw [if_pos rfl] at front
    simp [isParserRuleHead, token, below_iff.2 (parent head (List.mem_of_getElem? here)), front]
  have defines : dialect.definition? (parse text).tree defs head = some .nonterminal := by
    rw [definition?_in_parserRule (parent head (by simp [children])), if_pos named]
  refine ⟨head, rest, children, ?_, defines⟩
  have others : rest.filter (fun c => (dialect.definition? (parse text).tree defs c).isSome) =
      [] := by
    refine List.filter_eq_nil_iff.2 fun c member => ?_
    obtain ⟨k, here⟩ := List.mem_iff_getElem?.1 member
    have here' : ((parse text).tree.childrenOf p)[k + 1]? = some c := by
      rw [children, List.getElem?_cons_succ, here]
    obtain ⟨inside, _⟩ := List.getElem?_eq_some_iff.1 here'
    have before := sibling?_before text mirrors here'
    rw [if_neg (Nat.succ_ne_zero k), Nat.add_sub_cancel,
      List.getElem?_eq_getElem (Nat.lt_of_succ_lt inside)] at before
    rw [definition?_in_parserRule (parent c (List.mem_of_getElem? here'))]
    simp [isParserRuleHead, before]
  rw [definedIn, children, List.filter_cons_of_pos (by rw [defines]; rfl), others]

/-- A lexer rule has one definition at most. -/
theorem definedIn_lexerRule (defs : Table Nat Classification)
    (rule : (parse text).tree.rule? p = some .lexerRuleSpec) :
    (definedIn (parse text).tree defs p).length ≤ 1 ∧
      ∀ c ∈ definedIn (parse text).tree defs p,
        dialect.definition? (parse text).tree defs c = some .terminal := by
  obtain ⟨t, rest, later, mirrors, reads⟩ := exists_ruleSpec_of_rule? text (by decide) rule
  have head : ∀ c ∈ (parse text).tree.childrenOf p,
      (dialect.definition? (parse text).tree defs c).isSome = true →
        isLexerRuleHead (parse text).tree defs c = true ∧
          dialect.definition? (parse text).tree defs c = some .terminal := by
    intro c member defines
    rw [definition?_in_lexerRule (by
      rw [SyntaxTree.parentRule?, mirrors.parent c member, Option.bind_some, rule])] at defines ⊢
    split at defines
    · next holds => exact ⟨holds, if_pos holds⟩
    · cases defines
  constructor
  · obtain ⟨m, place⟩ := namedAt_unique text.length (spelled_tokens text) later
      (kind_of_lexerRule reads)
    refine length_filter_le_one_of_place fun k c child defines => place k ?_
    have holds := (head c (List.mem_of_getElem? child) defines).1
    simp only [isLexerRuleHead, Bool.and_eq_true] at holds
    obtain ⟨kind, token, name⟩ := tokenIs_iff.1 holds.1.1
    rw [List.mem_singleton.1 name] at token
    obtain ⟨d, here, _, kindC⟩ := mirrors.child child
    refine ⟨⟨d, here, ?_⟩, ?_⟩
    · rwa [SyntaxTree.token?, kindC, Option.bind_some] at token
    · rintro j rfl
      obtain ⟨inside, _⟩ := List.getElem?_eq_some_iff.1 child
      have before := List.getElem?_eq_getElem (Nat.lt_of_succ_lt inside)
      have sibling := sibling?_before text mirrors child
      rw [if_neg (Nat.succ_ne_zero j), Nat.add_sub_cancel, before] at sibling
      rw [sibling] at holds
      obtain ⟨word, read, listed⟩ := textIs_iff.1 holds.2
      obtain ⟨d', here', _, kind'⟩ := mirrors.child before
      refine ⟨d', here', ?_⟩
      rwa [Option.bind_some, SyntaxTree.text?, kind', Option.bind_some,
        List.mem_singleton.1 listed] at read
  · intro c member
    obtain ⟨child, defines⟩ := List.mem_filter.1 member
    exact (head c child defines).2

end Rules

/-- A tree in which it is decided in one way only what a terminal is. -/
structure ClassifiedOnce (tree : SyntaxTree) (defs : Table Nat Classification) : Prop where
  /-- Of all tests at most one holds of a terminal. -/
  once : ∀ n, ((definitionRules ++ referenceRules).filter fun r => r.2 tree defs n).length ≤ 1
  /-- The tests for definitions decide the same in any order. -/
  definitions : ∀ n (rules : Classifier), rules.Perm definitionRules →
    rules.classify tree defs n = dialect.definition? tree defs n
  /-- The tests for references decide the same in any order. -/
  references : ∀ n (rules : Classifier), rules.Perm referenceRules →
    rules.classify tree defs n = dialect.reference? tree defs n
  /-- What defines a name does so whatever is known. -/
  definitions_known : ∀ n, dialect.definition? tree defs n = dialect.definition? tree ∅ n
  /-- Knowing some of the definitions makes no difference to what refers to a name. -/
  references_known :
    (∀ m, defs.contains m = true → (dialect.definition? tree defs m).isSome = true) →
      ∀ n, dialect.reference? tree defs n = dialect.reference? tree ∅ n
  /-- The first child of a parser rule is its name, and its one definition. -/
  parserRules : ∀ p, tree.rule? p = some .parserRuleSpec → ∃ head rest,
    tree.childrenOf p = head :: rest ∧ definedIn tree defs p = [head] ∧
      dialect.definition? tree defs head = some .nonterminal
  /-- A lexer rule has one definition at most, its name. -/
  lexerRules : ∀ p, tree.rule? p = some .lexerRuleSpec → (definedIn tree defs p).length ≤ 1 ∧
    ∀ c ∈ definedIn tree defs p, dialect.definition? tree defs c = some .terminal

/-- For every text, however malformed, and whatever is known of its definitions, it is decided in
one way only what a terminal is. -/
theorem classifiedOnce_parse (text : String) (defs : Table Nat Classification) :
    ClassifiedOnce (parse text).tree defs where
  once := rules_exclusive text defs
  definitions _ _ perm := classify_of_perm perm (definitionRules_exclusive _ _ _)
  references _ _ perm := classify_of_perm perm (referenceRules_exclusive _ _ _)
  definitions_known _ := rfl
  references_known sound := reference?_of_known text sound
  parserRules _ rule := definedIn_parserRule text defs rule
  lexerRules _ rule := definedIn_lexerRule text defs rule

/-- Of two names behind the word `fragment`, which is there twice, the first one is defined. -/
example : (parse "fragment fragment A B : 'b' ;").tree.rule? 1 = some .lexerRuleSpec ∧
    definedIn (parse "fragment fragment A B : 'b' ;").tree ∅ 1 = [4] := by decide +kernel

end GrammarIndex.Grammar

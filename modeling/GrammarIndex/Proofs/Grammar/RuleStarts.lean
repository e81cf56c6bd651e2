import GrammarIndex.Proofs.Grammar.Lossless

/-!
The start of a rule in a text.

A name with a colon behind it starts a rule, whatever was begun before it and not ended:
declarations, what stands before a rule's colon, and rule bodies with all their blocks end in front
of it. So such a name is the name of a rule. What takes it nevertheless are the lists in braces and
the named actions, and also the options of an element and the commands of a lexer rule, which do not
look for the start of a rule.
-/
namespace GrammarIndex

namespace Grammar

open GrammarIndex.Derivation

/-- The lists in braces and the named actions, in which a name with a colon behind it may stand. -/
def enclosures : List RuleName := [.optionsSpec, .tokensSpec, .channelsSpec, .actionSpec]

/-- The constructs that do not look for the start of a rule before they take a name. -/
def unchecked : List RuleName := [.elementOptions, .lexerCommand]

/-- The constructs that take a name with a colon behind it as it comes. -/
def shelters : List RuleName := enclosures ++ unchecked

def ruleSpecs : List RuleName := [.parserRuleSpec, .lexerRuleSpec]

/-- Leaves only. -/
abbrev Flat : (stop : Nat) → (ds : List Derivation) → (left toks : List Token) → Prop :=
  Built fun _ _ => False

/-- Derivations built without taking the start of a rule, except in a shelter and for the name of a
rule. -/
inductive Guarded (stop : Nat) : (ds : List Derivation) → (left toks : List Token) → Prop
  | nil (toks : List Token) : Guarded stop [] toks toks
  | leaf {t : Token} {rest : List Token} (idle : startsRule (t :: rest) = false) :
    Guarded stop [leaf t] rest (t :: rest)
  | stray {t : Token} {rest : List Token} (idle : startsRule (t :: rest) = false) :
    Guarded stop [stray t] rest (t :: rest)
  | missing (what : String) (offset : Nat) (toks : List Token) :
    Guarded stop [missing what offset] toks toks
  | construct (name : RuleName) (offset : Nat) {ds : List Derivation} {left toks : List Token}
    (inside : Guarded stop ds left toks) : Guarded stop [construct name offset ds] left toks
  | shelter {name : RuleName} (takes : name ∈ shelters) (offset : Nat) {ds : List Derivation}
    {left toks : List Token} (inside : Flat stop ds left toks) :
    Guarded stop [construct name offset ds] left toks
  | rule {name : RuleName} (spec : name ∈ ruleSpecs) (offset : Nat) (t : Token)
    {ds : List Derivation} {left rest : List Token} (behind : Guarded stop ds left rest) :
    Guarded stop [construct name offset (Grammar.leaf t :: ds)] left (t :: rest)
  | fragment {name : RuleName} (spec : name ∈ ruleSpecs) (offset : Nat) {t : Token}
    (word : isWord "fragment" t = true) (t' : Token) {ds : List Derivation}
    {left rest : List Token} (behind : Guarded stop ds left rest) :
    Guarded stop [construct name offset (Grammar.leaf t :: Grammar.leaf t' :: ds)] left
      (t :: t' :: rest)
  | append {ds ds' : List Derivation} {left mid toks : List Token}
    (first : Guarded stop ds mid toks) (second : Guarded stop ds' left mid) :
    Guarded stop (ds ++ ds') left toks

/-! ### Readers -/

theorem startsRule_of_other {t : Token} (other : isName t = false) (rest : List Token) :
    startsRule (t :: rest) = false := by
  rw [startsRule, other, Bool.false_and]

theorem isName_of_kind {t : Token} {kind : TokenKind} (here : t.kind = kind)
    (other : kind ≠ .ruleRef ∧ kind ≠ .tokenRef) : isName t = false := by
  rw [isName, here]
  simp [other]

theorem isName_of_isWord {t : Token} {word : String} (here : isWord word t = true) :
    isName t = false := by
  rw [isWord, Bool.and_eq_true, beq_iff_eq] at here
  exact isName_of_kind here.1 (by decide)

/-- A name with a colon behind it, found by its place. -/
theorem startsRule_drop {toks : List Token} {i : Nat} {t next : Token} (token : toks[i]? = some t)
    (named : isName t = true) (behind : toks[i + 1]? = some next) (colon : next.kind = .colon) :
    startsRule (toks.drop i) = true := by
  obtain ⟨short, this⟩ := List.getElem?_eq_some_iff.1 token
  obtain ⟨short', following⟩ := List.getElem?_eq_some_iff.1 behind
  rw [List.drop_eq_getElem_cons short, List.drop_eq_getElem_cons short', this, following]
  simp [startsRule, nextIs, named, colon]

section Readers

variable (stop : Nat)

theorem Guarded.leaf_cons {t : Token} {ds : List Derivation} {left rest : List Token}
    (other : isName t = false) (behind : Guarded stop ds left rest) :
    Guarded stop (Grammar.leaf t :: ds) left (t :: rest) :=
  (Guarded.leaf (startsRule_of_other other rest)).append behind

theorem guarded_takeIf {p : Token → Bool} (other : ∀ t, p t = true → isName t = false)
    (toks : List Token) : Guarded stop (takeIf p toks).1 (takeIf p toks).2 toks := by
  cases toks with
  | nil => exact .nil []
  | cons t rest =>
    simp only [takeIf]
    split
    · next holds => exact .leaf (startsRule_of_other (other t holds) rest)
    · exact .nil _

theorem guarded_expect (kind : TokenKind) (other : kind ≠ .ruleRef ∧ kind ≠ .tokenRef)
    (what : String) (toks : List Token) :
    Guarded stop [(expect kind what stop toks).1] (expect kind what stop toks).2 toks := by
  cases toks with
  | nil => exact .missing what stop []
  | cons t rest =>
    simp only [expect]
    split
    · next here => exact .leaf (startsRule_of_other (isName_of_kind here other) rest)
    · exact .missing what _ _

theorem guarded_untilSemi (toks : List Token) :
    Guarded stop (untilSemi stop toks).1 (untilSemi stop toks).2 toks := by
  induction toks with
  | nil => exact .missing _ _ []
  | cons t rest ih =>
    simp only [untilSemi]
    split
    · exact .missing _ _ _
    · next idle =>
      rw [Bool.not_eq_true] at idle
      split
      · exact .leaf idle
      · exact (Guarded.leaf idle).append ih

theorem guarded_braced (name : RuleName) (takes : name ∈ shelters) (t : Token)
    (rest : List Token) :
    Guarded stop [(braced name stop t rest).1] (braced name stop t rest).2 (t :: rest) :=
  .shelter takes t.span.start (built_braced stop name t rest)

theorem guarded_command (t : Token) (rest : List Token) :
    Guarded stop [(command stop t rest).1] (command stop t rest).2 (t :: rest) := by
  have takes : RuleName.lexerCommand ∈ shelters := by decide
  cases rest with
  | nil => exact .shelter takes _ (.leaf t [])
  | cons opening inside =>
    simp only [command]
    split
    · have argument : Flat stop _ _ inside :=
        (built_takeIf stop (fun t => isName t || t.kind == .int) inside).append
          (built_expect stop .rparen "')'" _)
      exact .shelter takes _ argument.leaf_cons.leaf_cons
    · exact .shelter takes _ (.leaf t _)

theorem guarded_commands (toks : List Token) :
    Guarded stop (commands stop toks).1 (commands stop toks).2 toks := by
  fun_induction commands stop toks with
  | case1 => exact .nil []
  | case2 t rest _ d read =>
    have first := guarded_command stop t rest
    rwa [read] at first
  | case3 t rest _ d comma behind read isComma others ih =>
    have first := guarded_command stop t rest
    rw [read] at first
    exact first.append (ih.leaf_cons stop (isName_of_kind isComma (by decide)))
  | case4 t rest _ d comma behind read _ =>
    have first := guarded_command stop t rest
    rwa [read] at first
  | case5 => exact .nil _

theorem guarded_handlers (toks : List Token) :
    Guarded stop (handlers toks).1 (handlers toks).2 toks := by
  have other : ∀ kind : TokenKind, kind ≠ .ruleRef ∧ kind ≠ .tokenRef →
      ∀ t : Token, (t.kind == kind) = true → isName t = false := fun _ other t here =>
    isName_of_kind (beq_iff_eq.1 here) other
  fun_induction handlers toks with
  | case1 => exact .nil []
  | case2 t rest word argument body ds left recur ih =>
    rw [recur] at ih
    have name : isName t = false := by
      rw [Bool.or_eq_true] at word
      exact word.elim isName_of_isWord isName_of_isWord
    have before := (guarded_takeIf stop (other .charSet (by decide)) rest).append
      (guarded_takeIf stop (other .action (by decide)) argument.2)
    exact (before.append ih).leaf_cons stop name
  | case3 => exact .nil _

theorem guarded_elements (close : TokenKind) (toks : List Token) :
    Guarded stop (elements stop close toks).val.elements (elements stop close toks).val.left
      toks := by
  fun_induction elements stop close toks with
  | case1 => exact .nil []
  | case2 => exact .nil _
  | case3 => exact .nil _
  | case4 close t rest _ _ opens inner closing _ block ihInner ihRest =>
    have inside := ihInner.append (guarded_expect stop .rparen (by decide) "')'" inner.val.left)
    have opened := inside.leaf_cons stop (isName_of_kind opens (by decide))
    exact (Guarded.construct .block _ opened).append ihRest
  | case5 close t rest _ _ _ closes ih =>
    exact (Guarded.stray (startsRule_of_other (isName_of_kind closes (by decide)) rest)).append ih
  | case6 close t rest _ _ _ _ arrow list _ group ih =>
    have inside := (guarded_commands stop rest).leaf_cons stop (isName_of_kind arrow (by decide))
    exact (Guarded.construct .lexerCommands _ inside).append ih
  | case7 close t rest _ _ _ _ _ opens list _ group ih =>
    have inside : Flat stop _ _ (t :: rest) := (built_untilAngle stop rest).leaf_cons
    exact (Guarded.shelter (by decide) _ inside).append ih
  | case8 close t rest _ goes _ _ _ _ ih =>
    -- The body goes on, so no rule starts here.
    have idle : startsRule (t :: rest) = false := by
      rw [startsRule]
      simp only [endsBody, Bool.or_eq_true, not_or, Bool.not_eq_true] at goes
      exact goes.1.1.2
    exact (Guarded.leaf idle).append ih

theorem guarded_prequel (toks : List Token) :
    Guarded stop (prequel stop toks).1 (prequel stop toks).2.1 toks := by
  fun_induction prequel stop toks with
  | case1 => exact .missing _ _ []
  | case2 t rest => exact .missing _ _ _
  | case3 t rest _ colon =>
    exact .leaf (startsRule_of_other (isName_of_kind colon (by decide)) rest)
  | case4 t rest _ _ _ opts ds out recur ih =>
    rw [recur] at ih
    exact (guarded_braced stop .optionsSpec (by decide) t rest).append ih
  | case5 t rest _ _ _ semi =>
    have other := isName_of_kind semi (by decide)
    exact (Guarded.missing _ _ _).append (.leaf (startsRule_of_other other rest))
  | case6 t rest goes _ _ _ ds out recur ih =>
    rw [recur] at ih
    simp only [Bool.or_eq_true, not_or, Bool.not_eq_true] at goes
    exact (Guarded.leaf goes.1.1).append ih

theorem guarded_ruleTail (toks : List Token) :
    Guarded stop (ruleTail stop toks).1 (ruleTail stop toks).2 toks := by
  have before := guarded_prequel stop toks
  simp only [ruleTail]
  split
  · have body := Guarded.construct .ruleBlock (here stop (prequel stop toks).2.1)
      (guarded_elements stop .semi (prequel stop toks).2.1)
    have closing := guarded_expect stop .semi (by decide) "';'"
      (elements stop .semi (prequel stop toks).2.1).val.left
    generalize expect .semi "';'" stop (elements stop .semi (prequel stop toks).2.1).val.left =
      closed at closing ⊢
    have group := guarded_handlers stop closed.2
    have tail : Guarded stop (if (handlers closed.2).1.isEmpty then [] else
        [construct .exceptionGroup (here stop closed.2) (handlers closed.2).1])
        (handlers closed.2).2 closed.2 := by
      split
      · next none_ =>
        rw [List.isEmpty_iff.1 none_] at group
        exact group
      · exact .construct _ _ group
    exact before.append (body.append (closing.append tail))
  · exact before

theorem guarded_ruleSpec {name : RuleName} (spec : name ∈ ruleSpecs) (t : Token)
    (rest : List Token) :
    Guarded stop [(ruleSpec name stop t rest).1] (ruleSpec name stop t rest).2 (t :: rest) := by
  simp only [ruleSpec]
  split
  · next word =>
    cases rest with
    | nil => exact .rule spec _ t (guarded_ruleTail stop [])
    | cons t' rest => exact .fragment spec _ word t' (guarded_ruleTail stop rest)
  · exact .rule spec _ t (guarded_ruleTail stop rest)

theorem guarded_item (t : Token) (rest : List Token) :
    Guarded stop [(item stop t rest).1] (item stop t rest).2 (t :: rest) := by
  have declared : ∀ {name}, isName t = false → Guarded stop [(declaration name stop t rest).1]
      (declaration name stop t rest).2 (t :: rest) := fun other =>
    .construct _ _ ((guarded_untilSemi stop rest).leaf_cons stop other)
  have alone : isName t = false → Guarded stop [stray t] rest (t :: rest) := fun other =>
    .stray (startsRule_of_other other rest)
  unfold item
  split
  · next kind =>
    have other := isName_of_kind kind (by decide)
    split
    · exact declared other
    · exact declared other
    · exact declared other
    · exact declared other
    · exact declared other
    · exact guarded_braced stop _ (by decide) t rest
    · exact guarded_braced stop _ (by decide) t rest
    · exact guarded_braced stop _ (by decide) t rest
    · exact guarded_ruleSpec stop (by decide) t rest
    · exact alone other
  · exact guarded_ruleSpec stop (by decide) t rest
  · exact guarded_ruleSpec stop (by decide) t rest
  · have takes : RuleName.actionSpec ∈ shelters := by decide
    refine .shelter takes _ (Built.leaf_cons ?_)
    exact (built_takeRun stop _ rest).append (built_expect stop .action _ _)
  · next tokenRef ruleRef _ =>
    refine alone ?_
    rw [isName, Bool.or_eq_false_iff, beq_eq_false_iff_ne, beq_eq_false_iff_ne]
    exact ⟨ruleRef, tokenRef⟩

theorem guarded_items (toks : List Token) : Guarded stop (items stop toks) [] toks := by
  fun_induction items stop toks with
  | case1 => exact .nil []
  | case2 t rest next ih => exact (guarded_item stop t rest).append ih

end Readers

/-! ### Leaves and what holds them -/

/-- A leaf that is empty or stands for a token that starts no rule. -/
def Idle (toks : List Token) (d : Derivation) : Prop :=
  d.kind.rule? = none → d.span.isEmpty = true ∨
    ∃ t rest, d.span = t.span ∧ t :: rest <:+ toks ∧ startsRule (t :: rest) = false

/-- A child that comes first or directly behind the word `fragment`. -/
def Heads (ds : List Derivation) (k : Nat) : Prop :=
  k = 0 ∨ ∃ j d, k = j + 1 ∧ ds[j]? = some d ∧ d.kind = .terminal .keyword "fragment"

/-- A construct without the start of a rule below it, except in a shelter and for the name of a
rule. -/
def Clear (toks : List Token) (d : Derivation) : Prop :=
  ∀ name, d.kind = .rule name → name ∈ shelters ∨
    ∀ k d', d.children[k]? = some d' → Idle toks d' ∨ name ∈ ruleSpecs ∧ Heads d.children k

theorem Idle.mono {toks toks' : List Token} (later : toks <:+ toks') {d : Derivation}
    (idle : Idle toks d) : Idle toks' d := by
  intro leaf
  refine (idle leaf).imp id ?_
  rintro ⟨t, rest, same, last, starts⟩
  exact ⟨t, rest, same, last.trans later, starts⟩

theorem Clear.mono {toks toks' : List Token} (later : toks <:+ toks') {d : Derivation}
    (clear : Clear toks d) : Clear toks' d := fun name kind =>
  (clear name kind).imp id fun below k d' child => (below k d' child).imp (.mono later) id

theorem clear_of_leaf {d : Derivation} (leaf : d.kind.rule? = none) (toks : List Token) :
    Clear toks d := by
  intro name kind
  rw [kind] at leaf
  cases leaf

theorem rule?_leaf (t : Token) : (leaf t).kind.rule? = none := by
  unfold leaf
  split <;> rfl

theorem kind_fragment {t : Token} (word : isWord "fragment" t = true) :
    (leaf t).kind = .terminal .keyword "fragment" := by
  rw [isWord, Bool.and_eq_true, beq_iff_eq, beq_iff_eq] at word
  simp [leaf, Derivation.kind, word]

/-- Leaves only have no parts that are constructs. -/
theorem rule?_of_flat {stop : Nat} {ds : List Derivation} {left toks : List Token}
    (flat : Flat stop ds left toks) : ∀ d ∈ partsAll ds, d.kind.rule? = none := by
  induction flat with
  | nil toks => exact fun d member => by cases member
  | leaf t rest => exact fun d member => List.mem_singleton.1 member ▸ rule?_leaf t
  | stray t rest => exact fun d member => List.mem_singleton.1 member ▸ rfl
  | missing what toks => exact fun d member => List.mem_singleton.1 member ▸ rfl
  | construct fit => exact fit.elim
  | append _ _ first second =>
    intro d member
    rw [partsAll_append, List.mem_append] at member
    exact member.elim (first d) (second d)

theorem Guarded.suffix {stop : Nat} {ds : List Derivation} {left toks : List Token}
    (guarded : Guarded stop ds left toks) : left <:+ toks := by
  induction guarded with
  | nil toks => exact List.suffix_refl toks
  | leaf idle => exact List.suffix_cons _ _
  | stray idle => exact List.suffix_cons _ _
  | missing what offset toks => exact List.suffix_refl toks
  | construct name offset inside ih => exact ih
  | shelter takes offset inside => exact inside.suffix
  | rule spec offset t behind ih => exact ih.trans (List.suffix_cons _ _)
  | fragment spec offset word t' behind ih =>
    exact ih.trans ((List.suffix_cons _ _).trans (List.suffix_cons _ _))
  | append first second ih ih' => exact ih'.trans ih

theorem idle_leaf {t : Token} {rest : List Token} (starts : startsRule (t :: rest) = false)
    {d : Derivation} (here : d.span = t.span) : Idle (t :: rest) d := fun _ =>
  .inr ⟨t, rest, here, List.suffix_refl _, starts⟩

/-- Neighbours in which the starts of rules stand in shelters and for names only. -/
structure Cleared (toks : List Token) (ds : List Derivation) : Prop where
  idle : ∀ d ∈ ds, Idle toks d
  clear : ∀ d ∈ partsAll ds, Clear toks d

theorem Cleared.mono {toks toks' : List Token} (later : toks <:+ toks') {ds : List Derivation}
    (cleared : Cleared toks ds) : Cleared toks' ds :=
  ⟨fun d member => (cleared.idle d member).mono later,
    fun d member => (cleared.clear d member).mono later⟩

theorem Cleared.append {toks : List Token} {ds ds' : List Derivation} (first : Cleared toks ds)
    (second : Cleared toks ds') : Cleared toks (ds ++ ds') := by
  refine ⟨fun d member => ?_, fun d member => ?_⟩
  · exact (List.mem_append.1 member).elim (first.idle d) (second.idle d)
  · rw [partsAll_append, List.mem_append] at member
    exact member.elim (first.clear d) (second.clear d)

theorem cleared_leaf {d : Derivation} {toks : List Token} (bare : d.children = [])
    (leaf : d.kind.rule? = none) (idle : Idle toks d) : Cleared toks [d] := by
  obtain ⟨kind, span, _⟩ := d
  cases bare
  exact ⟨by simpa using idle, by simpa [partsAll, parts] using clear_of_leaf leaf toks⟩

theorem cleared_construct {name : RuleName} {offset : Nat} {ds : List Derivation}
    {toks : List Token} (top : Clear toks (construct name offset ds))
    (below : ∀ d ∈ partsAll ds, Clear toks d) : Cleared toks [construct name offset ds] := by
  refine ⟨fun d member leaf => ?_, fun d member => ?_⟩
  · rw [List.mem_singleton.1 member] at leaf
    cases leaf
  · rw [partsAll_construct] at member
    rcases List.mem_cons.1 member with rfl | member
    · exact top
    · exact below d member

/-- A leaf in front is clear, whatever token it stands for. -/
theorem clear_leaf_cons (t : Token) {ds : List Derivation} {toks : List Token}
    (behind : ∀ d ∈ partsAll ds, Clear toks d) :
    ∀ d ∈ partsAll (leaf t :: ds), Clear toks d := by
  intro d member
  rcases List.mem_cons.1 (show d ∈ leaf t :: partsAll ds from member) with rfl | member
  · exact clear_of_leaf (rule?_leaf t) toks
  · exact behind d member

/-- What is built in guarded ways has the starts of rules in shelters and for names only. -/
theorem Guarded.cleared {stop : Nat} {ds : List Derivation} {left toks : List Token}
    (guarded : Guarded stop ds left toks) : Cleared toks ds := by
  induction guarded with
  | nil toks =>
    exact ⟨fun d member => (List.not_mem_nil member).elim, fun d member => by cases member⟩
  | leaf idle => exact cleared_leaf rfl (rule?_leaf _) (idle_leaf idle rfl)
  | stray idle => exact cleared_leaf rfl rfl (idle_leaf idle rfl)
  | missing what offset toks =>
    refine cleared_leaf rfl rfl fun _ => .inl ?_
    simp [Grammar.missing, Derivation.span, Span.isEmpty, Span.point]
  | construct name offset inside ih =>
    refine cleared_construct (fun _ _ => .inr fun k d child => .inl ?_) ih.clear
    exact ih.idle d (List.mem_of_getElem? child)
  | shelter takes offset inside =>
    refine cleared_construct (fun name kind => .inl ?_) fun d member =>
      clear_of_leaf (rule?_of_flat inside d member) _
    cases kind
    exact takes
  | @rule name spec offset t ds left rest behind ih =>
    have later := ih.mono (List.suffix_cons t rest)
    refine cleared_construct (fun name' kind => .inr fun k d child => ?_)
      (clear_leaf_cons t later.clear)
    cases kind
    cases k with
    | zero => exact .inr ⟨spec, .inl rfl⟩
    | succ k => exact .inl (later.idle d (List.mem_of_getElem? child))
  | @fragment name spec offset t word t' ds left rest behind ih =>
    have later := ih.mono ((List.suffix_cons t' rest).trans (List.suffix_cons t _))
    refine cleared_construct (fun name' kind => .inr fun k d child => ?_)
      (clear_leaf_cons t (clear_leaf_cons t' later.clear))
    cases kind
    rcases k with _ | _ | k
    · exact .inr ⟨spec, .inl rfl⟩
    · exact .inr ⟨spec, .inr ⟨0, _, rfl, rfl, kind_fragment word⟩⟩
    · exact .inl (later.idle d (List.mem_of_getElem? child))
  | append first second ih ih' => exact ih.append (ih'.mono first.suffix)

/-! ### The tree -/

/-- A leaf that is the name of a rule: the first child of the rule, or the one behind the word
`fragment`. -/
def NamesRule (tree : SyntaxTree) (n : Nat) : Prop :=
  ∃ p name k, tree.parent? n = some p ∧ tree.rule? p = some name ∧ name ∈ ruleSpecs ∧
    (tree.childrenOf p)[k]? = some n ∧
    (k = 0 ∨ ∃ j f, k = j + 1 ∧ (tree.childrenOf p)[j]? = some f ∧
      tree.kind? f = some (.terminal .keyword "fragment"))

theorem not_namesRule {tree : SyntaxTree} {n : Nat}
    (elsewhere : ∀ name ∈ ruleSpecs, tree.parentRule? n ≠ some name) : ¬ NamesRule tree n := by
  rintro ⟨p, name, _, parent, rule, spec, _⟩
  exact elsewhere name spec (by rw [SyntaxTree.parentRule?, parent, Option.bind_some, rule])

/-- The construct a node stands in directly is one of its ancestors. -/
theorem ancestor?_of_parentRule? {tree : SyntaxTree} {n : Nat} {name : RuleName}
    (parent : tree.parentRule? n = some name) : tree.ancestor? n name ≠ none := by
  obtain ⟨p, up, rule⟩ := Option.bind_eq_some_iff.1 parent
  obtain ⟨node, here, _⟩ := Option.bind_eq_some_iff.1 up
  obtain ⟨inside, _⟩ := Array.getElem?_eq_some_iff.1 here
  obtain ⟨steps, size⟩ : ∃ steps, tree.size = steps + 1 := ⟨tree.size - 1, by
    rw [SyntaxTree.size]; omega⟩
  simp [SyntaxTree.ancestor?, size, SyntaxTree.ancestorWithin, up, rule]

/-- The suffix that starts with the token at a place. -/
theorem drop_of_span {stop : Nat} {toks : List Token} (laid : Laid stop toks) {i : Nat}
    {t t' : Token} {rest : List Token} (token : toks[i]? = some t) (last : t' :: rest <:+ toks)
    (same : t.span = t'.span) : toks.drop i = t' :: rest := by
  obtain ⟨front, rfl⟩ := last
  obtain ⟨_, behind, before⟩ := List.pairwise_append.1 laid.apart
  have filled := laid.filled t (List.mem_of_getElem? token)
  rcases Nat.lt_trichotomy i front.length with early | rfl | late
  · rw [List.getElem?_append_left early] at token
    have := before t (List.mem_of_getElem? token) t' (by simp)
    rw [same] at filled this
    omega
  · simp
  · rw [List.getElem?_append_right (Nat.le_of_lt late)] at token
    obtain ⟨k, place⟩ : ∃ k, i - front.length = k + 1 := ⟨i - front.length - 1, by omega⟩
    rw [place, List.getElem?_cons_succ] at token
    have := List.rel_of_pairwise_cons behind (List.mem_of_getElem? token)
    rw [same] at filled this
    omega

/-- A leaf is a child of a construct. -/
theorem parent_of_leaf (text : String) {n : Nat}
    (listed : n ∈ filledLeaves (parse text).tree) :
    ∃ (p k : Nat) (d : Derivation), ((parse text).tree.childrenOf p)[k]? = some n ∧
      Mirrors (parse text).tree p d ∧
      d ∈ (derive text.length (tokenize text).1).parts := by
  obtain ⟨walked, filled⟩ := List.mem_filter.1 listed
  rcases mem_preorderFrom _ walked with rfl | ⟨p, child⟩
  · obtain ⟨root, node, kind, _⟩ := node?_parse_zero text
    rw [node] at filled
    simp [isFilledLeaf, kind, NodeKind.rule?] at filled
  · obtain ⟨k, found⟩ := List.mem_iff_getElem?.1 child
    have inside : p < (parse text).tree.size := by
      rw [SyntaxTree.childrenOf] at child
      cases node : (parse text).tree.node? p with
      | none =>
        rw [node] at child
        cases child
      | some node' => exact (Array.getElem?_eq_some_iff.1 node).1
    obtain ⟨d, part, mirrors⟩ := exists_part (d := derive text.length (tokenize text).1) inside
    exact ⟨p, k, d, found, mirrors, part⟩

/-- A construct that holds something is clear, whether it is the whole text or below. -/
theorem clear_of_part (text : String) {d d' : Derivation} {k : Nat}
    (part : d ∈ (derive text.length (tokenize text).1).parts) (child : d.children[k]? = some d') :
    ∃ name, d.kind = .rule name ∧ (name ∈ shelters ∨
      Idle (tokenize text).1 d' ∨ name ∈ ruleSpecs ∧ Heads d.children k) := by
  obtain ⟨idle, clear⟩ := (guarded_items text.length (tokenize text).1).cleared
  rw [parts_derive] at part
  rcases List.mem_cons.1 part with rfl | below
  · exact ⟨_, rfl, .inr (.inl (idle d' (List.mem_of_getElem? child)))⟩
  · have kind : ∃ name, d.kind = .rule name := by
      cases (built_items text.length (tokenize text).1).part d below with
      | construct name span ds => exact ⟨name, rfl⟩
      | leaf member => cases child
      | stray member => cases child
      | missing what offset => cases child
    obtain ⟨name, kind⟩ := kind
    exact ⟨name, kind, (clear d below name kind).imp id fun held => held k d' child⟩

/-- The leaf of a token that starts a rule is directly in a shelter, or the name of a rule. -/
theorem place_of_rule_start (text : String) {i n : Nat} {t : Token}
    (token : (tokenize text).1[i]? = some t)
    (starts : startsRule ((tokenize text).1.drop i) = true)
    (leaf : (filledLeaves (parse text).tree)[i]? = some n)
    (stands : StandsAt (parse text).tree n t) :
    (∃ name ∈ shelters, (parse text).tree.parentRule? n = some name) ∨
      NamesRule (parse text).tree n := by
  obtain ⟨node, here, span, kind⟩ := stands
  obtain ⟨p, k, d, found, mirrors, part⟩ := parent_of_leaf text (List.mem_of_getElem? leaf)
  obtain ⟨d', child, span', kind'⟩ := mirrors.child found
  rw [SyntaxTree.spanOf, here] at span'
  rw [SyntaxTree.kind?, here] at kind'
  obtain ⟨name, isRule, place⟩ := clear_of_part text part child
  have parent := mirrors.parent n (List.mem_of_getElem? found)
  have rule : (parse text).tree.rule? p = some name := by
    rw [SyntaxTree.rule?, mirrors.kind, isRule]
    rfl
  rcases place with takes | idle | ⟨spec, heads⟩
  · exact .inl ⟨name, takes, by rw [SyntaxTree.parentRule?, parent, Option.bind_some, rule]⟩
  · -- An idle leaf would stand for a token that starts no rule.
    exfalso
    have isLeaf : d'.kind.rule? = none := by
      rw [← (Option.some.inj kind' : node.kind = d'.kind)]
      rcases kind with error | ⟨_, terminal⟩
      · rw [error]
        rfl
      · rw [terminal]
        rfl
    have same : d'.span = t.span := span'.trans span
    have filled := (laid_tokens text).filled t (List.mem_of_getElem? token)
    rcases idle isLeaf with empty | ⟨t', rest, here', last, idle⟩
    · rw [same, Span.isEmpty, beq_iff_eq] at empty
      omega
    · rw [drop_of_span (laid_tokens text) token last (same.symm.trans here'), idle] at starts
      cases starts
  · refine .inr ⟨p, name, k, parent, rule, spec, found, heads.imp id ?_⟩
    rintro ⟨j, f, place, before, word⟩
    obtain ⟨m, number, kindM⟩ := mirrors.number before
    exact ⟨j, m, place, number, kindM.trans (congrArg some word)⟩

/-- A rule that is not finished keeps the next one: a name with a colon behind it is the name of a
rule, unless it stands in a list in braces, a named action, the options of an element or a command
of a lexer rule. -/
theorem next_rule_kept (text : String) {i : Nat} {t next : Token}
    (token : (tokenize text).1[i]? = some t) (named : isName t = true)
    (behind : (tokenize text).1[i + 1]? = some next) (colon : next.kind = .colon) :
    ∃ n, (filledLeaves (parse text).tree)[i]? = some n ∧ StandsAt (parse text).tree n t ∧
      ((∀ name ∈ enclosures ++ unchecked, (parse text).tree.ancestor? n name = none) →
        NamesRule (parse text).tree n) := by
  obtain ⟨lengths, zipped⟩ := List.forall₂_iff_zip.1 (standsAt_filledLeaves text)
  obtain ⟨short, _⟩ := List.getElem?_eq_some_iff.1 token
  have leaf := List.getElem?_eq_getElem (lengths ▸ short)
  have stands := zipped (List.mem_of_getElem? (List.getElem?_zip_eq_some.2 ⟨leaf, token⟩))
  refine ⟨_, leaf, stands, fun outside => ?_⟩
  have starts := startsRule_drop token named behind colon
  rcases place_of_rule_start text token starts leaf stands with ⟨name, takes, parent⟩ | names
  · exact absurd (outside name takes) (ancestor?_of_parentRule? parent)
  · exact names

/-- Behind a block that is not closed. -/
theorem next_rule_kept_block :
    ∃ n, (filledLeaves (parse "a : x (\nb : y ;").tree)[4]? = some n ∧
      NamesRule (parse "a : x (\nb : y ;").tree n := by
  obtain ⟨n, leaf, _, names⟩ := @next_rule_kept "a : x (\nb : y ;" 4 ⟨.ruleRef, "b", ⟨8, 9⟩⟩
    ⟨.colon, ":", ⟨10, 11⟩⟩ (by decide +kernel) (by decide) (by decide +kernel) rfl
  refine ⟨n, leaf, names fun name member => ?_⟩
  have outside : ∀ m ∈ (filledLeaves (parse "a : x (\nb : y ;").tree)[4]?,
      ∀ name ∈ enclosures ++ unchecked,
        (parse "a : x (\nb : y ;").tree.ancestor? m name = none := by
    decide +kernel
  exact outside n leaf name member

/-- The options of an element and the commands of a lexer rule take the name of the next rule. -/
theorem next_rule_absorbed :
    (∃ n, startsRule ((tokenize "a : x <\nb : y ;").1.drop 4) = true ∧
      (filledLeaves (parse "a : x <\nb : y ;").tree)[4]? = some n ∧
      (∀ name ∈ enclosures, (parse "a : x <\nb : y ;").tree.ancestor? n name = none) ∧
      ¬ NamesRule (parse "a : x <\nb : y ;").tree n) ∧
    ∃ n, startsRule ((tokenize "A : 'a' ->\nB : 'b' ;").1.drop 4) = true ∧
      (filledLeaves (parse "A : 'a' ->\nB : 'b' ;").tree)[4]? = some n ∧
      (∀ name ∈ enclosures, (parse "A : 'a' ->\nB : 'b' ;").tree.ancestor? n name = none) ∧
      ¬ NamesRule (parse "A : 'a' ->\nB : 'b' ;").tree n := by
  constructor
  · exact ⟨8, by decide +kernel, by decide +kernel, by decide +kernel,
      not_namesRule (by decide +kernel)⟩
  · exact ⟨9, by decide +kernel, by decide +kernel, by decide +kernel,
      not_namesRule (by decide +kernel)⟩

end Grammar

end GrammarIndex

import GrammarIndex.Grammar.Parse

/-!
How the parser builds.

Whatever a reader builds is put together in six ways: a token becomes a leaf or an error leaf, a
note that something is missing stands where the next token starts, a construct is closed around what
was built, and what is built later stands behind. No token is passed over and none is used twice.
`Built` says this of a reader; what holds of all trees is shown by induction over it.
-/
namespace GrammarIndex.Grammar

/-- Derivations built from the tokens `toks` up to those that are `left`, in a text that ends at
`stop`. The constructs among them satisfy `fits`, with what they hold. -/
inductive Built (fits : RuleName → List Derivation → Prop) (stop : Nat) :
    (ds : List Derivation) → (left toks : List Token) → Prop
  | nil (toks : List Token) : Built fits stop [] toks toks
  | leaf (t : Token) (rest : List Token) : Built fits stop [leaf t] rest (t :: rest)
  | stray (t : Token) (rest : List Token) : Built fits stop [stray t] rest (t :: rest)
  | missing (what : String) (toks : List Token) :
    Built fits stop [missing what (here stop toks)] toks toks
  | construct {name : RuleName} {ds : List Derivation} {left toks : List Token} (fit : fits name ds)
    (inside : Built fits stop ds left toks) :
    Built fits stop [construct name (here stop toks) ds] left toks
  | append {ds ds' : List Derivation} {left mid toks : List Token}
    (first : Built fits stop ds mid toks) (second : Built fits stop ds' left mid) :
    Built fits stop (ds ++ ds') left toks

namespace Built

variable {fits : RuleName → List Derivation → Prop} {stop : Nat}

theorem leaf_cons {t : Token} {ds : List Derivation} {left rest : List Token}
    (behind : Built fits stop ds left rest) :
    Built fits stop (Grammar.leaf t :: ds) left (t :: rest) :=
  (Built.leaf t rest).append behind

theorem mono {fits' : RuleName → List Derivation → Prop}
    (wider : ∀ name ds, fits name ds → fits' name ds) {ds : List Derivation}
    {left toks : List Token} (built : Built fits stop ds left toks) :
    Built fits' stop ds left toks := by
  induction built with
  | nil toks => exact .nil toks
  | leaf t rest => exact .leaf t rest
  | stray t rest => exact .stray t rest
  | missing what toks => exact .missing what toks
  | construct fit _ inside => exact .construct (wider _ _ fit) inside
  | append _ _ first second => exact first.append second

/-- The tokens that are left are the last ones. -/
theorem suffix {ds : List Derivation} {left toks : List Token}
    (built : Built fits stop ds left toks) : left <:+ toks := by
  induction built with
  | nil toks => exact List.suffix_refl toks
  | leaf t rest => exact List.suffix_cons t rest
  | stray t rest => exact List.suffix_cons t rest
  | missing what toks => exact List.suffix_refl toks
  | construct _ _ inside => exact inside
  | append _ _ first second => exact second.trans first

end Built

/-- The constructs whose leaves define names. They only stand at the top. -/
def isTop : NodeKind → Bool
  | .rule .parserRuleSpec | .rule .lexerRuleSpec | .rule .tokensSpec | .rule .modeSpec
  | .rule .channelsSpec => true
  | _ => false

/-- No parenthesis opens among these but as the second. -/
def OpensSecond (ds : List Derivation) : Prop :=
  ∀ i d, ds[i]? = some d → d.kind.token? = some .lparen → i = 1

/-- A lexer command has one argument, behind its name. -/
def Commands (name : RuleName) (ds : List Derivation) : Prop :=
  name = .lexerCommand → OpensSecond ds

/-- The constructs that stand below others. -/
def Inner (name : RuleName) (ds : List Derivation) : Prop :=
  isTop (.rule name) = false ∧ Commands name ds

theorem Built.inner {stop : Nat} {ds : List Derivation} {left toks : List Token}
    (inside : Built Inner stop ds left toks) (name : RuleName) (fit : isTop (.rule name) = false)
    (other : name ≠ .lexerCommand) :
    Built Inner stop [Grammar.construct name (here stop toks) ds] left toks :=
  .construct ⟨fit, fun same => absurd same other⟩ inside

/-! ### Readers -/

section Readers

variable {fits : RuleName → List Derivation → Prop} (stop : Nat)

theorem built_takeIf (p : Token → Bool) (toks : List Token) :
    Built fits stop (takeIf p toks).1 (takeIf p toks).2 toks := by
  cases toks with
  | nil => exact .nil []
  | cons t rest =>
    simp only [takeIf]
    split
    · exact .leaf t rest
    · exact .nil _

theorem built_expect (kind : TokenKind) (what : String) (toks : List Token) :
    Built fits stop [(expect kind what stop toks).1] (expect kind what stop toks).2 toks := by
  cases toks with
  | nil => exact .missing what []
  | cons t rest =>
    simp only [expect]
    split
    · exact .leaf t rest
    · exact .missing what (t :: rest)

theorem exists_of_mem_takeIf {p : Token → Bool} {toks : List Token} {d : Derivation}
    (member : d ∈ (takeIf p toks).1) : ∃ t, p t = true ∧ d = leaf t := by
  cases toks with
  | nil => cases member
  | cons t rest =>
    simp only [takeIf] at member
    split at member
    · next holds => exact ⟨t, holds, List.mem_singleton.1 member⟩
    · cases member

/-- What is expected is there, or a note of it. -/
theorem token?_expect (kind : TokenKind) (what : String) (toks : List Token) :
    (expect kind what stop toks).1.kind.token? = none ∨
      (expect kind what stop toks).1.kind.token? = some kind := by
  cases toks with
  | nil => exact .inl rfl
  | cons t rest =>
    simp only [expect]
    split
    · next here =>
      simp only [leaf, Derivation.kind]
      split
      · exact .inl rfl
      · exact .inr (congrArg some here)
    · exact .inl rfl

theorem built_takeRun (p : Token → Bool) (toks : List Token) :
    Built fits stop (takeRun p toks).1 (takeRun p toks).2 toks := by
  induction toks with
  | nil => exact .nil []
  | cons t rest ih =>
    simp only [takeRun]
    split
    · exact ih.leaf_cons
    · exact .nil _

theorem built_untilSemi (toks : List Token) :
    Built fits stop (untilSemi stop toks).1 (untilSemi stop toks).2 toks := by
  induction toks with
  | nil => exact .missing _ []
  | cons t rest ih =>
    simp only [untilSemi]
    split
    · exact .missing _ (t :: rest)
    · split
      · exact .leaf t rest
      · exact ih.leaf_cons

theorem built_untilBrace (toks : List Token) :
    Built fits stop (untilBrace stop toks).1 (untilBrace stop toks).2 toks := by
  induction toks with
  | nil => exact .missing _ []
  | cons t rest ih =>
    simp only [untilBrace]
    split
    · exact .leaf t rest
    · exact ih.leaf_cons

theorem built_untilAngle (toks : List Token) :
    Built fits stop (untilAngle stop toks).1 (untilAngle stop toks).2 toks := by
  induction toks with
  | nil => exact .missing _ []
  | cons t rest ih =>
    simp only [untilAngle]
    split
    · exact .leaf t rest
    · split
      · exact .missing _ (t :: rest)
      · exact ih.leaf_cons

theorem built_braced (name : RuleName) (t : Token) (rest : List Token) :
    Built fits stop (braced name stop t rest).1.children (braced name stop t rest).2 (t :: rest) :=
  ((built_expect stop .lbrace _ rest).append (built_untilBrace stop _)).leaf_cons

theorem built_handlers (toks : List Token) :
    Built fits stop (handlers toks).1 (handlers toks).2 toks := by
  fun_induction handlers toks with
  | case1 => exact .nil []
  | case2 t rest word argument body ds left recur ih =>
    rw [recur] at ih
    have before : Built fits stop _ _ rest := (built_takeIf stop (·.kind == .charSet) rest).append
      (built_takeIf stop (·.kind == .action) argument.2)
    exact (before.append ih).leaf_cons
  | case3 => exact .nil _

theorem token?_leaf {t : Token} {kind : TokenKind} (found : (leaf t).kind.token? = some kind) :
    t.kind = kind := by
  unfold leaf at found
  split at found
  · cases found
  · exact Option.some.inj found

theorem opensSecond_cons {d : Derivation} {ds : List Derivation}
    (name : d.kind.token? ≠ some .lparen)
    (behind : ∀ d' ∈ ds.drop 1, d'.kind.token? ≠ some .lparen) : OpensSecond (d :: ds) := by
  intro i d' found opens
  match i with
  | 0 =>
    cases found
    exact absurd opens name
  | 1 => rfl
  | i + 2 =>
    refine absurd opens (behind d' (List.mem_of_getElem? (i := i) ?_))
    rw [List.getElem?_drop, Nat.add_comm]
    exact found

theorem built_command {t : Token} (named : (isName t || t.kind == .keyword) = true)
    (rest : List Token) :
    Built Inner stop [(command stop t rest).1] (command stop t rest).2 (t :: rest) := by
  have name : (leaf t).kind.token? ≠ some .lparen := by
    intro opens
    rw [isName, token?_leaf opens] at named
    cases named
  have alone : OpensSecond [leaf t] := opensSecond_cons name fun _ member => by cases member
  cases rest with
  | nil => exact .construct ⟨rfl, fun _ => alone⟩ (.leaf t [])
  | cons opening inside =>
    simp only [command]
    split
    · have argument : Built Inner stop _ _ inside :=
        (built_takeIf stop (fun t => isName t || t.kind == .int) inside).append
          (built_expect stop .rparen "')'" _)
      refine .construct ⟨rfl, fun _ => opensSecond_cons name fun d member => ?_⟩
        argument.leaf_cons.leaf_cons
      rcases List.mem_append.1 member with member | member
      · obtain ⟨t', word, rfl⟩ := exists_of_mem_takeIf member
        intro opens
        rw [isName, token?_leaf opens] at word
        cases word
      · rw [List.mem_singleton.1 member]
        rcases token?_expect stop .rparen "')'"
          (takeIf (fun t => isName t || t.kind == .int) inside).2 with none_ | closes
        · rw [none_]
          decide
        · rw [closes]
          decide
    · exact .construct ⟨rfl, fun _ => alone⟩ (.leaf t _)

theorem built_commands (toks : List Token) :
    Built Inner stop (commands stop toks).1 (commands stop toks).2 toks := by
  fun_induction commands stop toks with
  | case1 => exact .nil []
  | case2 t rest named d read =>
    have first := built_command stop named rest
    rwa [read] at first
  | case3 t rest named d comma behind read isComma others ih =>
    have first := built_command stop named rest
    rw [read] at first
    exact first.append ih.leaf_cons
  | case4 t rest named d comma behind read notComma =>
    have first := built_command stop named rest
    rwa [read] at first
  | case5 => exact .nil _

theorem built_elements (close : TokenKind) (toks : List Token) :
    Built Inner stop (elements stop close toks).val.elements (elements stop close toks).val.left
      toks := by
  fun_induction elements stop close toks with
  | case1 => exact .nil []
  | case2 => exact .nil _
  | case3 => exact .nil _
  | case4 close t rest _ _ _ inner closing _ block ihInner ihRest =>
    have inside := ihInner.append (built_expect stop .rparen "')'" inner.val.left)
    exact ((inside.leaf_cons (t := t)).inner .block rfl (by decide)).append ihRest
  | case5 close t rest _ _ _ _ ih => exact (Built.stray t rest).append ih
  | case6 close t rest _ _ _ _ _ list _ group ih =>
    have inside := (built_commands stop rest).leaf_cons (t := t)
    exact (inside.inner .lexerCommands rfl (by decide)).append ih
  | case7 close t rest _ _ _ _ _ _ list _ group ih =>
    have inside : Built Inner stop _ _ (t :: rest) := (built_untilAngle stop rest).leaf_cons
    exact (inside.inner .elementOptions rfl (by decide)).append ih
  | case8 close t rest _ _ _ _ _ _ ih => exact ih.leaf_cons

theorem built_prequel (toks : List Token) :
    Built Inner stop (prequel stop toks).1 (prequel stop toks).2.1 toks := by
  fun_induction prequel stop toks with
  | case1 => exact .missing _ []
  | case2 t rest => exact .missing _ (t :: rest)
  | case3 t rest => exact .leaf t rest
  | case4 t rest _ _ _ opts ds out recur ih =>
    rw [recur] at ih
    have inside : Built Inner stop _ _ (t :: rest) := built_braced stop .optionsSpec t rest
    exact (inside.inner .optionsSpec rfl (by decide)).append ih
  | case5 t rest => exact (Built.missing _ (t :: rest)).append (.leaf t rest)
  | case6 t rest _ _ _ _ ds out recur ih =>
    rw [recur] at ih
    exact ih.leaf_cons

theorem built_ruleTail (toks : List Token) :
    Built Inner stop (ruleTail stop toks).1 (ruleTail stop toks).2 toks := by
  have before := built_prequel stop toks
  simp only [ruleTail]
  split
  · have body :=
      (built_elements stop .semi (prequel stop toks).2.1).inner .ruleBlock rfl (by decide)
    have closing : Built Inner stop _ _ (elements stop .semi (prequel stop toks).2.1).val.left :=
      built_expect stop .semi "';'" _
    generalize expect .semi "';'" stop (elements stop .semi (prequel stop toks).2.1).val.left =
      closed at closing ⊢
    have group : Built Inner stop _ _ closed.2 := built_handlers stop closed.2
    have tail : Built Inner stop (if (handlers closed.2).1.isEmpty then [] else
        [construct .exceptionGroup (here stop closed.2) (handlers closed.2).1])
        (handlers closed.2).2 closed.2 := by
      split
      · next none_ =>
        rw [List.isEmpty_iff.1 none_] at group
        exact group
      · exact group.inner .exceptionGroup rfl (by decide)
    exact before.append (body.append (closing.append tail))
  · exact before

/-! ### The top -/

/-- A construct at the top, which holds inner constructs only, or a token that fits nowhere. -/
inductive BuiltItem : (d : Derivation) → (left toks : List Token) → Prop
  | stray (t : Token) (rest : List Token) : BuiltItem (stray t) rest (t :: rest)
  | construct {name : RuleName} {ds : List Derivation} {left toks : List Token}
    (other : name ≠ .lexerCommand) (inside : Built Inner stop ds left toks) :
    BuiltItem (construct name (here stop toks) ds) left toks

theorem BuiltItem.built {stop : Nat} {d : Derivation} {left toks : List Token}
    (item : BuiltItem stop d left toks) : Built Commands stop [d] left toks := by
  cases item with
  | stray t => exact .stray t left
  | construct other inside =>
    exact .construct (fun same => absurd same other) (inside.mono fun _ _ inner => inner.2)

theorem BuiltItem.children {stop : Nat} {d : Derivation} {left toks : List Token}
    (item : BuiltItem stop d left toks) :
    ∃ left' toks', Built Inner stop d.children left' toks' := by
  cases item with
  | stray t => exact ⟨[], [], .nil []⟩
  | construct _ inside => exact ⟨left, toks, inside⟩

theorem builtItem_ruleSpec (name : RuleName) (other : name ≠ .lexerCommand) (t : Token)
    (rest : List Token) :
    BuiltItem stop (ruleSpec name stop t rest).1 (ruleSpec name stop t rest).2 (t :: rest) := by
  have head : Built Inner stop
      (if isWord "fragment" t then takeIf (fun _ => true) rest else ([], rest)).1
      (if isWord "fragment" t then takeIf (fun _ => true) rest else ([], rest)).2 rest := by
    split
    · exact built_takeIf stop _ rest
    · exact .nil rest
  exact .construct other (head.append (built_ruleTail stop _)).leaf_cons

theorem builtItem_namedAction (t : Token) (rest : List Token) :
    BuiltItem stop (namedAction stop t rest).1 (namedAction stop t rest).2 (t :: rest) :=
  .construct (show RuleName.actionSpec ≠ .lexerCommand by decide)
    ((built_takeRun stop _ rest).append (built_expect stop .action _ _)).leaf_cons

theorem builtItem_item (t : Token) (rest : List Token) :
    BuiltItem stop (item stop t rest).1 (item stop t rest).2 (t :: rest) := by
  have declared : ∀ {name}, name ≠ .lexerCommand → BuiltItem stop (declaration name stop t rest).1
      (declaration name stop t rest).2 (t :: rest) := fun other =>
    .construct other (built_untilSemi stop rest).leaf_cons
  have listed : ∀ {name}, name ≠ .lexerCommand → BuiltItem stop (braced name stop t rest).1
      (braced name stop t rest).2 (t :: rest) := fun other =>
    .construct other (built_braced stop _ t rest)
  unfold item
  split
  · split
    · exact declared (by decide)
    · exact declared (by decide)
    · exact declared (by decide)
    · exact declared (by decide)
    · exact declared (by decide)
    · exact listed (by decide)
    · exact listed (by decide)
    · exact listed (by decide)
    · exact builtItem_ruleSpec stop .lexerRuleSpec (by decide) t rest
    · exact .stray t rest
  · exact builtItem_ruleSpec stop .lexerRuleSpec (by decide) t rest
  · exact builtItem_ruleSpec stop .parserRuleSpec (by decide) t rest
  · exact builtItem_namedAction stop t rest
  · exact .stray t rest

/-- All tokens are used up at the top. -/
theorem built_items (toks : List Token) :
    Built Commands stop (items stop toks) [] toks := by
  fun_induction items stop toks with
  | case1 => exact .nil []
  | case2 t rest next ih => exact (builtItem_item stop t rest).built.append ih

/-- What stands at the top holds inner constructs only. -/
theorem built_of_mem_items (toks : List Token) {d : Derivation} (member : d ∈ items stop toks) :
    ∃ left toks', Built Inner stop d.children left toks' := by
  fun_induction items stop toks with
  | case1 => cases member
  | case2 t rest next ih =>
    rcases List.mem_cons.1 member with rfl | member
    · exact (builtItem_item stop t rest).children
    · exact ih member

end Readers

end GrammarIndex.Grammar

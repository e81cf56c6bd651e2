import GrammarIndex.Proofs.Grammar.Locality

/-!
Stretches of tokens that are read the same wherever they stand.

The top is read one construct after the other. So the tokens of a construct without errors are read
as this construct in any text, as long as no handler of a rule comes behind them.
-/
namespace GrammarIndex

namespace Derivation

/-- The first name directly below a rule. -/
def ruleName (d : Derivation) : String :=
  ((d.children.find? fun c => c.kind.token? == some .ruleRef).bind (·.kind.text?)).getD ""

/-- A parser rule with its place and its name. -/
structure IsRule (d : Derivation) (span : Span) (name : String) : Prop where
  kind : d.kind = .rule .parserRuleSpec
  span : d.span = span
  name : d.ruleName = name

@[simp] theorem ruleName_bare (d : Derivation) : d.bare.ruleName = d.ruleName := by
  rw [ruleName, ruleName, children_bare, List.find?_map]
  have blind : ((fun c : Derivation => c.kind.token? == some .ruleRef) ∘ bare) =
      fun c => c.kind.token? == some .ruleRef := by
    funext c
    rw [Function.comp_apply, kind_bare]
  rw [blind]
  cases d.children.find? fun c => c.kind.token? == some .ruleRef with
  | none => rfl
  | some c => simp

end Derivation

namespace Grammar

open GrammarIndex.Derivation (IsRule)

/-- Tokens that are read as these constructs, all without places, in front of anything but a
handler. -/
structure Reads (toks : List (TokenKind × String)) (ds : List Derivation) : Prop where
  items : ∀ stop (toks' left : List Token), toks'.map Token.bare = toks → Unhandled left →
    ∃ ds', ds'.map Derivation.bare = ds ∧
      Grammar.items stop (toks' ++ left) = ds' ++ Grammar.items stop left
  unhandled : ∀ toks' left : List Token, toks'.map Token.bare = toks → Unhandled left →
    Unhandled (toks' ++ left)

/-- Tokens between a name and a semicolon that are read as this parser rule with both. -/
def ReadsRule (name : String) (inside : List (TokenKind × String)) (semi : String)
    (d : Derivation) : Prop :=
  ∀ stop (t : Token) (mid : List Token) (t' : Token) (left : List Token),
    t.bare = (.ruleRef, name) → mid.map Token.bare = inside → t'.bare = (.semi, semi) →
    Unhandled left →
      ∃ d', d'.bare = d ∧ IsRule d' ⟨t.span.start, t'.span.stop⟩ name ∧
        items stop (t :: mid ++ t' :: left) = d' :: items stop left

theorem reads_nil : Reads [] [] where
  items _ _ _ none_ _ := ⟨[], rfl, by rw [List.map_eq_nil_iff.1 none_]; rfl⟩
  unhandled _ _ none_ unhandled := by rwa [List.map_eq_nil_iff.1 none_]

theorem Reads.append {toks toks' : List (TokenKind × String)} {ds ds' : List Derivation}
    (first : Reads toks ds) (second : Reads toks' ds') : Reads (toks ++ toks') (ds ++ ds') where
  items stop all left same unhandled := by
    obtain ⟨before, behind, rfl, sameB, sameA⟩ := List.map_eq_append_iff.1 same
    obtain ⟨built', same', read'⟩ := second.items stop behind left sameA unhandled
    obtain ⟨built, same, read⟩ := first.items stop before (behind ++ left) sameB
      (second.unhandled behind left sameA unhandled)
    refine ⟨built ++ built', by rw [List.map_append, same, same'], ?_⟩
    rw [List.append_assoc, read, read', List.append_assoc]
  unhandled all left same unhandled := by
    obtain ⟨before, behind, rfl, sameB, sameA⟩ := List.map_eq_append_iff.1 same
    rw [List.append_assoc]
    exact first.unhandled before _ sameB (second.unhandled behind left sameA unhandled)

section

variable {stop : Nat} {t t' : Token} {rest mid left : List Token}

theorem items_cons (stop : Nat) (t : Token) (rest : List Token) :
    items stop (t :: rest) = (item stop t rest).1 :: items stop (item stop t rest).2 := by
  rw [items]

/-- What is left behind a construct are the last tokens. -/
theorem suffix_item (stop : Nat) (t : Token) (rest : List Token) :
    (item stop t rest).2 <:+ rest := by
  rcases List.suffix_cons_iff.1 (builtItem_item stop t rest).built.suffix with whole | later
  · have size := length_item stop t rest
    rw [whole, List.length_cons] at size
    omega
  · exact later

/-- What comes first at the top is no handler. -/
theorem unhandled_of_item (clean : Clean [(item stop t rest).1]) (same : t'.bare = t.bare)
    (behind : List Token) : Unhandled (t' :: behind) := by
  rintro first ⟨⟩
  rw [isWord_of_bare same, isWord_of_bare same]
  have other : ∀ word, readerOf .keyword word = .stray → isWord word t = false := by
    intro word strays
    rw [isWord, Bool.and_eq_false_iff, beq_eq_false_iff_ne, beq_eq_false_iff_ne]
    by_cases keyword : t.kind = .keyword
    · refine .inr fun text => ?_
      rw [item_eq, keyword, text, strays] at clean
      exact not_clean_stray t clean
    · exact .inl keyword
  rw [other "catch" rfl, other "finally" rfl]
  rfl

/-- The tokens of a construct without errors are read as this construct. -/
theorem reads_item (clean : Clean [(item stop t rest).1])
    (ends : rest = mid ++ (item stop t rest).2) :
    Reads ((t :: mid).map Token.bare) [(item stop t rest).1.bare] where
  items stop' toks' left' same unhandled := by
    obtain ⟨t', mid', rfl, first, others⟩ := List.map_eq_cons_iff.1 same
    have twins : Twins (item stop t rest).2 left' (mid ++ (item stop t rest).2) (mid' ++ left') :=
      .of_append others
    rw [← ends] at twins
    have again := again_item stop' first twins clean rfl unhandled
    refine ⟨[(item stop' t' (mid' ++ left')).1], by rw [List.map_singleton, again.built], ?_⟩
    rw [List.cons_append, items_cons, again.left, List.singleton_append]
  unhandled toks' left' same _ := by
    obtain ⟨t', mid', rfl, first, _⟩ := List.map_eq_cons_iff.1 same
    exact unhandled_of_item clean first _

/-! ### Parser rules -/

/-- Without errors a rule ends with a semicolon. -/
theorem exists_semi {toks : List Token} (clean : Clean (ruleTail stop toks).1) :
    ∃ mid semi ds, toks = mid ++ semi :: (ruleTail stop toks).2 ∧ semi.kind = .semi ∧
      (ruleTail stop toks).1 = ds ++ [leaf semi] := by
  obtain ⟨semi, read⟩ := ruleRead_of_clean clean
  have before := (built_prequel stop toks).suffix
  have body := (built_elements stop .semi (prequel stop toks).2.1).suffix
  obtain ⟨mid, whole⟩ := body.trans before
  refine ⟨mid, semi, _, ?_, read.closing, by rw [read.built]; exact List.append_cons ..⟩
  rw [← read.ahead]
  exact whole.symm

theorem item_of_ruleRef (kind : t.kind = .ruleRef) (stop : Nat) (rest : List Token) :
    item stop t rest = (construct .parserRuleSpec t.span.start (leaf t :: (ruleTail stop rest).1),
      (ruleTail stop rest).2) := by
  rw [item_eq, kind]
  simp [readerOf, Reader.read, ruleSpec, isWord, kind]

theorem exists_semi_of_item (kind : t.kind = .ruleRef) (clean : Clean [(item stop t rest).1]) :
    ∃ mid semi, rest = mid ++ semi :: (item stop t rest).2 ∧ semi.kind = .semi := by
  rw [item_of_ruleRef kind] at clean ⊢
  obtain ⟨mid, semi, _, whole, closing, _⟩ :=
    exists_semi (clean_cons.1 (clean_construct.1 clean).2).2
  exact ⟨mid, semi, whole, closing⟩

theorem kind_item (other : t.kind ≠ .ruleRef) (stop : Nat) (rest : List Token) :
    (item stop t rest).1.kind ≠ .rule .parserRuleSpec := by
  rw [item_eq]
  unfold readerOf
  split
  · split <;> exact nofun
  · exact nofun
  · contradiction
  · exact nofun
  · exact nofun

/-- Where a rule stands and what it is called is told from its tokens. -/
theorem isRule_item {semi : Token} (kind : t.kind = .ruleRef)
    (clean : Clean [(item stop t (mid ++ semi :: left)).1])
    (ends : (item stop t (mid ++ semi :: left)).2 = left) :
    IsRule (item stop t (mid ++ semi :: left)).1 ⟨t.span.start, semi.span.stop⟩ t.text := by
  rw [item_of_ruleRef kind] at clean ends ⊢
  obtain ⟨mid', semi', ds, whole, _, built⟩ :=
    exists_semi (clean_cons.1 (clean_construct.1 clean).2).2
  simp only at ends
  rw [ends, List.append_cons, List.append_cons mid' semi', List.append_cancel_right_eq] at whole
  obtain ⟨_, same⟩ := List.append_inj' whole rfl
  obtain ⟨rfl, _⟩ := List.cons.inj same
  rw [built, ← List.cons_append]
  refine ⟨rfl, ?_, ?_⟩
  · show extent t.span.start (leaf t :: ds ++ [leaf semi]) = _
    rw [extent, List.getLast?_concat]
    rfl
  · have named : (leaf t).kind = .terminal .ruleRef t.text := by simp [leaf, kind, Derivation.kind]
    show Derivation.ruleName (.node _ _ (leaf t :: ds ++ [leaf semi])) = _
    simp [Derivation.ruleName, Derivation.children, named, NodeKind.token?, NodeKind.text?]

/-- The tokens of a parser rule are read as this rule. -/
theorem readsRule_item {semi : Token} (kind : t.kind = .ruleRef) (closing : semi.kind = .semi)
    (clean : Clean [(item stop t (mid ++ semi :: left)).1])
    (ends : (item stop t (mid ++ semi :: left)).2 = left) :
    ReadsRule t.text (mid.map Token.bare) semi.text (item stop t (mid ++ semi :: left)).1.bare := by
  intro stop' first inside last behind sameF sameI sameL unhandled
  have sameT : first.bare = t.bare := sameF.trans (by rw [Token.bare, kind])
  have sameS : last.bare = semi.bare := sameL.trans (by rw [Token.bare, closing])
  have twins : Twins left behind (mid ++ semi :: left) (inside ++ last :: behind) := by
    rw [List.append_cons, List.append_cons inside]
    exact .of_append (by simp [sameI, sameS])
  have again := again_item stop' sameT twins clean ends unhandled
  have clean' : Clean [(item stop' first (inside ++ last :: behind)).1] := by
    refine clean_of_bare ?_ clean
    rw [List.map_singleton, List.map_singleton, again.built]
  have kind' : first.kind = .ruleRef := (kind_of_bare sameT).trans kind
  refine ⟨_, again.built, text_of_bare sameT ▸ isRule_item kind' clean' again.left, ?_⟩
  rw [List.cons_append, items_cons, again.left]

end

end Grammar

end GrammarIndex

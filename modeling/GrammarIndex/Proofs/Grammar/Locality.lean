import GrammarIndex.Proofs.Grammar.Bare
import GrammarIndex.Proofs.Grammar.Respelling

/-!
A construct is read from its own tokens.

Two lists of tokens are twins if they differ only in the places of tokens and in what comes behind
them. A reader that stops before what comes behind, or that stops with the token it waits for, does
the same on both. Every construct without an error ends with a semicolon, a closing brace or an
action, so what is read at the top depends on nothing behind it but the handlers of a rule.
-/
namespace GrammarIndex.Grammar

open Respelling (bodyOf inFront bodyOf_nil bodyOf_cons commands_of_named)

/-! ### Twins -/

/-- Lists of tokens that are the same but for the places, up to what comes behind. -/
inductive Twins (left left' : List Token) : (toks toks' : List Token) → Prop
  | done : Twins left left' left left'
  | cons {t t' : Token} {toks toks' : List Token} (same : t'.bare = t.bare)
    (behind : Twins left left' toks toks') : Twins left left' (t :: toks) (t' :: toks')

/-- What two readers of one construct built is the same but for the places, and they left twins. -/
structure AgreeOne (left left' : List Token) (x x' : Derivation × List Token) : Prop where
  built : x'.1.bare = x.1.bare
  behind : Twins left left' x.2 x'.2

/-- What two readers built is the same but for the places, and they left twins. -/
structure Agree (left left' : List Token) (x x' : List Derivation × List Token) : Prop where
  built : x'.1.map Derivation.bare = x.1.map Derivation.bare
  behind : Twins left left' x.2 x'.2

section

variable {left left' toks toks' : List Token} {t t' : Token} {rest rest' : List Token}

theorem kind_of_bare (same : t'.bare = t.bare) : t'.kind = t.kind := congrArg Prod.fst same

theorem text_of_bare (same : t'.bare = t.bare) : t'.text = t.text := congrArg Prod.snd same

theorem isName_of_bare (same : t'.bare = t.bare) : isName t' = isName t := by
  rw [isName, isName, kind_of_bare same]

theorem isWord_of_bare (same : t'.bare = t.bare) (word : String) :
    isWord word t' = isWord word t := by
  rw [isWord, isWord, kind_of_bare same, text_of_bare same]

theorem leaf_of_bare (same : t'.bare = t.bare) : (leaf t').bare = (leaf t).bare := by
  rw [leaf, leaf, kind_of_bare same, text_of_bare same, Derivation.bare, Derivation.bare]

theorem construct_of_bare {name : RuleName} {offset offset' : Nat} {ds ds' : List Derivation}
    (same : ds'.map Derivation.bare = ds.map Derivation.bare) :
    (construct name offset' ds').bare = (construct name offset ds).bare := by
  simp only [construct, Derivation.bare, Derivation.bareAll_eq_map, same]

namespace Twins

theorem length_le (twins : Twins left left' toks toks') : left.length ≤ toks.length := by
  induction twins with
  | done => exact Nat.le_refl _
  | cons _ _ ih => exact Nat.le_succ_of_le ih

theorem eq_of_length (twins : Twins left left' toks toks') (size : toks.length ≤ left.length) :
    toks = left ∧ toks' = left' := by
  cases twins with
  | done => exact ⟨rfl, rfl⟩
  | cons _ behind =>
    have := behind.length_le
    simp only [List.length_cons] at size
    omega

theorem of_lt (twins : Twins left left' (t :: rest) toks')
    (more : left.length < (t :: rest).length) :
    ∃ t' rest', toks' = t' :: rest' ∧ t'.bare = t.bare ∧ Twins left left' rest rest' := by
  cases twins with
  | done => exact absurd more (Nat.lt_irrefl _)
  | cons same behind => exact ⟨_, _, rfl, same, behind⟩

theorem of_append {inside inside' : List Token}
    (same : inside'.map Token.bare = inside.map Token.bare) :
    Twins left left' (inside ++ left) (inside' ++ left') := by
  induction inside generalizing inside' with
  | nil =>
    rw [List.map_eq_nil_iff.1 same]
    exact .done
  | cons t inside ih =>
    obtain ⟨t', inside', rfl, first, behind⟩ := List.map_eq_cons_iff.1 same
    exact .cons first (ih behind)

theorem nextIs (twins : Twins left left' rest rest') (more : left.length < rest.length)
    (kind : TokenKind) : nextIs kind rest' = Grammar.nextIs kind rest := by
  cases twins with
  | done => exact absurd more (Nat.lt_irrefl _)
  | cons same _ => rw [Grammar.nextIs, Grammar.nextIs, kind_of_bare same]

theorem startsRule (same : t'.bare = t.bare) (twins : Twins left left' rest rest')
    (more : left.length < rest.length) :
    startsRule (t' :: rest') = Grammar.startsRule (t :: rest) := by
  rw [Grammar.startsRule, Grammar.startsRule, isName_of_bare same, twins.nextIs more]

theorem endsBody (same : t'.bare = t.bare) (twins : Twins left left' rest rest')
    (more : left.length < rest.length) : endsBody t' rest' = Grammar.endsBody t rest := by
  rw [Grammar.endsBody, Grammar.endsBody, isName_of_bare same, isWord_of_bare same,
    isWord_of_bare same, kind_of_bare same, twins.nextIs more, twins.nextIs more]

end Twins

/-! ### Small readers -/

variable {stop : Nat} (stop' : Nat)

theorem agree_takeIf {p : Token → Bool} (blind : ∀ t t', t'.bare = t.bare → p t' = p t)
    (twins : Twins left left' toks toks') (more : left.length < (takeIf p toks).2.length) :
    Agree left left' (takeIf p toks) (takeIf p toks') := by
  cases toks with
  | nil => simp [takeIf] at more
  | cons t rest =>
    obtain ⟨t', rest', rfl, same, behind⟩ :=
      twins.of_lt (Nat.lt_of_lt_of_le more (length_takeIf p _))
    simp only [takeIf, blind t t' same]
    split
    · exact ⟨by simp [leaf_of_bare same], behind⟩
    · exact ⟨rfl, .cons same behind⟩

theorem agree_takeRun {p : Token → Bool} (blind : ∀ t t', t'.bare = t.bare → p t' = p t)
    (twins : Twins left left' toks toks') (more : left.length < (takeRun p toks).2.length) :
    Agree left left' (takeRun p toks) (takeRun p toks') := by
  induction toks generalizing toks' with
  | nil => simp [takeRun] at more
  | cons t rest ih =>
    obtain ⟨t', rest', rfl, same, behind⟩ :=
      twins.of_lt (Nat.lt_of_lt_of_le more (length_takeRun p _))
    simp only [takeRun, blind t t' same] at more ⊢
    split at more
    · next holds =>
      obtain ⟨built, later⟩ := ih behind more
      rw [if_pos holds, if_pos holds]
      exact ⟨by simp [leaf_of_bare same, built], later⟩
    · next fails =>
      rw [if_neg fails, if_neg fails]
      exact ⟨rfl, .cons same behind⟩

/-- What is expected is there, if it is not noted as missing. -/
theorem expect_of_clean {kind : TokenKind} {what : String}
    (clean : Clean [(expect kind what stop toks).1]) :
    ∃ t rest, toks = t :: rest ∧ t.kind = kind ∧ expect kind what stop toks = (leaf t, rest) := by
  cases toks with
  | nil => exact absurd clean (not_clean_missing _ _)
  | cons t rest =>
    by_cases here : t.kind = kind
    · exact ⟨t, rest, rfl, here, by rw [expect, if_pos here]⟩
    · rw [expect, if_neg here] at clean
      exact absurd clean (not_clean_missing _ _)

theorem agree_expect {kind : TokenKind} {what : String} (twins : Twins left left' toks toks')
    (clean : Clean [(expect kind what stop toks).1])
    (more : left.length ≤ (expect kind what stop toks).2.length) :
    AgreeOne left left' (expect kind what stop toks) (expect kind what stop' toks') := by
  obtain ⟨t, rest, rfl, here, found⟩ := expect_of_clean clean
  rw [found] at more ⊢
  obtain ⟨t', rest', rfl, same, behind⟩ := twins.of_lt (Nat.lt_succ_of_le more)
  rw [expect, if_pos ((kind_of_bare same).trans here)]
  exact ⟨leaf_of_bare same, behind⟩

theorem untilSemi_lt (clean : Clean (untilSemi stop toks).1) :
    (untilSemi stop toks).2.length < toks.length := by
  induction toks with
  | nil => exact absurd clean (not_clean_missing _ _)
  | cons t rest ih =>
    simp only [untilSemi] at clean ⊢
    split at clean
    · exact absurd clean (not_clean_missing _ _)
    · next inside =>
      rw [if_neg inside]
      split at clean
      · next semi =>
        rw [if_pos semi]
        exact Nat.lt_succ_self _
      · next other =>
        rw [if_neg other]
        exact Nat.lt_succ_of_lt (ih (clean_cons.1 clean).2)

theorem agree_untilSemi (twins : Twins left left' toks toks')
    (clean : Clean (untilSemi stop toks).1)
    (more : left.length ≤ (untilSemi stop toks).2.length) :
    Agree left left' (untilSemi stop toks) (untilSemi stop' toks') := by
  induction toks generalizing toks' with
  | nil => exact absurd clean (not_clean_missing _ _)
  | cons t rest ih =>
    obtain ⟨t', rest', rfl, same, behind⟩ :=
      twins.of_lt (Nat.lt_of_le_of_lt more (untilSemi_lt clean))
    simp only [untilSemi] at clean more ⊢
    split at clean
    · exact absurd clean (not_clean_missing _ _)
    · next inside =>
      rw [if_neg inside] at more ⊢
      split at clean
      · next semi =>
        have semi' := (kind_of_bare same).trans semi
        have inside' : ¬ startsRule (t' :: rest') = true := by simp [startsRule, isName, semi']
        rw [if_pos semi, if_neg inside', if_pos semi']
        exact ⟨by simp [leaf_of_bare same], behind⟩
      · next other =>
        rw [if_neg other] at more ⊢
        have cleanRest := (clean_cons.1 clean).2
        have ahead := Nat.lt_of_le_of_lt more (untilSemi_lt cleanRest)
        rw [Twins.startsRule same behind ahead, if_neg inside, kind_of_bare same, if_neg other]
        obtain ⟨built, later⟩ := ih behind cleanRest more
        exact ⟨by simp [leaf_of_bare same, built], later⟩

theorem agree_untilBrace (twins : Twins left left' toks toks')
    (clean : Clean (untilBrace stop toks).1)
    (more : left.length ≤ (untilBrace stop toks).2.length) :
    Agree left left' (untilBrace stop toks) (untilBrace stop' toks') := by
  induction toks generalizing toks' with
  | nil => exact absurd clean (not_clean_missing _ _)
  | cons t rest ih =>
    have shorter : left.length < (t :: rest).length := by
      refine Nat.lt_of_le_of_lt more (Nat.lt_succ_of_le ?_)
      rw [untilBrace]
      split
      · exact Nat.le_refl _
      · exact length_untilBrace stop rest
    obtain ⟨t', rest', rfl, same, behind⟩ := twins.of_lt shorter
    simp only [untilBrace, kind_of_bare same] at clean more ⊢
    split at clean
    · next closes =>
      rw [if_pos closes, if_pos closes]
      exact ⟨by simp [leaf_of_bare same], behind⟩
    · next other =>
      rw [if_neg other] at more
      rw [if_neg other, if_neg other]
      obtain ⟨built, later⟩ := ih behind (clean_cons.1 clean).2 more
      exact ⟨by simp [leaf_of_bare same, built], later⟩

theorem agree_untilAngle (twins : Twins left left' toks toks')
    (clean : Clean (untilAngle stop toks).1)
    (more : left.length < (untilAngle stop toks).2.length) :
    Agree left left' (untilAngle stop toks) (untilAngle stop' toks') := by
  induction toks generalizing toks' with
  | nil => exact absurd clean (not_clean_missing _ _)
  | cons t rest ih =>
    obtain ⟨t', rest', rfl, same, behind⟩ :=
      twins.of_lt (Nat.lt_of_lt_of_le more (length_untilAngle stop _))
    simp only [untilAngle, kind_of_bare same, text_of_bare same] at clean more ⊢
    split at clean
    · next closes =>
      rw [if_pos closes, if_pos closes]
      exact ⟨by simp [leaf_of_bare same], behind⟩
    · next other =>
      rw [if_neg other] at more
      rw [if_neg other, if_neg other]
      split at clean
      · exact absurd clean (not_clean_missing _ _)
      · next inside =>
        rw [if_neg inside] at more
        rw [if_neg inside, if_neg inside]
        obtain ⟨built, later⟩ := ih behind (clean_cons.1 clean).2 more
        exact ⟨by simp [leaf_of_bare same, built], later⟩

/-! ### Inner constructs -/

theorem agree_braced {name : RuleName} (same : t'.bare = t.bare)
    (twins : Twins left left' rest rest') (clean : Clean [(braced name stop t rest).1])
    (more : left.length ≤ (braced name stop t rest).2.length) :
    AgreeOne left left' (braced name stop t rest) (braced name stop' t' rest') := by
  simp only [braced] at clean more ⊢
  obtain ⟨_, opening, closing⟩ := clean_construct.1 clean |>.imp_right fun clean =>
    clean_cons.1 (clean_cons.1 clean).2
  obtain ⟨opened, inside⟩ := agree_expect stop' twins opening
    (Nat.le_trans more (length_untilBrace _ _))
  obtain ⟨built, behind⟩ := agree_untilBrace stop' inside closing more
  exact ⟨construct_of_bare (by simp [leaf_of_bare same, opened, built]), behind⟩

theorem agree_command (same : t'.bare = t.bare) (twins : Twins left left' rest rest')
    (clean : Clean [(command stop t rest).1])
    (more : left.length < (command stop t rest).2.length) :
    AgreeOne left left' (command stop t rest) (command stop' t' rest') := by
  have shorter := Nat.lt_of_lt_of_le more (length_command stop t rest)
  cases rest with
  | nil => exact absurd shorter (Nat.not_lt_zero _)
  | cons opening inside =>
    obtain ⟨opening', inside', rfl, sameO, behind⟩ := twins.of_lt shorter
    simp only [command, kind_of_bare sameO] at clean more ⊢
    split at clean
    · next opens =>
      rw [if_pos opens] at more
      rw [if_pos opens, if_pos opens]
      have closing := (clean_append.1 (clean_construct.1 clean).2).2
      have blind : ∀ t t' : Token, t'.bare = t.bare →
          (isName t' || t'.kind == .int) = (isName t || t.kind == .int) := fun t t' same => by
        rw [isName_of_bare same, kind_of_bare same]
      obtain ⟨close, later, taken, _, found⟩ := expect_of_clean closing
      have some_ : left.length <
          (takeIf (fun t => isName t || t.kind == .int) inside).2.length := by
        rw [found] at more
        rw [taken]
        exact Nat.lt_succ_of_lt more
      obtain ⟨argument, rest⟩ := agree_takeIf blind behind some_
      obtain ⟨closed, last⟩ := agree_expect stop' rest closing (Nat.le_of_lt more)
      exact ⟨construct_of_bare (by
        simp [leaf_of_bare same, leaf_of_bare sameO, argument, closed]), last⟩
    · next other =>
      rw [if_neg other, if_neg other]
      exact ⟨construct_of_bare (by simp [leaf_of_bare same]), .cons sameO behind⟩

/-- A command with a token behind it is read again, with the same token behind it. -/
theorem command_of_read {d : Derivation} {next : Token} {behind : List Token}
    (read : command stop t rest = (d, next :: behind)) (twins : Twins left left' (t :: rest) toks')
    (clean : Clean [d]) (more : left.length < (next :: behind).length) :
    ∃ t' rest' d' next' behind', toks' = t' :: rest' ∧ t'.bare = t.bare ∧
      command stop' t' rest' = (d', next' :: behind') ∧ d'.bare = d.bare ∧
      next'.bare = next.bare ∧ Twins left left' behind behind' := by
  have size := length_command stop t rest
  rw [read] at size
  obtain ⟨t', rest', rfl, same, twinsRest⟩ :=
    twins.of_lt (Nat.lt_succ_of_lt (Nat.lt_of_lt_of_le more size))
  have again := agree_command stop' same twinsRest
    (show Clean [(command stop t rest).1] by rw [read]; exact clean) (by rw [read]; exact more)
  rw [read] at again
  obtain ⟨next', behind', ahead, sameN, twinsBehind⟩ := again.behind.of_lt more
  exact ⟨t', rest', _, next', behind', rfl, same, Prod.ext rfl ahead, again.built, sameN,
    twinsBehind⟩

theorem agree_commands (twins : Twins left left' toks toks')
    (clean : Clean (commands stop toks).1) (more : left.length < (commands stop toks).2.length) :
    Agree left left' (commands stop toks) (commands stop' toks') := by
  have named_of_bare : ∀ {t t' : Token}, t'.bare = t.bare →
      (isName t' || t'.kind == .keyword) = (isName t || t.kind == .keyword) := fun same => by
    rw [isName_of_bare same, kind_of_bare same]
  fun_induction commands stop toks generalizing toks' with
  | case1 => exact absurd more (Nat.not_lt_zero _)
  | case2 => exact absurd more (Nat.not_lt_zero _)
  | case3 t rest named d comma behind read isComma others =>
    rename_i ih
    obtain ⟨cleanFirst, cleanRest⟩ := clean_cons.1 clean
    have ahead : left.length < (comma :: behind).length :=
      Nat.lt_succ_of_lt (Nat.lt_of_lt_of_le more (length_commands stop behind))
    obtain ⟨t', rest', d', comma', behind', rfl, same, read', first, sameC, twinsBehind⟩ :=
      command_of_read stop' read twins cleanFirst ahead
    obtain ⟨built, last⟩ := ih twinsBehind (clean_cons.1 cleanRest).2 more
    rw [commands_of_named _ ((named_of_bare same).trans named), read']
    simp only [(kind_of_bare sameC).trans isComma, if_true]
    exact ⟨by simp [first, leaf_of_bare sameC, built, others], last⟩
  | case4 t rest named d comma behind read notComma =>
    obtain ⟨t', rest', d', comma', behind', rfl, same, read', first, sameC, twinsBehind⟩ :=
      command_of_read stop' read twins clean more
    rw [commands_of_named _ ((named_of_bare same).trans named), read']
    simp only [kind_of_bare sameC, notComma, if_false]
    exact ⟨by simp [first], .cons sameC twinsBehind⟩
  | case5 t rest other =>
    obtain ⟨t', rest', rfl, same, twinsRest⟩ := twins.of_lt more
    rw [commands, named_of_bare same, if_neg other]
    exact ⟨rfl, .cons same twinsRest⟩

/-! ### Rule bodies -/

theorem length_bodyOf (close : TokenKind) (toks : List Token) :
    (bodyOf stop close toks).left.length ≤ toks.length := (elements stop close toks).property

/-- If the closing token is found behind a body, the body ends there. -/
theorem closed_of_clean {close : TokenKind} {what : String}
    (clean : Clean [(expect close what stop (bodyOf stop close toks).left).1]) :
    (bodyOf stop close toks).closed = true := by
  fun_induction elements stop close toks with
  | case1 =>
    rw [bodyOf_nil] at clean
    exact absurd clean (not_clean_missing _ _)
  | case2 t rest => rw [bodyOf_cons, if_pos rfl]
  | case3 close t rest goes ends =>
    rw [bodyOf_cons, if_neg goes, if_pos ends, expect, if_neg goes] at clean
    exact absurd clean (not_clean_missing _ _)
  | case4 close t rest goes inside opens inner closing shorter block _ ih =>
    rw [bodyOf_cons, if_neg goes, if_neg inside, if_pos opens] at clean ⊢
    exact ih clean
  | case5 close t rest goes inside noBlock closes ih =>
    rw [bodyOf_cons, if_neg goes, if_neg inside, if_neg noBlock, if_pos closes] at clean ⊢
    exact ih clean
  | case6 close t rest goes inside noBlock noStray arrow list shorter group ih =>
    rw [bodyOf_cons, if_neg goes, if_neg inside, if_neg noBlock, if_neg noStray, if_pos arrow]
      at clean ⊢
    exact ih clean
  | case7 close t rest goes inside noBlock noStray noArrow angle list shorter group ih =>
    rw [bodyOf_cons, if_neg goes, if_neg inside, if_neg noBlock, if_neg noStray, if_neg noArrow,
      if_pos angle] at clean ⊢
    exact ih clean
  | case8 close t rest goes inside noBlock noStray noArrow noAngle ih =>
    rw [bodyOf_cons, if_neg goes, if_neg inside, if_neg noBlock, if_neg noStray, if_neg noArrow,
      if_neg noAngle] at clean ⊢
    exact ih clean

theorem Agree.inFront {b b' : Body}
    (agree : Agree left left' (b.elements, b.left) (b'.elements, b'.left))
    {d d' : Derivation} (same : d'.bare = d.bare) :
    Agree left left' ((inFront d b).elements, (inFront d b).left)
      ((inFront d' b').elements, (inFront d' b').left) :=
  ⟨by simp [Respelling.inFront, same, agree.built], agree.behind⟩

theorem agree_bodyOf {close : TokenKind} (twins : Twins left left' toks toks')
    (clean : Clean (bodyOf stop close toks).elements)
    (closed : (bodyOf stop close toks).closed = true)
    (more : left.length < (bodyOf stop close toks).left.length) :
    Agree left left' ((bodyOf stop close toks).elements, (bodyOf stop close toks).left)
      ((bodyOf stop' close toks').elements, (bodyOf stop' close toks').left) := by
  fun_induction elements stop close toks generalizing toks' with
  | case1 =>
    rw [bodyOf_nil] at closed
    cases closed
  | case2 t rest =>
    have shorter := Nat.lt_of_lt_of_le more (length_bodyOf _ _)
    obtain ⟨t', rest', rfl, same, behind⟩ := twins.of_lt shorter
    rw [bodyOf_cons, if_pos rfl, bodyOf_cons, if_pos (kind_of_bare same)]
    exact ⟨rfl, .cons same behind⟩
  | case3 close t rest goes ends =>
    rw [bodyOf_cons, if_neg goes, if_pos ends] at closed
    cases closed
  | case4 close t rest goes inside opens inner closing shorter block =>
    rename_i ihInner ihRest
    rw [bodyOf_cons, if_neg goes, if_neg inside, if_pos opens] at clean closed more ⊢
    obtain ⟨first, others⟩ := clean_cons.1 clean
    obtain ⟨cleanInner, cleanClosing⟩ :=
      clean_append.1 (clean_cons.1 (clean_construct.1 first).2).2
    have room := Nat.lt_of_lt_of_le more (length_bodyOf _ _)
    obtain ⟨c, behindInner, ahead, _, found⟩ := expect_of_clean cleanClosing
    have roomInner : left.length < (bodyOf stop .rparen rest).left.length := by
      rw [found] at room
      rw [ahead]
      exact Nat.lt_succ_of_lt room
    have shorter' := Nat.lt_of_lt_of_le roomInner (length_bodyOf _ _)
    obtain ⟨t', rest', rfl, same, behind⟩ := twins.of_lt (Nat.lt_succ_of_lt shorter')
    rw [bodyOf_cons, kind_of_bare same, behind.endsBody same shorter', if_neg goes, if_neg inside,
      if_pos opens]
    have read := ihInner behind cleanInner (closed_of_clean cleanClosing) roomInner
    obtain ⟨closes, later⟩ := agree_expect stop' read.behind cleanClosing
      (Nat.le_of_lt room)
    refine (ihRest later others closed more).inFront (construct_of_bare ?_)
    simp [leaf_of_bare same, read.built, closes]
  | case5 close t rest goes inside noBlock closes ih =>
    rw [bodyOf_cons, if_neg goes, if_neg inside, if_neg noBlock, if_pos closes] at clean
    exact absurd (clean_cons.1 clean).1 (not_clean_stray t)
  | case6 close t rest goes inside noBlock noStray arrow list shorter group =>
    rename_i ih
    rw [bodyOf_cons, if_neg goes, if_neg inside, if_neg noBlock, if_neg noStray, if_pos arrow]
      at clean closed more ⊢
    obtain ⟨first, others⟩ := clean_cons.1 clean
    have room := Nat.lt_of_lt_of_le more (length_bodyOf _ _)
    have shorter' := Nat.lt_of_lt_of_le room (length_commands stop rest)
    obtain ⟨t', rest', rfl, same, behind⟩ := twins.of_lt (Nat.lt_succ_of_lt shorter')
    rw [bodyOf_cons, kind_of_bare same, behind.endsBody same shorter', if_neg goes, if_neg inside,
      if_neg noBlock, if_neg noStray, if_pos arrow]
    have read := agree_commands stop' behind
      (clean_cons.1 (clean_construct.1 first).2).2 room
    refine (ih read.behind others closed more).inFront (construct_of_bare ?_)
    simp [leaf_of_bare same, read.built]
  | case7 close t rest goes inside noBlock noStray noArrow angle list shorter group =>
    rename_i ih
    rw [bodyOf_cons, if_neg goes, if_neg inside, if_neg noBlock, if_neg noStray, if_neg noArrow,
      if_pos angle] at clean closed more ⊢
    obtain ⟨first, others⟩ := clean_cons.1 clean
    have room := Nat.lt_of_lt_of_le more (length_bodyOf _ _)
    have shorter' := Nat.lt_of_lt_of_le room (length_untilAngle stop rest)
    obtain ⟨t', rest', rfl, same, behind⟩ := twins.of_lt (Nat.lt_succ_of_lt shorter')
    rw [bodyOf_cons, kind_of_bare same, text_of_bare same, behind.endsBody same shorter',
      if_neg goes, if_neg inside, if_neg noBlock, if_neg noStray, if_neg noArrow, if_pos angle]
    have read := agree_untilAngle stop' behind
      (clean_cons.1 (clean_construct.1 first).2).2 room
    refine (ih read.behind others closed more).inFront (construct_of_bare ?_)
    simp [leaf_of_bare same, read.built]
  | case8 close t rest goes inside noBlock noStray noArrow noAngle ih =>
    rw [bodyOf_cons, if_neg goes, if_neg inside, if_neg noBlock, if_neg noStray, if_neg noArrow,
      if_neg noAngle] at clean closed more ⊢
    have shorter' := Nat.lt_of_lt_of_le more (length_bodyOf _ _)
    obtain ⟨t', rest', rfl, same, behind⟩ := twins.of_lt (Nat.lt_succ_of_lt shorter')
    rw [bodyOf_cons, kind_of_bare same, text_of_bare same, behind.endsBody same shorter',
      if_neg goes, if_neg inside, if_neg noBlock, if_neg noStray, if_neg noArrow, if_neg noAngle]
    exact (ih behind (clean_cons.1 clean).2 closed more).inFront (leaf_of_bare same)

/-! ### Rules -/

/-- Without errors a rule has its colon. -/
theorem colon_of_clean (clean : Clean (prequel stop toks).1) : (prequel stop toks).2.2 = true := by
  fun_induction prequel stop toks with
  | case1 => exact absurd clean (not_clean_missing _ _)
  | case2 => exact absurd clean (not_clean_missing _ _)
  | case3 => rfl
  | case4 t rest late noColon word opts ds out recur ih =>
    rw [recur] at ih
    exact ih (clean_cons.1 clean).2
  | case5 => exact absurd (clean_cons.1 clean).1 (not_clean_missing _ _)
  | case6 t rest late noColon word noSemi ds out recur ih =>
    rw [recur] at ih
    exact ih (clean_cons.1 clean).2

theorem agree_prequel (twins : Twins left left' toks toks')
    (clean : Clean (prequel stop toks).1)
    (more : left.length < (prequel stop toks).2.1.length) :
    Agree left left' ((prequel stop toks).1, (prequel stop toks).2.1)
      ((prequel stop' toks').1, (prequel stop' toks').2.1) := by
  have shorter := Nat.lt_of_lt_of_le more (length_prequel _ _)
  fun_induction prequel stop toks generalizing toks' with
  | case1 => exact absurd shorter (Nat.not_lt_zero _)
  | case2 t rest early => exact absurd clean (not_clean_missing _ _)
  | case3 t rest late colon =>
    obtain ⟨t', rest', rfl, same, behind⟩ := twins.of_lt shorter
    have colon' := (kind_of_bare same).trans colon
    rw [prequel, if_neg (by simp [startsRule, isName, isWord, colon']), if_pos colon']
    exact ⟨by simp [leaf_of_bare same], behind⟩
  | case4 t rest late noColon word opts ds out recur =>
    rename_i ih
    obtain ⟨first, others⟩ := clean_cons.1 clean
    have room : left.length < opts.2.length :=
      Nat.lt_of_lt_of_le more (by have := length_prequel stop opts.2; rwa [recur] at this)
    have shorter' := Nat.lt_of_lt_of_le room (length_braced _ _ _ _)
    obtain ⟨t', rest', rfl, same, behind⟩ := twins.of_lt (Nat.lt_succ_of_lt shorter')
    obtain ⟨built, later⟩ := agree_braced stop' same behind first (Nat.le_of_lt room)
    rw [recur] at ih
    have read := ih later others more room
    rw [prequel, Twins.startsRule same behind shorter', isWord_of_bare same, isWord_of_bare same,
      if_neg late, kind_of_bare same, if_neg noColon, isWord_of_bare same, if_pos word]
    exact ⟨by simp [built, read.built, opts], read.behind⟩
  | case5 t rest late noColon word semi =>
    exact absurd (clean_cons.1 clean).1 (not_clean_missing _ _)
  | case6 t rest late noColon word noSemi ds out recur =>
    rename_i ih
    have room : left.length < rest.length :=
      Nat.lt_of_lt_of_le more (by have := length_prequel stop rest; rwa [recur] at this)
    obtain ⟨t', rest', rfl, same, behind⟩ := twins.of_lt shorter
    rw [recur] at ih
    have read := ih behind (clean_cons.1 clean).2 more room
    rw [prequel, Twins.startsRule same behind room, isWord_of_bare same, isWord_of_bare same,
      if_neg late, kind_of_bare same, if_neg noColon, isWord_of_bare same, if_neg word,
      if_neg noSemi]
    exact ⟨by simp [leaf_of_bare same, read.built], read.behind⟩

/-- No handler of a rule comes first. -/
def Unhandled (toks : List Token) : Prop :=
  ∀ t ∈ toks.head?, (isWord "catch" t || isWord "finally" t) = false

theorem handlers_of_unhandled (none_ : Unhandled toks) : handlers toks = ([], toks) := by
  cases toks with
  | nil => rw [handlers]
  | cons t rest =>
    have other := none_ t rfl
    rw [handlers, if_neg (Bool.eq_false_iff.1 other)]

theorem handlers_of_isEmpty (none_ : (handlers toks).1.isEmpty = true) :
    (handlers toks).2 = toks := by
  cases toks with
  | nil => rw [handlers]
  | cons t rest =>
    rw [handlers] at none_ ⊢
    split at none_
    · cases none_
    · next other => rw [if_neg other]

/-- How a rule without errors is read: up to its colon, up to its semicolon, and no further. -/
structure RuleRead (stop : Nat) (toks : List Token) (semi : Token) : Prop where
  named : Clean (prequel stop toks).1
  inside : Clean (bodyOf stop .semi (prequel stop toks).2.1).elements
  ahead : (bodyOf stop .semi (prequel stop toks).2.1).left = semi :: (ruleTail stop toks).2
  closing : semi.kind = .semi
  built : (ruleTail stop toks).1 = (prequel stop toks).1 ++
    [construct .ruleBlock (here stop (prequel stop toks).2.1)
      (bodyOf stop .semi (prequel stop toks).2.1).elements, leaf semi]

theorem ruleRead_of_clean (clean : Clean (ruleTail stop toks).1) :
    ∃ semi, RuleRead stop toks semi := by
  have folded : ∀ toks, (elements stop .semi toks).val = bodyOf stop .semi toks := fun _ => rfl
  simp only [ruleTail, folded] at clean
  by_cases colon : (prequel stop toks).2.2 = true
  · rw [if_pos colon] at clean
    simp only at clean
    obtain ⟨named, behind⟩ := clean_append.1 clean
    obtain ⟨block, behind⟩ := clean_cons.1 behind
    obtain ⟨closing, tail⟩ := clean_cons.1 behind
    obtain ⟨semi, left, ahead, kind, found⟩ := expect_of_clean closing
    rw [found] at tail
    have none_ : (handlers left).1.isEmpty = true := by
      by_cases some_ : (handlers left).1.isEmpty = true
      · exact some_
      · rw [if_neg some_] at tail
        exact absurd rfl (clean_construct.1 tail).1
    have built : ruleTail stop toks = ((prequel stop toks).1 ++
        [construct .ruleBlock (here stop (prequel stop toks).2.1)
          (bodyOf stop .semi (prequel stop toks).2.1).elements, leaf semi], left) := by
      simp only [ruleTail, folded, if_pos colon, found, none_, if_true,
        handlers_of_isEmpty none_]
    exact ⟨semi, named, (clean_construct.1 block).2, by rw [ahead, built], kind, by rw [built]⟩
  · rw [if_neg colon] at clean
    exact absurd (colon_of_clean clean) colon

theorem ruleTail_of_unhandled {semi : Token} (colon : (prequel stop toks).2.2 = true)
    (ahead : (bodyOf stop .semi (prequel stop toks).2.1).left = semi :: left)
    (kind : semi.kind = .semi) (none_ : Unhandled left) :
    ruleTail stop toks = ((prequel stop toks).1 ++
      [construct .ruleBlock (here stop (prequel stop toks).2.1)
        (bodyOf stop .semi (prequel stop toks).2.1).elements, leaf semi], left) := by
  have folded : ∀ toks, (elements stop .semi toks).val = bodyOf stop .semi toks := fun _ => rfl
  simp only [ruleTail, folded, if_pos colon, ahead, expect, if_pos kind,
    handlers_of_unhandled none_, List.isEmpty_nil, if_true]

theorem clean_of_bare {ds ds' : List Derivation}
    (same : ds'.map Derivation.bare = ds.map Derivation.bare) (clean : Clean ds) : Clean ds' := by
  rw [← clean_map_bare, same]
  exact clean_map_bare.2 clean

theorem agree_ruleTail (twins : Twins left left' toks toks') (clean : Clean (ruleTail stop toks).1)
    (ends : (ruleTail stop toks).2 = left) (none_ : Unhandled left') :
    (ruleTail stop' toks').1.map Derivation.bare = (ruleTail stop toks).1.map Derivation.bare ∧
      (ruleTail stop' toks').2 = left' := by
  obtain ⟨semi, read⟩ := ruleRead_of_clean clean
  have ahead := read.ahead
  rw [ends] at ahead
  have room : left.length < (bodyOf stop .semi (prequel stop toks).2.1).left.length := by
    rw [ahead]
    exact Nat.lt_succ_self _
  have before := agree_prequel stop' twins read.named
    (Nat.lt_of_lt_of_le room (length_bodyOf _ _))
  have found :
      Clean [(expect .semi "';'" stop (bodyOf stop .semi (prequel stop toks).2.1).left).1] := by
    rw [ahead, expect, if_pos read.closing]
    exact (clean_append.1 (by rw [read.built] at clean; exact clean)).2 |> clean_cons.1 |>.2
  have inside := agree_bodyOf stop' before.behind read.inside (closed_of_clean found) room
  have behind := inside.behind
  simp only [ahead] at behind
  obtain ⟨semi', rest', ahead', same, last⟩ := behind.of_lt (Nat.lt_succ_self _)
  obtain ⟨_, rfl⟩ := last.eq_of_length (Nat.le_refl _)
  rw [ruleTail_of_unhandled (colon_of_clean (clean_of_bare before.built read.named)) ahead'
    ((kind_of_bare same).trans read.closing) none_, read.built]
  have block : (construct .ruleBlock (here stop' (prequel stop' toks').2.1)
      (bodyOf stop' .semi (prequel stop' toks').2.1).elements).bare =
      (construct .ruleBlock (here stop (prequel stop toks).2.1)
        (bodyOf stop .semi (prequel stop toks).2.1).elements).bare := construct_of_bare inside.built
  refine ⟨?_, rfl⟩
  rw [List.map_append, List.map_append, before.built, List.map_cons, List.map_cons, block]
  simp [leaf_of_bare same]

/-- A rule takes at least its semicolon. -/
theorem ruleTail_lt (clean : Clean (ruleTail stop toks).1) :
    (ruleTail stop toks).2.length < toks.length := by
  obtain ⟨semi, read⟩ := ruleRead_of_clean clean
  have size := congrArg List.length read.ahead
  have body := @length_bodyOf stop .semi (prequel stop toks).2.1
  have before := length_prequel stop toks
  rw [List.length_cons] at size
  omega

/-! ### The top -/

/-- A construct that was read is read again, up to `left'`. -/
structure Again (left' : List Token) (x x' : Derivation × List Token) : Prop where
  built : x'.1.bare = x.1.bare
  left : x'.2 = left'

theorem again_declaration {name : RuleName} (same : t'.bare = t.bare)
    (twins : Twins left left' rest rest') (clean : Clean [(declaration name stop t rest).1])
    (ends : (declaration name stop t rest).2 = left) :
    Again left' (declaration name stop t rest) (declaration name stop' t' rest') := by
  have read := agree_untilSemi stop' twins
    (clean_cons.1 (clean_construct.1 clean).2).2 (Nat.le_of_eq (congrArg List.length ends.symm))
  exact ⟨construct_of_bare (by simp [leaf_of_bare same, read.built]),
    (read.behind.eq_of_length (Nat.le_of_eq (congrArg List.length ends))).2⟩

theorem again_braced {name : RuleName} (same : t'.bare = t.bare)
    (twins : Twins left left' rest rest') (clean : Clean [(braced name stop t rest).1])
    (ends : (braced name stop t rest).2 = left) :
    Again left' (braced name stop t rest) (braced name stop' t' rest') := by
  obtain ⟨built, behind⟩ := agree_braced stop' same twins clean
    (Nat.le_of_eq (congrArg List.length ends.symm))
  exact ⟨built, (behind.eq_of_length (Nat.le_of_eq (congrArg List.length ends))).2⟩

theorem again_namedAction (same : t'.bare = t.bare) (twins : Twins left left' rest rest')
    (clean : Clean [(namedAction stop t rest).1]) (ends : (namedAction stop t rest).2 = left) :
    Again left' (namedAction stop t rest) (namedAction stop' t' rest') := by
  simp only [namedAction] at clean ends ⊢
  have action := (clean_append.1 (clean_construct.1 clean).2).2
  obtain ⟨a, behind, ahead, _, found⟩ := expect_of_clean action
  have blind : ∀ t t' : Token, t'.bare = t.bare →
      (isName t' || t'.kind == .keyword || t'.kind == .colon) =
        (isName t || t.kind == .keyword || t.kind == .colon) := fun t t' same => by
    rw [isName_of_bare same, kind_of_bare same]
  have room : left.length <
      (takeRun (fun t => isName t || t.kind == .keyword || t.kind == .colon) rest).2.length := by
    rw [found] at ends
    rw [ahead, ← ends]
    exact Nat.lt_succ_self _
  obtain ⟨names, later⟩ := agree_takeRun blind twins room
  obtain ⟨body, last⟩ := agree_expect stop' later action
    (Nat.le_of_eq (congrArg List.length ends.symm))
  exact ⟨construct_of_bare (by simp [leaf_of_bare same, names, body]),
    (last.eq_of_length (Nat.le_of_eq (congrArg List.length ends))).2⟩

theorem again_ruleSpec {name : RuleName} (same : t'.bare = t.bare)
    (twins : Twins left left' rest rest') (clean : Clean [(ruleSpec name stop t rest).1])
    (ends : (ruleSpec name stop t rest).2 = left) (none_ : Unhandled left') :
    Again left' (ruleSpec name stop t rest) (ruleSpec name stop' t' rest') := by
  simp only [ruleSpec, isWord_of_bare same] at clean ends ⊢
  have tail := (clean_append.1 (clean_construct.1 clean).2).2
  split at clean <;> rename_i fragment_
  · rw [if_pos fragment_] at ends tail
    rw [if_pos fragment_, if_pos fragment_]
    obtain ⟨head, later⟩ := agree_takeIf (p := fun _ => true) (fun _ _ _ => rfl) twins
      (Nat.lt_of_le_of_lt (Nat.le_of_eq (congrArg List.length ends.symm)) (ruleTail_lt tail))
    obtain ⟨built, last⟩ := agree_ruleTail stop' later tail ends none_
    exact ⟨construct_of_bare (by simp [leaf_of_bare same, head, built]), last⟩
  · rw [if_neg fragment_] at ends tail
    rw [if_neg fragment_, if_neg fragment_]
    obtain ⟨built, last⟩ := agree_ruleTail stop' twins tail ends none_
    exact ⟨construct_of_bare (by simp [leaf_of_bare same, built]), last⟩

/-- The reader that the first token of a construct asks for. -/
inductive Reader where
  | declaration (name : RuleName)
  | braced (name : RuleName)
  | ruleSpec (name : RuleName)
  | namedAction
  | stray
  deriving DecidableEq, Repr

def Reader.read (stop : Nat) (t : Token) (rest : List Token) : Reader → Derivation × List Token
  | declaration name => Grammar.declaration name stop t rest
  | braced name => Grammar.braced name stop t rest
  | ruleSpec name => Grammar.ruleSpec name stop t rest
  | namedAction => Grammar.namedAction stop t rest
  | stray => (Grammar.stray t, rest)

def readerOf (kind : TokenKind) (text : String) : Reader :=
  match kind with
  | .keyword =>
    match text with
    | "lexer" | "parser" | "grammar" => .declaration .grammarDecl
    | "import" => .declaration .delegateGrammars
    | "mode" => .declaration .modeSpec
    | "options" => .braced .optionsSpec
    | "tokens" => .braced .tokensSpec
    | "channels" => .braced .channelsSpec
    | "fragment" => .ruleSpec .lexerRuleSpec
    | _ => .stray
  | .tokenRef => .ruleSpec .lexerRuleSpec
  | .ruleRef => .ruleSpec .parserRuleSpec
  | .atSign => .namedAction
  | _ => .stray

theorem item_eq (stop : Nat) (t : Token) (rest : List Token) :
    item stop t rest = (readerOf t.kind t.text).read stop t rest := by
  obtain ⟨kind, text, span⟩ := t
  cases kind with
  | keyword =>
    unfold item readerOf
    dsimp only
    split <;> simp [Reader.read, *]
  | _ => rfl

/-- What stands at the top is read again wherever its tokens stand. -/
theorem again_item (same : t'.bare = t.bare) (twins : Twins left left' rest rest')
    (clean : Clean [(item stop t rest).1]) (ends : (item stop t rest).2 = left)
    (none_ : Unhandled left') : Again left' (item stop t rest) (item stop' t' rest') := by
  rw [item_eq] at clean ends ⊢
  rw [item_eq, kind_of_bare same, text_of_bare same]
  generalize readerOf t.kind t.text = reader at clean ends ⊢
  cases reader with
  | declaration name => exact again_declaration stop' same twins clean ends
  | braced name => exact again_braced stop' same twins clean ends
  | ruleSpec name => exact again_ruleSpec stop' same twins clean ends none_
  | namedAction => exact again_namedAction stop' same twins clean ends
  | stray => exact absurd clean (not_clean_stray t)

end

end GrammarIndex.Grammar

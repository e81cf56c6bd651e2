import GrammarIndex.Proofs.Grammar.Cut
import GrammarIndex.Proofs.Grammar.Reads
import GrammarIndex.Refactoring.SortRules

/-!
Texts as gaps and parser rules in turns.

A text without errors is a gap, a parser rule, a gap, a parser rule and so on, up to a last gap.
Each gap and each rule is cut and read on its own. So with other rules in the places of the old
ones, the text is cut and read as the same gaps with the other rules between them.
-/
namespace GrammarIndex.Grammar

open Bit (chars tokens token?)
open SortRules (Slot)

/-- A parser rule of a text: what it is called, what stands between its name and its semicolon, and
what it is read as. -/
structure RuleText where
  name : String
  inside : List Bit
  semi : String
  construct : Derivation
  kind : construct.kind = .rule .parserRuleSpec
  named : construct.ruleName = name
  reads : ReadsRule name (inside.filterMap token?) semi construct

def RuleText.bits (r : RuleText) : List Bit :=
  (.token .ruleRef, r.name) :: r.inside ++ [(.token .semi, r.semi)]

/-- What stands between two parser rules, and what it is read as. -/
structure GapText where
  bits : List Bit
  constructs : List Derivation
  plain : ∀ d ∈ constructs, d.kind ≠ .rule .parserRuleSpec
  reads : Reads (bits.filterMap token?) constructs

/-- A gap behind another. -/
def GapText.append (g g' : GapText) : GapText where
  bits := g.bits ++ g'.bits
  constructs := g.constructs ++ g'.constructs
  plain d member := (List.mem_append.1 member).elim (g.plain d) (g'.plain d)
  reads := by
    rw [List.filterMap_append]
    exact g.reads.append g'.reads

/-- Gaps and parser rules in turns. -/
structure Weave where
  entries : List (GapText × RuleText)
  last : GapText

namespace Weave

def bits (w : Weave) : List Bit :=
  w.entries.flatMap (fun e => e.1.bits ++ e.2.bits) ++ w.last.bits

def constructs (w : Weave) : List Derivation :=
  w.entries.flatMap (fun e => e.1.constructs ++ [e.2.construct]) ++ w.last.constructs

/-- A gap in front. -/
def prepend (g : GapText) (w : Weave) : Weave :=
  match w.entries with
  | [] => ⟨[], g.append w.last⟩
  | (g', r) :: entries => ⟨(g.append g', r) :: entries, w.last⟩

theorem bits_prepend (g : GapText) (w : Weave) : (w.prepend g).bits = g.bits ++ w.bits := by
  obtain ⟨entries, last⟩ := w
  cases entries <;> simp [prepend, bits, GapText.append]

end Weave

/-! ### Reading a text as gaps and rules -/

/-- Tokens that are read without errors are those of gaps and rules in turns. -/
theorem exists_weave {stop : Nat} {toks : List Token} (clean : Clean (items stop toks))
    {bits : List Bit} (same : bits.filterMap token? = toks.map Token.bare) :
    ∃ w : Weave, w.bits = bits := by
  fun_induction items stop toks generalizing bits with
  | case1 =>
    refine ⟨⟨[], bits, [], by simp, ?_⟩, rfl⟩
    rw [same]
    exact reads_nil
  | case2 t rest next =>
    rename_i ih
    obtain ⟨first, later⟩ := clean_cons.1 clean
    by_cases kind : t.kind = .ruleRef
    · obtain ⟨mid, semi, whole, closing⟩ := exists_semi_of_item kind first
      obtain ⟨left, ends⟩ : ∃ left, (item stop t rest).2 = left := ⟨_, rfl⟩
      rw [ends] at whole
      subst whole
      rw [List.map_cons, List.map_append, List.map_cons] at same
      obtain ⟨front, b, behind, rfl, none_, name, same⟩ := List.filterMap_eq_cons_iff.1 same
      obtain ⟨inside, tail, rfl, sameInside, same⟩ := List.filterMap_eq_append_iff.1 same
      obtain ⟨blanks, b', back, rfl, noneB, semi', same⟩ := List.filterMap_eq_cons_iff.1 same
      obtain ⟨w, rfl⟩ := ih later (by rw [ends]; exact same)
      have read := readsRule_item kind closing first ends
      have rule := isRule_item kind first ends
      let gap : GapText := ⟨front, [], by simp, by
        rw [List.filterMap_eq_nil_iff.2 none_]
        exact reads_nil⟩
      let r : RuleText := ⟨t.text, inside ++ blanks, semi.text, next.1.bare,
        (Derivation.kind_bare _).trans rule.kind, (Derivation.ruleName_bare _).trans rule.name, by
          rw [List.filterMap_append, List.filterMap_eq_nil_iff.2 noneB, List.append_nil, sameInside]
          exact read⟩
      refine ⟨⟨(gap, r) :: w.entries, w.last⟩, ?_⟩
      rw [Bit.eq_of_token? name, Bit.eq_of_token? semi']
      simp [Weave.bits, RuleText.bits, gap, r, Token.bare, kind, closing]
    · obtain ⟨mid, whole⟩ := suffix_item stop t rest
      rw [← whole, ← List.cons_append, List.map_append] at same
      obtain ⟨front, back, rfl, sameFront, same⟩ := List.filterMap_eq_append_iff.1 same
      obtain ⟨w, rfl⟩ := ih later same
      let gap : GapText := ⟨front, [next.1.bare], by simpa [next] using kind_item kind stop rest, by
        rw [sameFront]
        exact reads_item first whole.symm⟩
      exact ⟨w.prepend gap, Weave.bits_prepend gap w⟩

/-! ### What gaps and rules are read as -/

/-- The place of a parser rule and its name. -/
def slot? (d : Derivation) : Option Slot :=
  if d.kind = .rule .parserRuleSpec then some ⟨d.span, d.ruleName⟩ else none

theorem slot?_of_isRule {d : Derivation} {span : Span} {name : String}
    (rule : d.IsRule span name) : slot? d = some ⟨span, name⟩ := by
  rw [slot?, if_pos rule.kind, rule.span, rule.name]

theorem unhandled_nil : Unhandled [] := nofun

namespace Weave

/-- Where the rules stand in a text that starts at `offset`. -/
def placesFrom (offset : Nat) : List (GapText × RuleText) → List Slot
  | [] => []
  | (g, r) :: entries =>
    let start := offset + (chars g.bits).length
    let stop := start + (chars r.bits).length
    ⟨⟨start, stop⟩, r.name⟩ :: placesFrom stop entries

/-- The rules are where they stand. -/
def places (w : Weave) : List Slot := placesFrom 0 w.entries

end Weave

/-- How a gap is read. -/
theorem GapText.items_tokens (g : GapText) (stop offset : Nat) {left : List Token}
    (unhandled : Unhandled left) :
    ∃ ds, ds.map Derivation.bare = g.constructs ∧ ds.filterMap slot? = [] ∧
      items stop (tokens offset g.bits ++ left) = ds ++ items stop left := by
  obtain ⟨ds, same, read⟩ := g.reads.items stop _ left (Bit.map_bare_tokens offset _) unhandled
  refine ⟨ds, same, List.filterMap_eq_nil_iff.2 fun d member => ?_, read⟩
  have plain := g.plain d.bare (same ▸ List.mem_map_of_mem member)
  rw [Derivation.kind_bare] at plain
  rw [slot?, if_neg plain]

theorem RuleText.tokens_bits (r : RuleText) (offset : Nat) :
    ∃ first last, tokens offset r.bits =
        first :: tokens (offset + r.name.length) r.inside ++ [last] ∧
      first.bare = (.ruleRef, r.name) ∧ last.bare = (.semi, r.semi) ∧
      first.span.start = offset ∧ last.span.stop = offset + (chars r.bits).length := by
  let behind := offset + r.name.length + (chars r.inside).length
  refine ⟨⟨.ruleRef, r.name, ⟨offset, offset + r.name.length⟩⟩,
    ⟨.semi, r.semi, ⟨behind, behind + r.semi.length⟩⟩, ?_, rfl, rfl, rfl, ?_⟩
  · rw [RuleText.bits, List.cons_append, ← List.singleton_append, Bit.tokens_append,
      Bit.tokens_append]
    simp [tokens, Bit.placed, Piece.token?, behind, String.length_toList]
  · simp [RuleText.bits, behind, Nat.add_assoc, String.length_toList]

/-- How a rule is read. -/
theorem RuleText.items_tokens (r : RuleText) (stop offset : Nat) {left : List Token}
    (unhandled : Unhandled left) :
    ∃ d, d.bare = r.construct ∧
      slot? d = some ⟨⟨offset, offset + (chars r.bits).length⟩, r.name⟩ ∧
      items stop (tokens offset r.bits ++ left) = d :: items stop left ∧
      Unhandled (tokens offset r.bits ++ left) := by
  obtain ⟨first, last, spelled, sameF, sameL, start, ends⟩ := r.tokens_bits offset
  obtain ⟨d, same, rule, read⟩ := r.reads stop first _ last left sameF
    (Bit.map_bare_tokens _ r.inside) sameL unhandled
  refine ⟨d, same, by rw [slot?_of_isRule rule, start, ends], ?_, ?_⟩
  · rw [spelled, List.append_assoc, List.singleton_append, read]
  · rw [spelled]
    rintro t ⟨⟩
    have kind : first.kind = .ruleRef := congrArg Prod.fst sameF
    simp [isWord, kind]

/-- How gaps and rules in turns are read. -/
theorem items_entries (entries : List (GapText × RuleText)) (last : GapText) (stop offset : Nat) :
    let toks := tokens offset (Weave.bits ⟨entries, last⟩)
    (items stop toks).map Derivation.bare = Weave.constructs ⟨entries, last⟩ ∧
      (items stop toks).filterMap slot? = Weave.placesFrom offset entries ∧ Unhandled toks := by
  induction entries generalizing offset with
  | nil =>
    obtain ⟨ds, same, none_, read⟩ := last.items_tokens stop offset unhandled_nil
    have unhandled := last.reads.unhandled _ [] (Bit.map_bare_tokens offset _) unhandled_nil
    have whole : tokens offset (Weave.bits ⟨[], last⟩) = tokens offset last.bits ++ [] := by
      simp [Weave.bits]
    simp only [whole]
    rw [read]
    exact ⟨by simp [items, same, Weave.constructs], by simp [items, none_, Weave.placesFrom],
      unhandled⟩
  | cons e entries ih =>
    obtain ⟨g, r⟩ := e
    let start := offset + (chars g.bits).length
    obtain ⟨sameRest, placesRest, unhandledRest⟩ := ih (start + (chars r.bits).length)
    obtain ⟨d, same, place, read, unhandled⟩ := r.items_tokens stop start unhandledRest
    obtain ⟨ds, sameGap, none_, readGap⟩ := g.items_tokens stop offset unhandled
    have whole : tokens offset (Weave.bits ⟨(g, r) :: entries, last⟩) =
        tokens offset g.bits ++ (tokens start r.bits ++
          tokens (start + (chars r.bits).length) (Weave.bits ⟨entries, last⟩)) := by
      rw [← Bit.tokens_append, ← Bit.tokens_append]
      simp [Weave.bits]
    simp only [whole]
    rw [readGap, read]
    refine ⟨?_, ?_, g.reads.unhandled _ _ (Bit.map_bare_tokens offset _) unhandled⟩
    · rw [List.map_append, List.map_cons, sameGap, same, sameRest]
      simp [Weave.constructs]
    · rw [List.filterMap_append, none_, List.nil_append, List.filterMap_cons, place, placesRest]
      rfl

/-! ### What gaps and rules are cut into -/

/-- A stretch is cut into these pieces in front of any name. -/
def CutBeforeName (bits : List Bit) : Prop :=
  ∀ rest : List Char, rest.head?.any Char.isAlpha = true →
    cut false (chars bits ++ rest) = bits ++ cut (Bit.opensBlock false bits) rest

/-- The gaps and the rules are cut on their own, each into its pieces. -/
structure Weave.Cuts (w : Weave) : Prop where
  gaps : ∀ e ∈ w.entries, CutBeforeName e.1.bits
  rules : ∀ e ∈ w.entries, CutAnywhere e.2.bits
  last : cut false (chars w.last.bits) = w.last.bits

/-- A rule starts with a letter. -/
theorem RuleText.head?_chars {r : RuleText} (cuts : CutAnywhere r.bits) (rest : List Char) :
    (chars r.bits ++ rest).head?.any Char.isAlpha = true :=
  head?_of_name (cuts false rest) rfl

theorem RuleText.cut_bits {r : RuleText} {opensBlock : Bool} {cs : List Char} {behind : List Bit}
    (whole : cut opensBlock cs = r.bits ++ behind) :
    CutAnywhere r.bits ∧ ∃ rest, cs = chars r.bits ++ rest ∧ behind = cut false rest :=
  cut_name_to_semi rfl (whole.trans (List.append_assoc ..))

/-- The gaps and rules that a text is cut into are cut on their own. -/
theorem Weave.cuts_of_cut {w : Weave} {cs : List Char} (whole : cut false cs = w.bits) :
    w.Cuts := by
  obtain ⟨entries, last⟩ := w
  induction entries generalizing cs with
  | nil =>
    have alone : cut false cs = last.bits := by simpa [Weave.bits] using whole
    exact ⟨nofun, nofun, by rw [← alone, chars_cut, alone]⟩
  | cons e entries ih =>
    obtain ⟨g, r⟩ := e
    have split : cut false cs = g.bits ++ (r.bits ++ Weave.bits ⟨entries, last⟩) := by
      simpa [Weave.bits] using whole
    obtain ⟨behind, rfl, later, again⟩ := cut_split split
    have letter := head?_of_name later.symm rfl
    obtain ⟨anywhere, rest, rfl, others⟩ := r.cut_bits later.symm
    have cuts := ih others.symm
    exact ⟨List.forall_mem_cons.2 ⟨fun rest' letter' => again rest' (.inr ⟨letter, letter'⟩),
      cuts.gaps⟩, List.forall_mem_cons.2 ⟨anywhere, cuts.rules⟩, cuts.last⟩

/-- What is cut on its own is cut the same with the rest behind it. -/
theorem Weave.Cuts.cut_chars {w : Weave} (cuts : w.Cuts) : cut false (chars w.bits) = w.bits := by
  obtain ⟨entries, last⟩ := w
  induction entries with
  | nil => simpa [Weave.bits] using cuts.last
  | cons e entries ih =>
    obtain ⟨g, r⟩ := e
    obtain ⟨gap, gaps⟩ := List.forall_mem_cons.1 cuts.gaps
    obtain ⟨rule, rules⟩ := List.forall_mem_cons.1 cuts.rules
    have rest := ih ⟨gaps, rules, cuts.last⟩
    have whole : Weave.bits ⟨(g, r) :: entries, last⟩ =
        g.bits ++ (r.bits ++ Weave.bits ⟨entries, last⟩) := by simp [Weave.bits]
    rw [whole, Bit.chars_append, Bit.chars_append, gap _ (RuleText.head?_chars rule _), rule, rest]

end GrammarIndex.Grammar

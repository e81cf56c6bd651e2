import GrammarIndex.Grammar.Dialect
import GrammarIndex.Proofs.Refactoring.Constructs
import GrammarIndex.Proofs.Refactoring.Outline
import GrammarIndex.Proofs.Table
import Mathlib.Data.List.Permutation

/-!
Sorting rules preserves the grammar.

A text that is read without errors is a weave of gaps and parser rules, and what is filled in are
the same rules in order of their names. So the sorted text is read as the same constructs with the
rules in other places, and sorting it again changes nothing.
-/
namespace GrammarIndex.SortRules

open Grammar (GapText RuleText Weave Bit parse pieces cut tokenize items Clean slots_parse
  constructs_parse clean_items_iff items_entries)
open Grammar.Bit (chars placed tokens)

/-! ### Texts as weaves -/

theorem pieces_eq {w : Weave} {text : String} (spelled : cut false text.toList = w.bits) :
    pieces text = placed 0 w.bits := by
  rw [pieces, Grammar.piecesFrom_eq_placed, spelled]

theorem tokens_eq {w : Weave} {text : String} (spelled : cut false text.toList = w.bits) :
    (tokenize text).1 = tokens 0 w.bits := by
  rw [tokenize, pieces_eq spelled]
  rfl

/-- How a text is read that is cut into gaps and rules in turns. -/
structure ReadAs (text : String) (w : Weave) : Prop where
  constructs : (parse text).tree.constructs = w.constructs
  places : slots (parse text).tree = w.places
  outline : outline text = outlineOf (w.entries.map Prod.fst) w.last

theorem readAs_of_cut {w : Weave} {text : String} (spelled : cut false text.toList = w.bits) :
    ReadAs text w := by
  obtain ⟨entries, last⟩ := w
  obtain ⟨same, places, _⟩ := items_entries entries last text.length 0
  rw [← tokens_eq spelled] at same places
  rw [← slots_parse] at places
  refine ⟨by rw [constructs_parse, same], places, ?_⟩
  rw [outline, pieces_eq spelled, places]
  exact filterMap_mark_entries [] entries last 0 (spelled ▸ Grammar.filled_cut false _) nofun

/-- A text that is read without errors is cut into gaps and rules in turns. -/
theorem exists_cut {text : String} (clean : Clean (items text.length (tokenize text).1)) :
    ∃ w : Weave, cut false text.toList = w.bits := by
  have same : (cut false text.toList).filterMap Bit.token? =
      (tokenize text).1.map Token.bare := by
    rw [tokenize, pieces, Grammar.piecesFrom_eq_placed]
    exact (Bit.map_bare_tokens 0 _).symm
  obtain ⟨w, bits⟩ := Grammar.exists_weave clean same
  exact ⟨w, bits.symm⟩

/-! ### Constructs -/

def isRule (d : Derivation) : Bool := d.kind == .rule .parserRuleSpec

/-- A construct that stays where it is. -/
def unlessRule (d : Derivation) : Option Derivation := if isRule d then none else some d

theorem filter_isRule (w : Weave) :
    w.constructs.filter isRule = (rulesOf w).map (·.construct) := by
  obtain ⟨entries, last⟩ := w
  have plain : ∀ g : GapText, g.constructs.filter isRule = [] := fun g =>
    List.filter_eq_nil_iff.2 fun d member => by simpa [isRule] using g.plain d member
  induction entries with
  | nil => simpa [Weave.constructs, rulesOf] using plain last
  | cons e entries ih =>
    obtain ⟨g, r⟩ := e
    have rule : isRule r.construct = true := by simp [isRule, r.kind]
    have split : Weave.constructs ⟨(g, r) :: entries, last⟩ =
        g.constructs ++ r.construct :: Weave.constructs ⟨entries, last⟩ := by
      simp [Weave.constructs]
    rw [split, List.filter_append, plain, List.nil_append, List.filter_cons, if_pos rule, ih]
    rfl

/-- The constructs of one name are those of the rules of this name. -/
theorem filter_construct (rules : List RuleText) (name : String) :
    (rules.map (·.construct)).filter (·.ruleName == name) =
      (rules.filter (·.name == name)).map (·.construct) := by
  rw [List.filter_map]
  congr 2
  funext r
  rw [Function.comp_apply, r.named]

theorem map_unlessRule (w : Weave) : w.constructs.map unlessRule =
    (w.entries.map Prod.fst).flatMap (fun g => g.constructs.map some ++ [none]) ++
      w.last.constructs.map some := by
  obtain ⟨entries, last⟩ := w
  have plain : ∀ g : GapText, g.constructs.map unlessRule = g.constructs.map some := fun g =>
    List.map_congr_left fun d member => by
      have := g.plain d member
      simp [unlessRule, isRule, this]
  induction entries with
  | nil => simpa [Weave.constructs] using plain last
  | cons e entries ih =>
    obtain ⟨g, r⟩ := e
    have rule : unlessRule r.construct = none := by simp [unlessRule, isRule, r.kind]
    have split : Weave.constructs ⟨(g, r) :: entries, last⟩ =
        g.constructs ++ r.construct :: Weave.constructs ⟨entries, last⟩ := by
      simp [Weave.constructs]
    rw [split, List.map_append, plain, List.map_cons, rule, ih]
    simp

/-- The constructs are the parser rules and the others. -/
theorem perm_constructs {ds ds' : List Derivation}
    (rules : (ds.filter isRule).Perm (ds'.filter isRule))
    (others : ds.map unlessRule = ds'.map unlessRule) : ds.Perm ds' := by
  have kept : ∀ ds : List Derivation,
      ds.filter (fun d => !isRule d) = (ds.map unlessRule).filterMap id := by
    intro ds
    induction ds with
    | nil => rfl
    | cons d ds ih => cases rule : isRule d <;> simp [unlessRule, rule, ih]
  have behind : (ds.filter fun d => !isRule d) = ds'.filter fun d => !isRule d := by
    rw [kept, kept, others]
  refine (List.filter_append_perm isRule ds).symm.trans ?_
  rw [behind]
  exact (rules.append_right _).trans (List.filter_append_perm isRule ds')

/-! ### The sorted text -/

/-- The grammar of a text is that of another up to the order of the parser rules, which are sorted.
Constructs are compared without places: by the kinds and the texts of what is in them. -/
structure SortedFrom (text out : String) : Prop where
  /-- There are no errors. -/
  sound : (parse out).errors = []
  /-- What is no parser rule is the same construct in the same place of the sequence. -/
  inPlace : (parse out).tree.constructs.map unlessRule = (parse text).tree.constructs.map unlessRule
  /-- The parser rules are the same constructs in another order. -/
  permuted : ((parse out).tree.constructs.filter isRule).Perm
    ((parse text).tree.constructs.filter isRule)
  /-- Their names do not descend. -/
  ordered : (((parse out).tree.constructs.filter isRule).map (·.ruleName)).Pairwise
    fun a b => compare a b ≠ .gt
  /-- The rules of one name are in their old order. -/
  stable : ∀ name, ((parse out).tree.constructs.filter isRule).filter (·.ruleName == name) =
    ((parse text).tree.constructs.filter isRule).filter (·.ruleName == name)
  /-- The tokens, comments and blanks outside the rules are the same, with the rules in the same
  places between them. -/
  around : outline out = outline text

theorem length_inOrder (w : Weave) : (inOrder (rulesOf w)).length = w.entries.length := by
  rw [(perm_inOrder _).length_eq, rulesOf, List.length_map]

/-- With its rules in order a text is read as the same grammar. -/
theorem sortedFrom_of_readAs {text out : String} {w : Weave} (read : ReadAs text w)
    (read' : ReadAs out (refill w (inOrder (rulesOf w))))
    (clean : Clean (items text.length (tokenize text).1)) : SortedFrom text out := by
  have size := length_inOrder w
  have rules : (parse text).tree.constructs.filter isRule = (rulesOf w).map (·.construct) := by
    rw [read.constructs, filter_isRule]
  have rules' : (parse out).tree.constructs.filter isRule =
      (inOrder (rulesOf w)).map (·.construct) := by
    rw [read'.constructs, filter_isRule, rulesOf_refill size]
  have inPlace : (parse out).tree.constructs.map unlessRule =
      (parse text).tree.constructs.map unlessRule := by
    rw [read'.constructs, read.constructs, map_unlessRule, map_unlessRule, gaps_refill size]
    rfl
  have permuted : ((parse out).tree.constructs.filter isRule).Perm
      ((parse text).tree.constructs.filter isRule) := by
    rw [rules, rules']
    exact (perm_inOrder _).map _
  refine ⟨?_, inPlace, permuted, ?_, fun name => ?_, ?_⟩
  · have same : (parse out).tree.constructs.Perm (parse text).tree.constructs :=
      perm_constructs permuted inPlace
    rw [constructs_parse, constructs_parse] at same
    refine ((clean_items_iff out).1 (Grammar.clean_map_bare.1 ?_)).1
    exact Grammar.clean_iff_forall.2 fun d member =>
      Grammar.clean_iff_forall.1 (Grammar.clean_map_bare.2 clean) d (same.subset member)
  · have names : (inOrder (rulesOf w)).map (·.construct.ruleName) =
        (inOrder (rulesOf w)).map (·.name) := List.map_congr_left fun r _ => r.named
    rw [rules', List.map_map]
    have sorted := pairwise_inOrder (rulesOf w)
    rw [← names] at sorted
    exact sorted.imp fun before => by simpa [upTo] using before
  · rw [rules, rules', filter_construct, filter_construct, filter_inOrder]
  · rw [read'.outline, read.outline, gaps_refill size]
    rfl

/-- Sorting the rules of a text that is read without errors sorts its grammar, and there is nothing
left to sort. -/
theorem sortedFrom_of_sorted? {text : String} {out : List Char}
    (clean : Clean (items text.length (tokenize text).1))
    (sorted : sorted? (parse text).tree text.toList = some out) :
    SortedFrom text (String.ofList out) ∧
      sorted? (parse (String.ofList out)).tree out = none := by
  obtain ⟨w, spelled⟩ := exists_cut clean
  have read := readAs_of_cut spelled
  let w' := refill w (inOrder (rulesOf w))
  have cuts : w'.Cuts := cuts_refill (Weave.cuts_of_cut spelled) (perm_inOrder _).subset
  rw [← Grammar.chars_cut false text.toList, spelled, sorted?_eq read.places] at sorted
  split at sorted
  · cases sorted
  · cases sorted
    have spelled' : cut false (String.ofList (chars w'.bits)).toList = w'.bits := by
      rw [String.toList_ofList, cuts.cut_chars]
    have read' := readAs_of_cut spelled'
    refine ⟨sortedFrom_of_readAs read read' clean, ?_⟩
    have done : isSorted ((rulesOf w').map (·.name)) = true := by
      rw [rulesOf_refill (length_inOrder w)]
      exact isSorted_of_pairwise (pairwise_inOrder _)
    exact (sorted?_eq read'.places).trans (if_pos done)

/-- Sorting the parser rules preserves the grammar: the sorted text is read without errors and as
the same constructs, of which only the parser rules have changed places, among themselves; they are
in order of their names, those of one name in their old order; and sorting them once more changes
nothing. -/
theorem sortRules_preserves_grammar {e : Engine} {p : Path} {state : FileState} {d : Document}
    (bound : e.index.file? p = some state) (held : e.document? p = some d)
    (current : state.parsed = parse d.text) {proposal : Engine.Proposal} {out : String}
    (proposed : propose e p = .ok proposal) (rewritten : proposal.get? p = some out)
    (sound : (parse d.text).errors = [])
    (plain : ∀ n, (parse d.text).tree.rule? n ≠ some .exceptionGroup) :
    SortedFrom d.text out ∧
      ∀ {e' : Engine} {p' : Path} {state' : FileState} {d' : Document},
        e'.index.file? p' = some state' → state'.dialect.name = "antlr4" →
        e'.document? p' = some d' → d'.text = out → state'.parsed = parse out →
          propose e' p' = .ok ∅ := by
  have clean := (clean_items_iff d.text).2 ⟨sound, plain⟩
  rw [propose, bound] at proposed
  simp only [held, current] at proposed
  split at proposed
  · cases proposed
  · cases sorted : sorted? (parse d.text).tree d.text.toList with
    | none =>
      rw [sorted] at proposed
      cases proposed
      cases rewritten
    | some chars =>
      rw [sorted] at proposed
      cases proposed
      rw [PathTable.get?_insert, if_pos rfl] at rewritten
      cases rewritten
      obtain ⟨sortedFrom, done⟩ := sortedFrom_of_sorted? clean sorted
      refine ⟨sortedFrom, fun bound' antlr held' text read => ?_⟩
      rw [propose, bound']
      simp [held', text, read, antlr, done]

/-- A workspace with one grammar file, bound. -/
def boundTo (text : String) : Engine :=
  ((Engine.new Grammar.registry {}).openDocument (.of "a.g4") text).compile.1

def unsorted : String := "grammar g;\nb : 'x' ;\n// A\nA : 'a' ;\na : b ;\nb : A ;\n"

def ordered : String := "grammar g;\na : b ;\n// A\nA : 'a' ;\nb : 'x' ;\nb : A ;\n"

/-- Two rules of one name keep their order behind a third, around a comment and a lexer rule. -/
theorem sortRules_preserves_grammar_unsorted :
    SortedFrom unsorted ordered ∧ propose (boundTo ordered) (.of "a.g4") = .ok ∅ := by
  have held : ∀ text ∈ [unsorted, ordered],
      (boundTo text).document? (.of "a.g4") = some ⟨.of "a.g4", text, false⟩ := by decide +kernel
  have bound : ∀ text ∈ [unsorted, ordered], ∃ state,
      (boundTo text).index.file? (.of "a.g4") = some state ∧ state.dialect.name = "antlr4" ∧
        state.parsed = parse text := by
    have read : ∀ text ∈ [unsorted, ordered], ((boundTo text).index.file? (.of "a.g4")).map
        (fun state => (state.dialect.name, state.parsed)) = some ("antlr4", parse text) := by
      decide +kernel
    intro text listed
    obtain ⟨state, found, same⟩ := Option.map_eq_some_iff.1 (read text listed)
    exact ⟨state, found, congrArg Prod.fst same, congrArg Prod.snd same⟩
  have places : slots (parse unsorted).tree =
      [⟨⟨11, 20⟩, "b"⟩, ⟨⟨36, 43⟩, "a"⟩, ⟨⟨44, 51⟩, "b"⟩] := by decide +kernel
  have sorted : sorted? (parse unsorted).tree unsorted.toList = some ordered.toList := by
    have order : ([⟨⟨11, 20⟩, "b"⟩, ⟨⟨36, 43⟩, "a"⟩, ⟨⟨44, 51⟩, "b"⟩] : List Slot).mergeSort
        (fun a b => compare a.name b.name != .gt) =
          [⟨⟨36, 43⟩, "a"⟩, ⟨⟨11, 20⟩, "b"⟩, ⟨⟨44, 51⟩, "b"⟩] := by cbv
    rw [sorted?, places]
    simp only
    rw [if_neg (by decide +kernel), order]
    decide +kernel
  obtain ⟨state, found, antlr, read⟩ := bound unsorted (by simp)
  have proposed : propose (boundTo unsorted) (.of "a.g4") =
      .ok (Table.insert ∅ (.of "a.g4") ordered) := by
    rw [propose, found]
    simp [held unsorted, antlr, read, sorted]
  have plain : ∀ n, (parse unsorted).tree.rule? n ≠ some .exceptionGroup := by
    have inside : ∀ n < (parse unsorted).tree.size,
        (parse unsorted).tree.rule? n ≠ some .exceptionGroup := by decide +kernel
    intro n rule
    obtain ⟨_, here, _⟩ := Option.bind_eq_some_iff.1 rule
    exact inside n (Grammar.lt_size_of_kind? here) rule
  obtain ⟨sortedFrom, again⟩ := sortRules_preserves_grammar found (held unsorted (by simp)) read
    proposed (by rw [PathTable.get?_insert, if_pos rfl]) (by decide +kernel) plain
  obtain ⟨state', found', antlr', read'⟩ := bound ordered (by simp)
  exact ⟨sortedFrom, again found' antlr' (held ordered (by simp)) rfl read'⟩

end GrammarIndex.SortRules

import GrammarIndex.Proofs.Grammar.Growth
import GrammarIndex.Proofs.Grammar.Layout
import Mathlib.Data.List.Forall2
import Mathlib.Data.List.TakeWhile

/-!
The tree of a text loses nothing.

The filled leaves are the tokens, in order and with their texts; the empty ones are notes of what is
missing. Every construct stands around its children, and these stand one behind the other. All of it
is read off the ways in which a reader builds, and holds of every text.
-/
namespace GrammarIndex

namespace Grammar

open GrammarIndex.Derivation

/-! ### Pieces -/

/-- A piece is the stretch of the text at its range. -/
theorem slice_piecesFrom (offset : Nat) (opensBlock : Bool) (cs : List Char) {p : Piece}
    (member : p ∈ piecesFrom offset opensBlock cs) :
    offset ≤ p.span.start ∧ p.span.stop ≤ offset + cs.length ∧
      p.text.toList = (cs.take (p.span.stop - offset)).drop (p.span.start - offset) := by
  fun_induction piecesFrom offset opensBlock cs with
  | case1 => cases member
  | case2 offset opensBlock c cs lexeme n _ chars piece ih =>
    have size : chars.length = min n cs.length + 1 := by simp [chars]
    rcases List.mem_cons.1 member with rfl | member
    · refine ⟨Nat.le_refl _, ?_, ?_⟩
      · simp only [piece, size, List.length_cons]
        omega
      · have whole : (c :: cs).take chars.length = chars := by
          rw [size, List.take_succ_cons, ← List.take_take, List.take_length]
        simp only [piece, Nat.add_sub_cancel_left, Nat.sub_self, List.drop_zero, whole,
          String.toList_ofList]
    · obtain ⟨behind, within, text⟩ := ih member
      have rest : cs.drop n = (c :: cs).drop chars.length := by
        rw [size, List.drop_succ_cons]
        rcases Nat.le_total n cs.length with few | many
        · rw [Nat.min_eq_left few]
        · rw [Nat.min_eq_right many, List.drop_length, List.drop_eq_nil_of_le many]
      have bound : chars.length ≤ (c :: cs).length := by
        rw [size, List.length_cons]
        omega
      rw [rest, List.length_drop] at within
      have filled := ((ordered_piecesFrom _ _ _).1 p member).2
      have start : chars.length + (p.span.start - (offset + chars.length)) =
          p.span.start - offset := by omega
      have stop : chars.length + (p.span.stop - (offset + chars.length)) =
          p.span.stop - offset := by omega
      refine ⟨by omega, by omega, ?_⟩
      rw [text, rest, List.take_drop, List.drop_drop, start, stop]

/-- The characters of a text in a range. -/
def stretch (text : String) (span : Span) : List Char :=
  (text.toList.take span.stop).drop span.start

/-- A token has the characters of its range. -/
theorem stretch_token {text : String} {t : Token} (member : t ∈ (tokenize text).1) :
    t.span.stop ≤ text.length ∧ t.text.toList = stretch text t.span := by
  obtain ⟨p, listed, token⟩ := List.mem_filterMap.1 member
  obtain ⟨_, within, chars⟩ := slice_piecesFrom 0 false text.toList listed
  unfold Piece.token? at token
  split at token
  · cases token
    simpa [stretch, String.length_toList] using And.intro within chars
  · cases token

/-- A comment has the characters of its range. -/
theorem stretch_comment {text : String} {c : Comment} (member : c ∈ (tokenize text).2) :
    c.span.stop ≤ text.length ∧ c.text.toList = stretch text c.span := by
  obtain ⟨p, listed, comment⟩ := List.mem_filterMap.1 member
  obtain ⟨_, within, chars⟩ := slice_piecesFrom 0 false text.toList listed
  unfold Piece.comment? at comment
  split at comment
  · cases comment
    simpa [stretch, String.length_toList] using And.intro within chars
  · cases comment

/-- What starts with this letter is a name, so there is no blank in it. -/
theorem munch_m (opensBlock : Bool) (cs : List Char) : munch opensBlock 'm' cs =
    (.token (nameKind ('m' :: cs.takeWhile isNameChar)), (cs.takeWhile isNameChar).length) := by
  have blank : Text.isBlank 'm' = false := by decide
  have alpha : 'm'.isAlpha = true := by decide
  simp [munch, blank, alpha]

theorem no_missing_piecesFrom (offset : Nat) (opensBlock : Bool) (cs : List Char) {p : Piece}
    (member : p ∈ piecesFrom offset opensBlock cs) (what : String) :
    p.text ≠ "missing " ++ what := by
  fun_induction piecesFrom offset opensBlock cs with
  | case1 => cases member
  | case2 offset opensBlock c cs lexeme n munched chars piece ih =>
    rcases List.mem_cons.1 member with rfl | member
    · intro same
      have letters : "missing ".toList = ['m', 'i', 's', 's', 'i', 'n', 'g', ' '] := by decide
      have spelled : chars = ['m', 'i', 's', 's', 'i', 'n', 'g', ' '] ++ what.toList := by
        rw [← letters, ← String.toList_append, ← same]
        exact String.toList_ofList.symm
      obtain ⟨rfl, rest⟩ := List.cons.inj spelled
      rw [munch_m] at munched
      obtain ⟨_, rfl⟩ := Prod.mk.inj munched
      have run : cs.take (cs.takeWhile isNameChar).length = cs.takeWhile isNameChar :=
        (List.prefix_iff_eq_take.1 (List.takeWhile_prefix _)).symm
      have blank : ' ' ∈ cs.takeWhile isNameChar := by
        rw [← run, rest]
        simp
      exact absurd (List.mem_takeWhile_imp blank) (by decide)
    · exact ih member

/-- No token reads like a note of what is missing. -/
theorem text_ne_missing {text : String} {t : Token} (member : t ∈ (tokenize text).1)
    (what : String) : t.text ≠ "missing " ++ what := by
  obtain ⟨p, listed, token⟩ := List.mem_filterMap.1 member
  have other := no_missing_piecesFrom 0 false text.toList listed what
  unfold Piece.token? at token
  split at token
  · cases token
    exact other
  · cases token

/-! ### Leaves and tokens -/

/-- A leaf that is not empty. -/
def isFilledLeaf (kind : NodeKind) (span : Span) : Bool := kind.rule?.isNone && !span.isEmpty

/-- What stands for a token: an error leaf, or, unless the token is an error itself, a terminal of
its kind. -/
def StandsFor (kind : NodeKind) (span : Span) (t : Token) : Prop :=
  span = t.span ∧ (kind = .error t.text ∨ t.kind ≠ .error ∧ kind = .terminal t.kind t.text)

theorem standsFor_leaf (t : Token) : StandsFor (leaf t).kind (leaf t).span t := by
  refine ⟨rfl, ?_⟩
  by_cases error : t.kind = .error
  · exact .inl (if_pos error)
  · exact .inr ⟨error, if_neg error⟩

theorem standsFor_stray (t : Token) : StandsFor (stray t).kind (stray t).span t := ⟨rfl, .inl rfl⟩

/-- What stands for a token that is not empty is a filled leaf. -/
theorem StandsFor.isFilledLeaf {kind : NodeKind} {span : Span} {t : Token}
    (stands : StandsFor kind span t) (filled : t.span.start < t.span.stop) :
    isFilledLeaf kind span = true := by
  obtain ⟨rfl, error | ⟨_, terminal⟩⟩ := stands
  · simp [Grammar.isFilledLeaf, error, NodeKind.rule?, Span.isEmpty, Nat.ne_of_lt filled]
  · simp [Grammar.isFilledLeaf, terminal, NodeKind.rule?, Span.isEmpty, Nat.ne_of_lt filled]

theorem StandsFor.singleton {d : Derivation} {t : Token} (stands : StandsFor d.kind d.span t)
    (filled : t.span.start < t.span.stop) :
    List.Forall₂ (fun d t => StandsFor d.kind d.span t)
      ([d].filter fun d => Grammar.isFilledLeaf d.kind d.span) [t] := by
  rw [List.filter_cons, if_pos (stands.isFilledLeaf filled)]
  exact .cons stands .nil

/-- The filled leaves that were built stand for the tokens that were taken, one for each and in
order. -/
theorem Built.standsFor {fits : RuleName → List Derivation → Prop} {stop : Nat}
    {ds : List Derivation} {left toks : List Token} (built : Built fits stop ds left toks)
    (filled : ∀ t ∈ toks, t.span.start < t.span.stop) :
    ∃ taken, toks = taken ++ left ∧ List.Forall₂ (fun d t => StandsFor d.kind d.span t)
      ((partsAll ds).filter fun d => isFilledLeaf d.kind d.span) taken := by
  induction built with
  | nil toks => exact ⟨[], rfl, .nil⟩
  | leaf t rest =>
    rw [partsAll_leaf]
    exact ⟨[t], rfl, (standsFor_leaf t).singleton (filled t (by simp))⟩
  | stray t rest =>
    rw [partsAll_stray]
    exact ⟨[t], rfl, (standsFor_stray t).singleton (filled t (by simp))⟩
  | missing what toks =>
    refine ⟨[], rfl, ?_⟩
    rw [partsAll_missing, List.filter_cons_of_neg]
    · exact .nil
    · simp [isFilledLeaf, Grammar.missing, Derivation.span, Span.isEmpty, Span.point]
  | construct _ _ inside =>
    obtain ⟨taken, split, stands⟩ := inside filled
    refine ⟨taken, split, ?_⟩
    rw [partsAll_construct, List.filter_cons_of_neg]
    · exact stands
    · simp [isFilledLeaf, Grammar.construct, Derivation.kind, NodeKind.rule?]
  | append first _ one two =>
    obtain ⟨taken, split, stands⟩ := one filled
    obtain ⟨taken', split', stands'⟩ := two fun t member => filled t (first.suffix.mem member)
    refine ⟨taken ++ taken', by rw [split, split', List.append_assoc], ?_⟩
    rw [partsAll_append, List.filter_append]
    exact List.rel_append stands stands'

/-- What a part is: a construct, a token in its place, a token out of place, or a note of what is
missing. -/
inductive Part (toks : List Token) : Derivation → Prop
  | construct (name : RuleName) (span : Span) (ds : List Derivation) :
    Part toks (.node (.rule name) span ds)
  | leaf {t : Token} (member : t ∈ toks) : Part toks (leaf t)
  | stray {t : Token} (member : t ∈ toks) : Part toks (stray t)
  | missing (what : String) (offset : Nat) : Part toks (missing what offset)

theorem Part.mono {toks toks' : List Token} (within : ∀ t ∈ toks, t ∈ toks') {d : Derivation}
    (part : Part toks d) : Part toks' d := by
  cases part with
  | construct name span ds => exact .construct name span ds
  | leaf member => exact .leaf (within _ member)
  | stray member => exact .stray (within _ member)
  | missing what offset => exact .missing what offset

theorem Built.part {fits : RuleName → List Derivation → Prop} {stop : Nat} {ds : List Derivation}
    {left toks : List Token} (built : Built fits stop ds left toks) :
    ∀ d ∈ partsAll ds, Part toks d := by
  induction built with
  | nil toks => exact fun d member => by cases member
  | leaf t rest =>
    rw [partsAll_leaf]
    exact fun d member => List.mem_singleton.1 member ▸ .leaf (by simp)
  | stray t rest =>
    rw [partsAll_stray]
    exact fun d member => List.mem_singleton.1 member ▸ .stray (by simp)
  | missing what toks =>
    rw [partsAll_missing]
    exact fun d member => List.mem_singleton.1 member ▸ .missing what _
  | construct _ _ inside =>
    intro d member
    rw [partsAll_construct] at member
    rcases List.mem_cons.1 member with rfl | member
    · exact .construct _ _ _
    · exact inside d member
  | append first _ one two =>
    intro d member
    rw [partsAll_append, List.mem_append] at member
    rcases member with member | member
    · exact one d member
    · exact (two d member).mono fun t => first.suffix.mem

/-! ### Ranges -/

/-- Tokens that are not empty, follow each other and end within the text. -/
structure Laid (stop : Nat) (toks : List Token) : Prop where
  filled : ∀ t ∈ toks, t.span.start < t.span.stop
  within : ∀ t ∈ toks, t.span.stop ≤ stop
  apart : toks.Pairwise fun t t' => t.span.stop ≤ t'.span.start

theorem laid_tokens (text : String) : Laid text.length (tokenize text).1 := by
  obtain ⟨filled, apart⟩ := ordered_tokens text
  refine ⟨fun t member => ?_, fun t member => (stretch_token member).1, List.pairwise_map.1 apart⟩
  exact filled t.span (List.mem_map.2 ⟨t, member, rfl⟩)

theorem Laid.suffix {stop : Nat} {left toks : List Token} (laid : Laid stop toks)
    (last : left <:+ toks) : Laid stop left :=
  ⟨fun t member => laid.filled t (last.mem member), fun t member => laid.within t (last.mem member),
    laid.apart.sublist last.sublist⟩

/-- The next token starts within the text. -/
theorem Laid.here_le {stop : Nat} {toks : List Token} (laid : Laid stop toks) :
    here stop toks ≤ stop := by
  cases toks with
  | nil => exact Nat.le_refl stop
  | cons t rest =>
    have filled := laid.filled t (by simp)
    have within := laid.within t (by simp)
    rw [here]
    omega

/-- The token behind another starts where that one ends, or later. -/
theorem Laid.stop_le {stop : Nat} {t : Token} {rest : List Token} (laid : Laid stop (t :: rest)) :
    t.span.stop ≤ here stop rest := by
  cases rest with
  | nil => exact laid.within t (by simp)
  | cons t' rest => exact List.rel_of_pairwise_cons laid.apart (by simp)

/-- Derivations one behind the other, between two places. -/
structure Between (lo hi : Nat) (ds : List Derivation) : Prop where
  lower : ∀ d ∈ ds, lo ≤ d.span.start
  ordered : ∀ d ∈ ds, d.span.start ≤ d.span.stop
  upper : ∀ d ∈ ds, d.span.stop ≤ hi
  apart : ds.Pairwise fun d d' => d.span.stop ≤ d'.span.start

theorem between_nil (lo hi : Nat) : Between lo hi [] :=
  ⟨by simp, by simp, by simp, .nil⟩

theorem between_singleton {lo hi : Nat} {d : Derivation} (lower : lo ≤ d.span.start)
    (ordered : d.span.start ≤ d.span.stop) (upper : d.span.stop ≤ hi) : Between lo hi [d] :=
  ⟨by simpa, by simpa, by simpa, List.pairwise_singleton _ _⟩

theorem Between.append {lo mid hi : Nat} {ds ds' : List Derivation} (first : Between lo mid ds)
    (second : Between mid hi ds') (below : lo ≤ mid) (above : mid ≤ hi) :
    Between lo hi (ds ++ ds') := by
  refine ⟨fun d member => ?_, fun d member => ?_, fun d member => ?_,
    List.pairwise_append.2 ⟨first.apart, second.apart, fun d member d' member' => ?_⟩⟩
  · rcases List.mem_append.1 member with member | member
    · exact first.lower d member
    · exact Nat.le_trans below (second.lower d member)
  · exact (List.mem_append.1 member).elim (first.ordered d) (second.ordered d)
  · rcases List.mem_append.1 member with member | member
    · exact Nat.le_trans (first.upper d member) above
    · exact second.upper d member
  · exact Nat.le_trans (first.upper d member) (second.lower d' member')

/-- The extent of derivations is around all of them. -/
theorem Between.extent {lo hi offset : Nat} {ds : List Derivation} (between : Between lo hi ds)
    (below : lo ≤ offset) (above : offset ≤ hi) :
    lo ≤ (extent offset ds).start ∧ (extent offset ds).start ≤ (extent offset ds).stop ∧
      (extent offset ds).stop ≤ hi ∧
      Between (extent offset ds).start (extent offset ds).stop ds := by
  cases ds with
  | nil => exact ⟨below, Nat.le_refl _, above, between_nil _ _⟩
  | cons first rest =>
    obtain ⟨last, ended⟩ : ∃ last, (first :: rest).getLast? = some last :=
      ⟨_, List.getLast?_eq_some_getLast (List.cons_ne_nil first rest)⟩
    have reach : Grammar.extent offset (first :: rest) = ⟨first.span.start, last.span.stop⟩ := by
      rw [Grammar.extent, ended]
      rfl
    have here := List.mem_of_getLast? ended
    rw [reach]
    -- The first starts before all others, and the last ends behind them.
    have starts : ∀ d ∈ first :: rest, first.span.start ≤ d.span.start := by
      intro d member
      rcases List.mem_cons.1 member with rfl | member
      · exact Nat.le_refl _
      · exact Nat.le_trans (between.ordered first (by simp))
          (List.rel_of_pairwise_cons between.apart member)
    have ends : ∀ d ∈ first :: rest, d.span.stop ≤ last.span.stop := by
      intro d member
      obtain ⟨front, split⟩ := List.getLast?_eq_some_iff.1 ended
      rw [split, List.mem_append, List.mem_singleton] at member
      rcases member with member | rfl
      · have apart := between.apart
        rw [split, List.pairwise_append] at apart
        exact Nat.le_trans (apart.2.2 d member last (by simp)) (between.ordered last here)
      · exact Nat.le_refl _
    refine ⟨between.lower first (by simp), ?_, between.upper last here,
      ⟨starts, between.ordered, ends, between.apart⟩⟩
    exact Nat.le_trans (starts last here) (between.ordered last here)

/-- A part that lies in the text and around its children. -/
structure Nests (stop : Nat) (d : Derivation) : Prop where
  ordered : d.span.start ≤ d.span.stop
  within : d.span.stop ≤ stop
  children : Between d.span.start d.span.stop d.children

theorem nests_childless {stop : Nat} {kind : NodeKind} {span : Span}
    (ordered : span.start ≤ span.stop) (within : span.stop ≤ stop) :
    Nests stop (.node kind span []) :=
  ⟨ordered, within, between_nil _ _⟩

/-- What stands for the next token stands in its place. -/
theorem Laid.nests_token {stop : Nat} {t : Token} {rest : List Token}
    (laid : Laid stop (t :: rest)) (kind : NodeKind) :
    t.span.start ≤ here stop rest ∧
      Between t.span.start (here stop rest) [.node kind t.span []] ∧
      Nests stop (.node kind t.span []) := by
  have filled := laid.filled t (by simp)
  have within := laid.within t (by simp)
  have next := laid.stop_le
  have ordered : t.span.start ≤ t.span.stop := by omega
  exact ⟨by omega, between_singleton (Nat.le_refl _) ordered next, nests_childless ordered within⟩

/-- What was built stands between the first token that was taken and the first that is left. -/
theorem Built.nests {fits : RuleName → List Derivation → Prop} {stop : Nat} {ds : List Derivation}
    {left toks : List Token} (built : Built fits stop ds left toks) (laid : Laid stop toks) :
    here stop toks ≤ here stop left ∧ Between (here stop toks) (here stop left) ds ∧
      ∀ d ∈ partsAll ds, Nests stop d := by
  induction built with
  | nil toks => exact ⟨Nat.le_refl _, between_nil _ _, fun d member => by cases member⟩
  | leaf t rest =>
    obtain ⟨forth, between, nests⟩ := laid.nests_token (Grammar.leaf t).kind
    rw [partsAll_leaf]
    exact ⟨forth, between, fun d member => List.mem_singleton.1 member ▸ nests⟩
  | stray t rest =>
    obtain ⟨forth, between, nests⟩ := laid.nests_token (Grammar.stray t).kind
    rw [partsAll_stray]
    exact ⟨forth, between, fun d member => List.mem_singleton.1 member ▸ nests⟩
  | missing what toks =>
    refine ⟨Nat.le_refl _,
      between_singleton (Nat.le_refl _) (Nat.le_refl _) (Nat.le_refl _), ?_⟩
    rw [partsAll_missing]
    exact fun d member => List.mem_singleton.1 member ▸ nests_childless (Nat.le_refl _) laid.here_le
  | construct _ before inside =>
    obtain ⟨forth, between, parts⟩ := inside laid
    obtain ⟨lower, ordered, upper, around⟩ := between.extent (Nat.le_refl _) forth
    refine ⟨forth, between_singleton lower ordered upper, fun d member => ?_⟩
    rw [partsAll_construct] at member
    rcases List.mem_cons.1 member with rfl | member
    · exact ⟨ordered, Nat.le_trans upper (laid.suffix before.suffix).here_le, around⟩
    · exact parts d member
  | append first _ one two =>
    obtain ⟨forth, between, parts⟩ := one laid
    obtain ⟨forth', between', parts'⟩ := two (laid.suffix first.suffix)
    refine ⟨Nat.le_trans forth forth', between.append between' forth forth', fun d member => ?_⟩
    rw [partsAll_append, List.mem_append] at member
    exact member.elim (parts d) (parts' d)

/-! ### The tree -/

theorem tree_parse (text : String) :
    (parse text).tree = (derive text.length (tokenize text).1).toTree := rfl

theorem parts_derive (stop : Nat) (toks : List Token) :
    (derive stop toks).parts = derive stop toks :: partsAll (items stop toks) := by
  rw [derive, parts]

/-- What the nodes of a tree stand for. -/
theorem part_of_node (text : String) {n : Nat} (inside : n < (parse text).tree.size) :
    ∃ d, Mirrors (parse text).tree n d ∧ Part (tokenize text).1 d ∧ Nests text.length d := by
  obtain ⟨d, member, mirrors⟩ := exists_part inside
  have built := built_items text.length (tokenize text).1
  obtain ⟨_, between, parts⟩ := built.nests (laid_tokens text)
  rw [parts_derive] at member
  refine ⟨d, mirrors, ?_⟩
  rcases List.mem_cons.1 member with rfl | member
  · refine ⟨.construct _ _ _, Nat.zero_le _, Nat.le_refl _, ?_⟩
    exact ⟨fun d _ => Nat.zero_le _, between.ordered, between.upper, between.apart⟩
  · exact ⟨built.part d member, parts d member⟩

/-- The leaves of a tree that are not empty, in preorder. -/
def filledLeaves (tree : SyntaxTree) : List Nat :=
  tree.preorder.filter fun n => (tree.node? n).any fun node => isFilledLeaf node.kind node.span

/-- A node that stands for a token. -/
def StandsAt (tree : SyntaxTree) (n : Nat) (t : Token) : Prop :=
  ∃ node, tree.node? n = some node ∧ StandsFor node.kind node.span t

/-- The filled leaves of a text are its tokens. -/
theorem standsAt_filledLeaves (text : String) :
    List.Forall₂ (StandsAt (parse text).tree) (filledLeaves (parse text).tree)
      (tokenize text).1 := by
  obtain ⟨taken, split, stands⟩ :=
    (built_items text.length (tokenize text).1).standsFor (laid_tokens text).filled
  rw [List.append_nil] at split
  rw [← split] at stands
  rw [tree_parse, filledLeaves]
  generalize found : derive text.length (tokenize text).1 = d
  -- The root is no leaf, and numbering changes neither what a part is nor where it stands.
  have below : d.parts.filter (fun d => isFilledLeaf d.kind d.span) =
      (partsAll (items text.length (tokenize text).1)).filter
        fun d => isFilledLeaf d.kind d.span := by
    rw [← found, parts_derive, List.filter_cons, if_neg]
    simp [isFilledLeaf, derive, Derivation.kind, NodeKind.rule?]
  have labels : ((d.flatten none 0).filter fun n => isFilledLeaf n.kind n.span).map
      (fun n => (n.kind, n.span)) =
      (d.parts.filter fun d => isFilledLeaf d.kind d.span).map fun d => (d.kind, d.span) := by
    have same := congrArg (List.filter fun l => isFilledLeaf l.1 l.2) (map_flatten d none 0)
    rw [List.filter_map, List.filter_map] at same
    exact same
  have nodes : List.Forall₂ (fun (n : Node) t => StandsFor n.kind n.span t)
      ((d.flatten none 0).filter fun n => isFilledLeaf n.kind n.span) (tokenize text).1 := by
    rw [← below] at stands
    have paired := (List.forall₂_map_left_iff
      (R := fun (l : NodeKind × Span) t => StandsFor l.1 l.2 t)
      (f := fun (d : Derivation) => (d.kind, d.span))).2 stands
    rw [← labels] at paired
    exact List.forall₂_map_left_iff.1 paired
  have walked := map_node?_preorder d fun n => isFilledLeaf n.kind n.span
  have named : List.Forall₂ (fun (o : Option Node) t => ∃ n, o = some n ∧ StandsFor n.kind n.span t)
      (((d.flatten none 0).filter fun n => isFilledLeaf n.kind n.span).map some)
      (tokenize text).1 :=
    List.forall₂_map_left_iff.2 (nodes.imp fun n t stands => ⟨n, rfl, stands⟩)
  rw [← walked] at named
  exact (List.forall₂_map_left_iff (f := d.toTree.node?)).1 named

theorem lt_size_of_kind? {tree : SyntaxTree} {n : Nat} {kind : NodeKind}
    (found : tree.kind? n = some kind) : n < tree.size := by
  obtain ⟨node, here, _⟩ := Option.map_eq_some_iff.1 found
  exact (Array.getElem?_eq_some_iff.1 here).1

theorem mem_errorsOf {tree : SyntaxTree} {n : Nat} :
    n ∈ errorsOf tree ↔ ∃ message, tree.kind? n = some (.error message) := by
  rw [errorsOf, List.mem_filter, List.mem_range]
  constructor
  · rintro ⟨_, error⟩
    cases kind : tree.kind? n with
    | none =>
      rw [kind] at error
      cases error
    | some k =>
      rw [kind] at error
      cases k with
      | error message => exact ⟨message, rfl⟩
      | rule name => cases error
      | terminal token text => cases error
  · rintro ⟨message, kind⟩
    exact ⟨lt_size_of_kind? kind, by rw [kind]; rfl⟩

/-- A leaf of a text holds the characters of its range, or is empty and notes what is missing. -/
theorem text_of_leaf (text : String) {n : Nat} {held : String}
    (leaf : (parse text).tree.text? n = some held) :
    (((parse text).tree.spanOf n).start < ((parse text).tree.spanOf n).stop ∧
        held.toList = stretch text ((parse text).tree.spanOf n) ∧
        ∀ what, held ≠ "missing " ++ what) ∨
      (((parse text).tree.spanOf n).isEmpty = true ∧ (∃ what, held = "missing " ++ what) ∧
        (parse text).tree.kind? n = some (.error held)) := by
  obtain ⟨kind, found, told⟩ := Option.bind_eq_some_iff.1 leaf
  obtain ⟨d, mirrors, part, _⟩ := part_of_node text (lt_size_of_kind? found)
  have same : kind = d.kind := Option.some.inj (found.symm.trans mirrors.kind)
  have token : ∀ {t : Token}, t ∈ (tokenize text).1 → StandsFor d.kind d.span t →
      (d.span.start < d.span.stop ∧ held.toList = stretch text d.span ∧
        ∀ what, held ≠ "missing " ++ what) := by
    intro t member stands
    have spelled : held = t.text := by
      obtain ⟨_, error | ⟨_, terminal⟩⟩ := stands
      · rw [same, error] at told
        exact (Option.some.inj told).symm
      · rw [same, terminal] at told
        exact (Option.some.inj told).symm
    rw [stands.1, spelled]
    exact ⟨(laid_tokens text).filled t member, (stretch_token member).2, text_ne_missing member⟩
  rw [mirrors.span]
  cases part with
  | construct name span ds =>
    rw [same] at told
    cases told
  | leaf member => exact .inl (token member (standsFor_leaf _))
  | stray member => exact .inl (token member (standsFor_stray _))
  | missing what offset =>
    rw [same] at told
    cases told
    refine .inr ⟨?_, ⟨what, rfl⟩, mirrors.kind⟩
    simp [missing, Derivation.span, Span.isEmpty, Span.point]

theorem span_of_leaf (text : String) {n : Nat} {held : String}
    (leaf : (parse text).tree.text? n = some held) :
    ((parse text).tree.spanOf n).start ≤ ((parse text).tree.spanOf n).stop ∧
      ((parse text).tree.spanOf n).stop ≤ text.length := by
  obtain ⟨kind, found, _⟩ := Option.bind_eq_some_iff.1 leaf
  obtain ⟨d, mirrors, _, nests⟩ := part_of_node text (lt_size_of_kind? found)
  rw [mirrors.span]
  exact ⟨nests.ordered, nests.within⟩

theorem kind_of_terminal {t : SyntaxTree} {n : Nat} (terminal : n ∈ t.terminals) :
    ∃ token held, t.kind? n = some (.terminal token held) := by
  have isTerminal := (List.mem_filter.1 terminal).2
  rw [SyntaxTree.isTerminal] at isTerminal
  cases found : t.kind? n with
  | none =>
    rw [found] at isTerminal
    cases isTerminal
  | some kind =>
    rw [found] at isTerminal
    cases kind with
    | terminal token held => exact ⟨token, held, rfl⟩
    | rule name => cases isTerminal
    | error message => cases isTerminal

/-- A terminal has the characters of its range. -/
theorem stretch_terminal (text : String) {n : Nat} (terminal : n ∈ (parse text).tree.terminals) :
    ∃ token held, (parse text).tree.kind? n = some (.terminal token held) ∧
      ((parse text).tree.spanOf n).start < ((parse text).tree.spanOf n).stop ∧
      ((parse text).tree.spanOf n).stop ≤ text.length ∧
      held.toList = stretch text ((parse text).tree.spanOf n) := by
  obtain ⟨token, held, kind⟩ := kind_of_terminal terminal
  have leaf : (parse text).tree.text? n = some held := by
    rw [SyntaxTree.text?, kind]
    rfl
  obtain ⟨_, within⟩ := span_of_leaf text leaf
  rcases text_of_leaf text leaf with ⟨filled, chars, _⟩ | ⟨_, _, error⟩
  · exact ⟨token, held, kind, filled, within, chars⟩
  · rw [kind] at error
    cases error

/-- Reading loses nothing of a text, however malformed it is. The leaves that are not empty are the
tokens, one for each and in order; numbers are given in preorder; the children of a node stand one
behind the other within it, and all nodes stand within the text; the error leaves are listed in
order, and the empty ones among them are the notes of what is missing. -/
theorem lossless_parse (text : String) :
    List.Forall₂ (StandsAt (parse text).tree) (filledLeaves (parse text).tree)
        (tokenize text).1 ∧
      (parse text).tree.preorder = List.range (parse text).tree.size ∧
      (∀ n < (parse text).tree.size,
        ((parse text).tree.spanOf n).start ≤ ((parse text).tree.spanOf n).stop ∧
        ((parse text).tree.spanOf n).stop ≤ text.length ∧
        (((parse text).tree.childrenOf n).map (parse text).tree.spanOf).Pairwise
          (fun s s' => s.stop ≤ s'.start) ∧
        ∀ c ∈ (parse text).tree.childrenOf n, (parse text).tree.parent? c = some n ∧
          ((parse text).tree.spanOf n).start ≤ ((parse text).tree.spanOf c).start ∧
          ((parse text).tree.spanOf c).stop ≤ ((parse text).tree.spanOf n).stop) ∧
      (parse text).errors.Pairwise (· < ·) ∧
      (∀ n, n ∈ (parse text).errors ↔ ∃ message,
        (parse text).tree.kind? n = some (.error message)) ∧
      (∀ n ∈ (parse text).errors, ((parse text).tree.spanOf n).isEmpty = true ↔
        ∃ what, (parse text).tree.text? n = some ("missing " ++ what)) ∧
      Growth.ofText text = ⟨(parse text).tree, (parse text).errors⟩ := by
  refine ⟨standsAt_filledLeaves text, ?_, fun n inside => ?_, List.pairwise_lt_range.filter _,
    fun n => mem_errorsOf, fun n listed => ?_, Growth.ofText_eq text⟩
  · rw [tree_parse, preorder_toTree, size_toTree]
  · obtain ⟨d, mirrors, _, nests⟩ := part_of_node text inside
    rw [mirrors.span, mirrors.children]
    refine ⟨nests.ordered, nests.within, List.pairwise_map.2 nests.children.apart, ?_⟩
    intro c member
    obtain ⟨d', child, span⟩ : ∃ d' ∈ d.children, d'.span = (parse text).tree.spanOf c := by
      rw [← List.mem_map, ← mirrors.children]
      exact List.mem_map.2 ⟨c, member, rfl⟩
    rw [← span]
    exact ⟨mirrors.parent c member, nests.children.lower d' child, nests.children.upper d' child⟩
  · obtain ⟨message, error⟩ : ∃ message, (parse text).tree.kind? n = some (.error message) :=
      mem_errorsOf.1 listed
    have told : (parse text).tree.text? n = some message := by
      rw [SyntaxTree.text?, error]
      rfl
    rw [told]
    rcases text_of_leaf text told with ⟨filled, _, other⟩ | ⟨empty, ⟨what, rfl⟩, _⟩
    · refine iff_of_false ?_ fun ⟨what, same⟩ => other what (Option.some.inj same)
      simp [Span.isEmpty, Nat.ne_of_lt filled]
    · exact iff_of_true empty ⟨what, rfl⟩

end Grammar

end GrammarIndex

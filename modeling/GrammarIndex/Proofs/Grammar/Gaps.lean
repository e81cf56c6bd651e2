import GrammarIndex.Proofs.Grammar.Cursor
import GrammarIndex.Sort
import Mathlib.Data.List.Pairwise

/-!
Cutting loses nothing of a text.

Tokens and comments stand one behind the other, each with the characters of its range, and what lies
between them is white space; so a text is put together again from its tokens, its comments and the
gaps between them.
-/
namespace GrammarIndex

/-- A stretch of a text with its characters, be it a token or a comment. -/
structure Mark where
  span : Span
  text : String
  deriving DecidableEq, Repr

def Token.mark (t : Token) : Mark := ⟨t.span, t.text⟩

def Comment.mark (c : Comment) : Mark := ⟨c.span, c.text⟩

namespace Grammar

/-- A piece that is a token or a comment. -/
def Piece.mark? (p : Piece) : Option Mark :=
  match p.lexeme with
  | .blank => none
  | _ => some ⟨p.span, p.text⟩

/-- The tokens and the comments of a text by their start. -/
def marks (text : String) : List Mark :=
  let (tokens, comments) := tokenize text
  sortOn (·.span.start) (tokens.map Token.mark ++ comments.map Comment.mark)

/-- What lies before, between and behind marks, from a position on. -/
def gapsFrom (text : String) : (pos : Nat) → List Mark → List (List Char)
  | pos, [] => [stretch text ⟨pos, text.length⟩]
  | pos, m :: ms => stretch text ⟨pos, m.span.start⟩ :: gapsFrom text m.span.stop ms

/-- What is neither token nor comment in a text. -/
def gaps (text : String) : List (List Char) := gapsFrom text 0 (marks text)

/-- Gaps and marks in turn, a gap first. -/
def woven : List (List Char) → List Mark → List Char
  | gap :: gaps, m :: ms => gap ++ m.text.toList ++ woven gaps ms
  | gaps, _ => gaps.flatten

/-! ### Marks and pieces -/

theorem eq_of_mark? {p : Piece} {m : Mark} (marked : p.mark? = some m) : m = ⟨p.span, p.text⟩ := by
  unfold Piece.mark? at marked
  split at marked <;> cases marked
  rfl

theorem perm_marks_pieces (l : List Piece) :
    ((l.filterMap Piece.token?).map Token.mark ++
      (l.filterMap Piece.comment?).map Comment.mark).Perm (l.filterMap Piece.mark?) := by
  induction l with
  | nil => exact .refl _
  | cons p l ih =>
    obtain ⟨lexeme, text, span⟩ := p
    cases lexeme with
    | blank => exact ih
    | comment => exact List.perm_middle.trans (ih.cons _)
    | token kind => exact ih.cons _

/-- By their start, tokens and comments stand as the pieces do. -/
theorem marks_eq (text : String) : marks text = (pieces text).filterMap Piece.mark? := by
  have spans : ((pieces text).filterMap Piece.mark?).Pairwise fun m m' =>
      m.span.start < m'.span.start := by
    obtain ⟨filled, apart⟩ := ordered_piecesFrom 0 false text.toList
    refine List.pairwise_filterMap.2 (apart.imp_of_mem ?_)
    intro p q member _ before m marked m' marked'
    rw [eq_of_mark? marked, eq_of_mark? marked']
    exact Nat.lt_of_lt_of_le (filled p member).2 before
  have perm : (marks text).Perm ((pieces text).filterMap Piece.mark?) :=
    (sortOn_perm _ _).trans (perm_marks_pieces (pieces text))
  have symmetric : Std.Symm fun m m' : Mark => m.span.start ≠ m'.span.start := ⟨fun _ _ => Ne.symm⟩
  have apart : ∀ m ∈ marks text, ∀ m' ∈ (pieces text).filterMap Piece.mark?, m ≠ m' →
      m.span.start ≠ m'.span.start := fun m member m' member' other =>
    (spans.imp Nat.ne_of_lt).forall (perm.mem_iff.1 member) member' other
  refine perm.eq_of_pairwise ?_ (pairwise_sortOn _ _) (spans.imp fun before => ?_)
  · intro m m' member member' lower upper
    by_contra other
    have := apart m member m' member' other
    simp only [ne_eq, Nat.compare_eq_gt] at lower upper
    omega
  · rw [ne_eq, Nat.compare_eq_gt]
    omega

/-! ### What is no mark is white space -/

/-- A blank piece is one white-space character. -/
theorem munch_blank {opensBlock : Bool} {c : Char} {cs : List Char}
    (blank : (munch opensBlock c cs).1 = .blank) :
    Text.isBlank c = true ∧ (munch opensBlock c cs).2 = 0 := by
  by_cases white : Text.isBlank c = true
  · exact ⟨white, by rw [munch, if_pos white]⟩
  · -- Every other way to start a piece makes a token or a comment of it.
    exfalso
    revert blank
    unfold munch quoted
    rw [if_neg white]
    repeat' split
    all_goals exact fun other => by cases other

/-- Every character belongs to a piece, and if that is blank, so is the character. -/
theorem exists_piece (offset : Nat) (opensBlock : Bool) (cs : List Char) {i : Nat} {d : Char}
    (read : cs[i]? = some d) : ∃ p ∈ piecesFrom offset opensBlock cs,
      p.span.covers (offset + i) = true ∧ (p.lexeme = .blank → Text.isBlank d = true) := by
  induction size : cs.length using Nat.strong_induction_on generalizing offset opensBlock cs i with
  | _ size' ih =>
    cases cs with
    | nil => simp at read
    | cons c cs =>
      have within := munch_le opensBlock c cs
      rw [piecesFrom_cons]
      rcases Nat.lt_or_ge i (1 + (munch opensBlock c cs).2) with here | later
      · refine ⟨_, List.mem_cons_self, ?_, fun blank => ?_⟩
        · simp only [Span.covers, Bool.and_eq_true, decide_eq_true_eq]
          omega
        · obtain ⟨white, alone⟩ := munch_blank blank
          obtain rfl : i = 0 := by omega
          cases read
          exact white
      · have shorter : (cs.drop (munch opensBlock c cs).2).length < size' := by
          rw [← size, List.length_drop, List.length_cons]
          omega
        have behind : (cs.drop (munch opensBlock c cs).2)[i - (1 + (munch opensBlock c cs).2)]? =
            some d := by
          rw [List.getElem?_drop, ← read]
          have place : i = (munch opensBlock c cs).2 + (i - (1 + (munch opensBlock c cs).2)) + 1 := by
            omega
          rw [place, List.getElem?_cons_succ, ← place]
        obtain ⟨p, listed, covers, blank⟩ := ih _ shorter (offset + 1 + (munch opensBlock c cs).2)
          _ _ behind rfl
        refine ⟨p, List.mem_cons_of_mem _ listed, ?_, blank⟩
        have place : offset + 1 + (munch opensBlock c cs).2 + (i - (1 + (munch opensBlock c cs).2)) =
            offset + i := by omega
        rwa [place] at covers

/-- A character outside all tokens and comments is white space. -/
theorem isBlank_of_uncovered {text : String} {i : Nat} {d : Char} (read : text.toList[i]? = some d)
    (outside : ∀ m ∈ marks text, m.span.covers i = false) : Text.isBlank d = true := by
  obtain ⟨p, listed, covers, blank⟩ := exists_piece 0 false text.toList read
  rw [Nat.zero_add] at covers
  refine blank ?_
  by_contra other
  have marked : p.mark? = some ⟨p.span, p.text⟩ := by
    unfold Piece.mark?
    split
    · contradiction
    · rfl
  have member : (⟨p.span, p.text⟩ : Mark) ∈ marks text := by
    rw [marks_eq]
    exact List.mem_filterMap.2 ⟨p, listed, marked⟩
  exact absurd covers (by rw [outside _ member]; decide)

/-! ### Gaps -/

/-- Marks with their characters, one behind the other from a position on. -/
def Lined (text : String) : (pos : Nat) → List Mark → Prop
  | pos, [] => pos ≤ text.length
  | pos, m :: ms => pos ≤ m.span.start ∧ m.span.start < m.span.stop ∧
      m.text.toList = stretch text m.span ∧ Lined text m.span.stop ms

theorem lined_of_ordered {text : String} {pos : Nat} {ms : List Mark}
    (first : ∀ m ∈ ms, pos ≤ m.span.start) (inside : pos ≤ text.length)
    (apart : ms.Pairwise fun m m' => m.span.stop ≤ m'.span.start)
    (each : ∀ m ∈ ms, m.span.start < m.span.stop ∧ m.span.stop ≤ text.length ∧
      m.text.toList = stretch text m.span) : Lined text pos ms := by
  induction ms generalizing pos with
  | nil => exact inside
  | cons m ms ih =>
    obtain ⟨behind, apart⟩ := List.pairwise_cons.1 apart
    obtain ⟨filled, within, chars⟩ := each m List.mem_cons_self
    exact ⟨first m List.mem_cons_self, filled, chars,
      ih behind within apart fun m' later => each m' (List.mem_cons_of_mem _ later)⟩

/-- Neighbouring stretches make up one stretch. -/
theorem stretch_append (text : String) {start mid stop : Nat} (lower : start ≤ mid)
    (upper : mid ≤ stop) :
    stretch text ⟨start, mid⟩ ++ stretch text ⟨mid, stop⟩ = stretch text ⟨start, stop⟩ := by
  have inner : text.toList.take mid = (text.toList.take stop).take mid := by
    rw [List.take_take, Nat.min_eq_left upper]
  have place : mid = start + (mid - start) := by omega
  rw [stretch, stretch, stretch, inner, List.drop_take]
  generalize text.toList.take stop = cs
  calc (cs.drop start).take (mid - start) ++ cs.drop mid
      = (cs.drop start).take (mid - start) ++ (cs.drop start).drop (mid - start) := by
        rw [List.drop_drop, ← place]
    _ = cs.drop start := List.take_append_drop _ _

theorem woven_gapsFrom {text : String} {pos : Nat} {ms : List Mark} (lined : Lined text pos ms) :
    pos ≤ text.length ∧ woven (gapsFrom text pos ms) ms = stretch text ⟨pos, text.length⟩ := by
  induction ms generalizing pos with
  | nil => exact ⟨lined, by simp [gapsFrom, woven]⟩
  | cons m ms ih =>
    obtain ⟨before, filled, chars, behind⟩ := lined
    obtain ⟨within, rest⟩ := ih behind
    refine ⟨by omega, ?_⟩
    rw [gapsFrom, woven, chars, rest, stretch_append text before (Nat.le_of_lt filled),
      stretch_append text (by omega) within]

theorem Lined.lower {text : String} {pos : Nat} {ms : List Mark} (lined : Lined text pos ms) :
    ∀ m ∈ ms, pos ≤ m.span.start := by
  induction ms generalizing pos with
  | nil => simp
  | cons m ms ih =>
    obtain ⟨before, filled, _, behind⟩ := lined
    intro m' member
    rcases List.mem_cons.1 member with rfl | later
    · exact before
    · have := ih behind m' later
      omega

theorem getElem?_of_mem_stretch {text : String} {span : Span} {d : Char}
    (member : d ∈ stretch text span) :
    ∃ i, span.start ≤ i ∧ i < span.stop ∧ text.toList[i]? = some d := by
  obtain ⟨j, read⟩ := List.mem_iff_getElem?.1 member
  rw [stretch, List.getElem?_drop] at read
  have inside : span.start + j < span.stop := by
    by_contra outside
    rw [List.getElem?_take_eq_none (by omega)] at read
    cases read
  rw [List.getElem?_take_of_lt inside] at read
  exact ⟨span.start + j, Nat.le_add_right _ _, inside, read⟩

/-- If a character from a position on that no mark covers is white space, so are the gaps. -/
theorem blank_gapsFrom {text : String} {pos : Nat} {ms : List Mark} (lined : Lined text pos ms)
    (blank : ∀ i d, pos ≤ i → text.toList[i]? = some d →
      (∀ m ∈ ms, m.span.covers i = false) → Text.isBlank d = true) :
    ∀ gap ∈ gapsFrom text pos ms, ∀ d ∈ gap, Text.isBlank d = true := by
  induction ms generalizing pos with
  | nil =>
    intro gap member d inGap
    rw [List.mem_singleton.1 member] at inGap
    obtain ⟨i, lower, _, read⟩ := getElem?_of_mem_stretch inGap
    exact blank i d lower read (by simp)
  | cons m ms ih =>
    obtain ⟨before, filled, _, behind⟩ := lined
    intro gap member d inGap
    rcases List.mem_cons.1 member with rfl | later
    · obtain ⟨i, lower, upper, read⟩ := getElem?_of_mem_stretch inGap
      refine blank i d lower read fun m' listed => ?_
      have start : m.span.start ≤ m'.span.start := by
        rcases List.mem_cons.1 listed with rfl | listed
        · exact Nat.le_refl _
        · have := behind.lower m' listed
          omega
      have outside : ¬ m'.span.start ≤ i := by
        change i < m.span.start at upper
        omega
      simp [Span.covers, outside]
    · refine ih behind (fun i d lower read outside => ?_) gap later d inGap
      refine blank i d (by omega) read fun m' listed => ?_
      rcases List.mem_cons.1 listed with rfl | listed
      · have passed : ¬ i < m'.span.stop := by omega
        simp [Span.covers, passed]
      · exact outside m' listed

/-- The marks of a text are stretches of it, one behind the other. -/
theorem ordered_marks (text : String) :
    ((marks text).Pairwise fun m m' => m.span.stop ≤ m'.span.start) ∧
      ∀ m ∈ marks text, m.span.start < m.span.stop ∧ m.span.stop ≤ text.length ∧
        m.text.toList = stretch text m.span := by
  obtain ⟨filled, apart⟩ := ordered_piecesFrom 0 false text.toList
  rw [marks_eq]
  constructor
  · refine List.pairwise_filterMap.2 (apart.imp fun before m marked m' marked' => ?_)
    rw [eq_of_mark? marked, eq_of_mark? marked']
    exact before
  · intro m member
    obtain ⟨p, listed, marked⟩ := List.mem_filterMap.1 member
    obtain ⟨_, within, chars⟩ := slice_piecesFrom 0 false text.toList listed
    rw [Nat.zero_add, String.length_toList] at within
    rw [eq_of_mark? marked]
    exact ⟨(filled p listed).2, within, chars⟩

/-- Scanning a text by position never leaves it and ends in time. The tokens and the comments it
finds are not empty and stand one behind the other, each with the characters of its range; every
character outside them is white space, and with the gaps between them they make up the text. -/
theorem lossless_tokenize (text : String) :
    scan? text = some (tokenize text) ∧
      ((marks text).Pairwise fun m m' => m.span.stop ≤ m'.span.start) ∧
      (∀ m ∈ marks text, m.span.start < m.span.stop ∧ m.span.stop ≤ text.length ∧
        m.text.toList = stretch text m.span) ∧
      (∀ i d, text.toList[i]? = some d → (∀ m ∈ marks text, m.span.covers i = false) →
        Text.isBlank d = true) ∧
      (∀ gap ∈ gaps text, ∀ d ∈ gap, Text.isBlank d = true) ∧
      woven (gaps text) (marks text) = text.toList := by
  obtain ⟨apart, each⟩ := ordered_marks text
  have lined : Lined text 0 (marks text) :=
    lined_of_ordered (fun _ _ => Nat.zero_le _) (Nat.zero_le _) apart each
  have whole : stretch text ⟨0, text.length⟩ = text.toList := by
    rw [stretch, List.drop_zero, ← String.length_toList, List.take_length]
  refine ⟨scan?_eq text, apart, each, fun i d => isBlank_of_uncovered, ?_, ?_⟩
  · exact blank_gapsFrom lined fun i d _ => isBlank_of_uncovered
  · exact (woven_gapsFrom lined).2.trans whole

/-- An open literal ends before its line does, an action takes all that is left. -/
example : (marks "a 'b\n\x7b // c").map (·.text) = ["a", "'b", "\x7b // c"] := by decide +kernel

end Grammar

end GrammarIndex

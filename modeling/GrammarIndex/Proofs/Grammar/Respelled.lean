import GrammarIndex.Proofs.Edit.Chunks
import GrammarIndex.Proofs.Grammar.Lookahead
import GrammarIndex.Proofs.Grammar.Respelling
import Mathlib.Algebra.BigOperators.Group.List.Basic
import Mathlib.Data.List.Pairwise

/-!
Texts with another name.

Where a name is replaced by one of its own kind, the text is cut as before: the pieces are the same,
with the other name in its places, and each stands where the old one is moved. So the respelled text
is read as the old one was.
-/
namespace GrammarIndex.Grammar

/-! ### Names -/

theorem isBlank_of_isAlpha {c : Char} (letter : c.isAlpha = true) : Text.isBlank c = false := by
  have code := toNat_of_isAlpha letter
  by_contra blank
  simp only [Text.isBlank, Bool.or_eq_true, Bool.and_eq_true, decide_eq_true_eq, beq_iff_eq,
    Bool.not_eq_false] at blank
  omega

/-- What starts with a letter is a name. -/
theorem munch_letter (opensBlock : Bool) {c : Char} (letter : c.isAlpha = true) (cs : List Char) :
    munch opensBlock c cs =
      (.token (nameKind (c :: cs.takeWhile isNameChar)), (cs.takeWhile isNameChar).length) := by
  have other : ∀ d : Char, d.isAlpha = false → c ≠ d := by
    rintro d away rfl
    rw [letter] at away
    cases away
  simp [munch, isBlank_of_isAlpha letter, letter, other '/' (by decide), other '\x27' (by decide),
    other '[' (by decide), other '{' (by decide)]

theorem isNameKind_pairKind? {c next : Char} {kind : TokenKind}
    (pair : pairKind? c next = some kind) : isNameKind kind = false := by
  unfold pairKind? at pair
  split at pair
  · cases pair
    rfl
  · split at pair
    · cases pair
      rfl
    · split at pair
      · cases pair
        rfl
      · cases pair

theorem isNameKind_singleKind (c : Char) : isNameKind (singleKind c) = false := by
  unfold singleKind
  split <;> rfl

/-- Only what starts with a letter is a name. -/
theorem isAlpha_of_munch {opensBlock : Bool} {c : Char} {cs : List Char} {kind : TokenKind}
    (found : (munch opensBlock c cs).1 = .token kind) (name : isNameKind kind = true) :
    c.isAlpha = true := by
  by_contra other
  revert found
  unfold munch quoted
  repeat' split
  all_goals
    intro found
    cases found
  all_goals first
    | contradiction
    | cases name.symm.trans (isNameKind_singleKind c)
    | next pair =>
      obtain ⟨_, _, pair⟩ := Option.bind_eq_some_iff.1 pair
      cases name.symm.trans (isNameKind_pairKind? pair)

namespace Respelling

variable (r : Respelling)

/-! ### Pieces -/

/-- What becomes of a piece. -/
def piece (p : Piece) : Piece :=
  ⟨p.lexeme, match p.lexeme with
    | .token kind => r.text kind p.span p.text
    | _ => p.text, r.span p.span⟩

/-- The characters of pieces with the other name. -/
def chars (l : List Piece) : List Char := l.flatMap fun p => (r.piece p).text.toList

/-- The text with the other name. -/
def respell (text : String) : String := String.ofList (r.chars (pieces text))

/-- The ranges are those of names of the text that are of the new name's kind. -/
structure Fits (text : String) : Prop where
  word : isNameWith Char.isAlpha r.name.toList = true
  plain : isNameKind (nameKind r.name.toList) = true
  names : ∀ s ∈ r.spans, ∃ t ∈ (tokenize text).1, t.span = s ∧ t.kind = nameKind r.name.toList
  distinct : r.spans.Nodup

/-- The characters of the names that end before an offset. -/
def gone (offset : Nat) : Nat := ((r.spans.filter (·.stop ≤ offset)).map Span.length).sum

/-- Whether a brace opens a list of names hangs on reserved words alone. -/
theorem opensBlock_piece (p : Piece) (before : Bool) :
    (r.piece p).opensBlock before = p.opensBlock before := by
  obtain ⟨lexeme, text, span⟩ := p
  cases lexeme with
  | blank => rfl
  | comment => rfl
  | token kind =>
    cases keyword : kind == .keyword with
    | false => simp [piece, Piece.opensBlock, keyword]
    | true =>
      have other : isNameKind kind = false := by rw [eq_of_beq keyword]; rfl
      simp [piece, Piece.opensBlock, r.text_of_not_name other]

end Respelling

/-- What is munched is a stretch of the characters ahead. -/
theorem exists_munch (opensBlock : Bool) (c : Char) (cs : List Char) :
    ∃ lexeme mid rest, cs = mid ++ rest ∧
      munch opensBlock c (mid ++ rest) = (lexeme, mid.length) := by
  refine ⟨(munch opensBlock c cs).1, _, _,
    (List.take_append_drop (munch opensBlock c cs).2 cs).symm, ?_⟩
  rw [List.take_append_drop, List.length_take_of_le (munch_le opensBlock c cs)]

/-- A piece comes off where it ends. -/
theorem piecesFrom_of_munch {opensBlock : Bool} {c : Char} {mid rest : List Char} {lexeme : Lexeme}
    (found : munch opensBlock c (mid ++ rest) = (lexeme, mid.length)) (offset : Nat) :
    piecesFrom offset opensBlock (c :: mid ++ rest) =
      let piece : Piece := ⟨lexeme, String.ofList (c :: mid), ⟨offset, offset + 1 + mid.length⟩⟩
      piece :: piecesFrom (offset + 1 + mid.length) (piece.opensBlock opensBlock) rest := by
  rw [List.cons_append, piecesFrom_cons, found]
  simp

/-- A piece is what is read from where it starts. -/
theorem exists_munch_of_mem_piecesFrom (offset : Nat) (opensBlock : Bool) (cs : List Char)
    {p : Piece} (member : p ∈ piecesFrom offset opensBlock cs) :
    ∃ opensBlock c mid rest, munch opensBlock c (mid ++ rest) = (p.lexeme, mid.length) ∧
      p.text = String.ofList (c :: mid) := by
  induction size : cs.length using Nat.strong_induction_on generalizing offset opensBlock cs with
  | _ size' ih =>
    cases cs with
    | nil =>
      rw [piecesFrom] at member
      cases member
    | cons c cs =>
      obtain ⟨first, mid, rest, rfl, found⟩ := exists_munch opensBlock c cs
      rw [← List.cons_append, piecesFrom_of_munch found] at member
      rcases List.mem_cons.1 member with rfl | member
      · exact ⟨opensBlock, c, mid, rest, found, rfl⟩
      · refine ih rest.length ?_ _ _ _ member rfl
        rw [← size, List.length_cons, List.length_append]
        omega

/-- Every token is a piece. -/
theorem exists_piece_of_token {text : String} {t : Token} (member : t ∈ (tokenize text).1) :
    ∃ p ∈ pieces text, p.lexeme = .token t.kind ∧ p.text = t.text ∧ p.span = t.span := by
  obtain ⟨p, here, token⟩ := List.mem_filterMap.1 member
  unfold Piece.token? at token
  split at token
  · next k lexeme =>
    cases token
    exact ⟨p, here, lexeme, rfl, rfl⟩
  · cases token

theorem filled_pieces {text : String} {p : Piece} (member : p ∈ pieces text) :
    p.span.start < p.span.stop :=
  ((ordered_piecesFrom 0 false text.toList).1 p member).2

/-- Pieces that overlap are one. -/
theorem eq_of_overlap {text : String} {p q : Piece} (member : p ∈ pieces text)
    (member' : q ∈ pieces text) (lower : p.span.start < q.span.stop)
    (upper : q.span.start < p.span.stop) : p = q := by
  have apart := (ordered_piecesFrom 0 false text.toList).2
  by_contra other
  have symmetric : Std.Symm fun p q : Piece =>
      p.span.stop ≤ q.span.start ∨ q.span.stop ≤ p.span.start := ⟨fun _ _ => Or.symm⟩
  have either : (pieces text).Pairwise fun p q =>
      p.span.stop ≤ q.span.start ∨ q.span.stop ≤ p.span.start := apart.imp .inl
  have := either.forall member member' other
  omega

section Fits

variable {r : Respelling} {text : String} (fits : r.Fits text)

include fits

/-- The range of a name is that of one piece. -/
theorem Respelling.Fits.exists_piece {s : Span} (listed : s ∈ r.spans) :
    ∃ p ∈ pieces text, p.span = s ∧ p.lexeme = .token (nameKind r.name.toList) := by
  obtain ⟨t, member, rfl, kind⟩ := fits.names s listed
  obtain ⟨p, here, lexeme, _, span⟩ := exists_piece_of_token member
  exact ⟨p, here, span, by rw [lexeme, kind]⟩

theorem Respelling.Fits.lexeme {p : Piece} (member : p ∈ pieces text) (listed : p.span ∈ r.spans) :
    p.lexeme = .token (nameKind r.name.toList) := by
  obtain ⟨q, member', span, lexeme⟩ := fits.exists_piece listed
  have filled := filled_pieces member
  rw [eq_of_overlap member member' (by rw [span]; exact filled) (by rw [span]; exact filled), lexeme]

/-- A piece that is one of the names becomes the new name, any other stays as it is. -/
theorem Respelling.Fits.text_piece {p : Piece} (member : p ∈ pieces text) :
    (r.piece p).text = if p.span ∈ r.spans then r.name else p.text := by
  by_cases listed : p.span ∈ r.spans
  · simp [Respelling.piece, fits.lexeme member listed, Respelling.text, fits.plain, listed]
  · cases here : p.lexeme <;> simp [Respelling.piece, here, Respelling.text, listed]

/-- Of the names, those that end with a piece are those before it and the piece itself. -/
theorem Respelling.Fits.perm_before {p : Piece} (member : p ∈ pieces text) :
    (r.spans.filter (·.stop ≤ p.span.stop)).Perm
      ((if p.span ∈ r.spans then [p.span] else []) ++ r.spans.filter (·.stop ≤ p.span.start)) := by
  have filled := filled_pieces member
  refine (List.perm_ext_iff_of_nodup (fits.distinct.filter _) ?_).2 fun s => ?_
  · refine List.nodup_append.2 ⟨?_, fits.distinct.filter _, ?_⟩
    · split <;> simp
    · rintro s here s' before rfl
      split at here
      · rw [List.mem_singleton.1 here] at before
        simp only [List.mem_filter, decide_eq_true_eq] at before
        omega
      · cases here
  · simp only [List.mem_filter, List.mem_append, decide_eq_true_eq]
    constructor
    · rintro ⟨listed, upper⟩
      by_cases before : s.stop ≤ p.span.start
      · exact .inr ⟨listed, before⟩
      · obtain ⟨q, member', rfl, _⟩ := fits.exists_piece listed
        have filled' := filled_pieces member'
        rw [eq_of_overlap member' member (by omega) (by omega)] at listed ⊢
        exact .inl (by simp [listed])
    · rintro (here | ⟨listed, before⟩)
      · split at here
        · next listed =>
          rw [List.mem_singleton.1 here]
          exact ⟨listed, Nat.le_refl _⟩
        · cases here
      · exact ⟨listed, by omega⟩

/-- Behind a piece everything has moved by what the piece has grown. -/
theorem Respelling.Fits.move_stop {p : Piece} (member : p ∈ pieces text)
    (low : r.gone p.span.start ≤ p.span.start) :
    r.gone p.span.stop ≤ p.span.stop ∧
      r.move p.span.stop = r.move p.span.start +
        if p.span ∈ r.spans then r.name.length else p.span.length := by
  have filled := filled_pieces member
  have before := fits.perm_before member
  have count := before.length_eq
  have total : r.gone p.span.stop = _ := (before.map Span.length).sum_eq
  rw [List.length_append] at count
  rw [List.map_append, List.sum_append] at total
  simp only [Respelling.move, Respelling.gone] at low total ⊢
  rw [count, total, Nat.add_mul]
  have size : p.span.length = p.span.stop - p.span.start := rfl
  split
  · simp only [List.map_cons, List.map_nil, List.sum_cons, List.sum_nil, List.length_cons,
      List.length_nil]
    omega
  · simp only [List.map_nil, List.sum_nil, List.length_nil]
    omega

omit fits in
theorem Respelling.chars_cons (p : Piece) (l : List Piece) :
    r.chars (p :: l) = (r.piece p).text.toList ++ r.chars l := List.flatMap_cons

/-- The new name is a letter and more characters of names. -/
theorem Respelling.Fits.exists_letter : ∃ c cs, r.name.toList = c :: cs ∧ c.isAlpha = true ∧
    cs.takeWhile isNameChar = cs := by
  have word := fits.word
  cases name : r.name.toList with
  | nil => rw [name] at word; cases word
  | cons c cs =>
    rw [name, isNameWith, Bool.and_eq_true] at word
    exact ⟨c, cs, rfl, word.1, List.takeWhile_eq_self_iff.2 (List.all_eq_true.1 word.2)⟩

section Rest

variable {offset : Nat} {opensBlock : Bool} {cs : List Char}
  (within : ∀ p ∈ piecesFrom offset opensBlock cs, p ∈ pieces text)

include within

/-- With the other name the rest of the text starts as it did, or with another letter. -/
theorem Respelling.Fits.alike :
    Alike cs (r.chars (piecesFrom offset opensBlock cs)) := by
  cases cs with
  | nil => simpa [piecesFrom, Respelling.chars] using Alike.refl []
  | cons c cs =>
    rw [piecesFrom_cons] at within ⊢
    have member := within _ List.mem_cons_self
    rw [Respelling.chars_cons, fits.text_piece member]
    split
    · next listed =>
      obtain ⟨c', cs', name, letter, _⟩ := fits.exists_letter
      rw [name]
      exact .inr ⟨isAlpha_of_munch (fits.lexeme member listed) fits.plain, letter⟩
    · exact .inl (by simp)

end Rest

/-- The next piece comes off where it did, with the other name where it is one of the names. -/
theorem Respelling.Fits.munch_piece {opensBlock : Bool} {c : Char} {mid rest rest' : List Char}
    {lexeme : Lexeme} (alike : Alike rest rest')
    (found : munch opensBlock c (mid ++ rest) = (lexeme, mid.length)) {span : Span}
    (member : ⟨lexeme, String.ofList (c :: mid), span⟩ ∈ pieces text) :
    ∃ c' mid', (r.piece ⟨lexeme, String.ofList (c :: mid), span⟩).text.toList = c' :: mid' ∧
      munch opensBlock c' (mid' ++ rest') = (lexeme, mid'.length) ∧
      (if span ∈ r.spans then r.name.length else 1 + mid.length) = 1 + mid'.length := by
  rw [fits.text_piece member]
  by_cases listed : span ∈ r.spans
  · obtain ⟨c', mid', name, letter, all⟩ := fits.exists_letter
    have named : lexeme = .token (nameKind r.name.toList) := fits.lexeme member listed
    -- Behind a name there is no character of a name, neither before nor after.
    have letter' : c.isAlpha = true := isAlpha_of_munch
      ((congrArg Prod.fst found).trans named) fits.plain
    rw [munch_letter opensBlock letter'] at found
    have ends := takeWhile_of_length (congrArg Prod.snd found)
    have blind : LetterBlind isNameChar := letterBlind_of_true fun c letter => by
      rw [isNameChar, Char.isAlphanum, letter]
      rfl
    have stops := (takeWhile_append_iff.1 (takeWhile_alike alike blind ends)).2
    have whole : (mid' ++ rest').takeWhile isNameChar = mid' :=
      takeWhile_append_iff.2 ⟨List.takeWhile_eq_self_iff.1 all, stops⟩
    refine ⟨c', mid', by rw [if_pos listed, name], ?_, ?_⟩
    · rw [munch_letter opensBlock letter, whole, named, name]
    · rw [if_pos listed, ← String.length_toList, name, List.length_cons, Nat.add_comm]
  · exact ⟨c, mid, by simp [listed], munch_alike alike found, by rw [if_neg listed]⟩

/-- The respelled rest of a text is cut as before. -/
theorem Respelling.Fits.piecesFrom_chars (offset : Nat) (opensBlock : Bool) (cs : List Char)
    (within : ∀ p ∈ piecesFrom offset opensBlock cs, p ∈ pieces text)
    (low : r.gone offset ≤ offset) :
    piecesFrom (r.move offset) opensBlock (r.chars (piecesFrom offset opensBlock cs)) =
        (piecesFrom offset opensBlock cs).map r.piece ∧
      r.move (offset + cs.length) =
        r.move offset + (r.chars (piecesFrom offset opensBlock cs)).length := by
  induction size : cs.length using Nat.strong_induction_on generalizing offset opensBlock cs with
  | _ size' ih =>
    cases cs with
    | nil => simp [piecesFrom, Respelling.chars, ← size]
    | cons c cs =>
      obtain ⟨lexeme, mid, rest, rfl, found⟩ := exists_munch opensBlock c cs
      rw [← List.cons_append, piecesFrom_of_munch found] at within ⊢
      simp only at within ⊢
      obtain ⟨member, later⟩ := List.forall_mem_cons.1 within
      obtain ⟨lower, moved⟩ := fits.move_stop member low
      obtain ⟨c', mid', spelled, found', length'⟩ :=
        fits.munch_piece (fits.alike later) found member
      have shorter : rest.length < size' := by
        rw [← size, List.length_cons, List.length_append]
        omega
      obtain ⟨cut, behind⟩ := ih rest.length shorter _ _ _ later lower rfl
      have width : (⟨offset, offset + 1 + mid.length⟩ : Span).length = 1 + mid.length := by
        show offset + 1 + mid.length - offset = _
        omega
      rw [width, length', ← Nat.add_assoc] at moved
      replace moved : r.move (offset + 1 + mid.length) = r.move offset + 1 + mid'.length := moved
      have same : (⟨lexeme, String.ofList (c' :: mid'),
          ⟨r.move offset, r.move offset + 1 + mid'.length⟩⟩ : Piece) =
          r.piece ⟨lexeme, String.ofList (c :: mid), ⟨offset, offset + 1 + mid.length⟩⟩ := by
        rw [← spelled, String.ofList_toList, ← moved]
        rfl
      rw [Respelling.chars_cons, spelled, List.map_cons]
      refine ⟨?_, ?_⟩
      · rw [piecesFrom_of_munch found']
        simp only [same, Respelling.opensBlock_piece]
        rw [← moved, cut]
      · have place : offset + (c :: (mid ++ rest)).length = offset + 1 + mid.length + rest.length := by
          rw [List.length_cons, List.length_append]
          omega
        rw [← size, place, behind, moved, List.length_append, List.length_cons]
        omega

/-- No name ends at the start of the text. -/
theorem Respelling.Fits.before_zero : r.spans.filter (·.stop ≤ 0) = [] := by
  refine List.filter_eq_nil_iff.2 fun s listed => ?_
  obtain ⟨p, member, rfl, _⟩ := fits.exists_piece listed
  have filled := filled_pieces member
  rw [decide_eq_true_eq]
  omega

theorem Respelling.Fits.gone_zero : r.gone 0 = 0 := by
  rw [Respelling.gone, fits.before_zero]
  rfl

theorem Respelling.Fits.move_zero : r.move 0 = 0 := by
  simp only [Respelling.move, fits.before_zero, List.length_nil, List.map_nil, List.sum_nil,
    Nat.zero_mul, Nat.add_zero, Nat.sub_zero]

theorem Respelling.Fits.pieces_respell : pieces (r.respell text) = (pieces text).map r.piece := by
  have cut := (fits.piecesFrom_chars 0 false text.toList
    (fun _ member => member) (Nat.le_of_eq fits.gone_zero)).1
  rw [fits.move_zero] at cut
  rw [pieces, Respelling.respell, String.toList_ofList]
  exact cut

/-- The respelled text is as long as the old one has grown. -/
theorem Respelling.Fits.length_respell : (r.respell text).length = r.move text.length := by
  have length := (fits.piecesFrom_chars 0 false text.toList
    (fun _ member => member) (Nat.le_of_eq fits.gone_zero)).2
  rw [fits.move_zero, Nat.zero_add, Nat.zero_add, String.length_toList] at length
  rw [length, Respelling.respell, String.length_ofList]
  rfl

theorem Respelling.Fits.tokenize_respell : tokenize (r.respell text) =
    ((tokenize text).1.map r.token, (tokenize text).2.map r.comment) := by
  have token : ∀ p, (r.piece p).token? = p.token?.map r.token := by
    rintro ⟨lexeme, text, span⟩
    cases lexeme <;> rfl
  have comment : ∀ p, (r.piece p).comment? = p.comment?.map r.comment := by
    rintro ⟨lexeme, text, span⟩
    cases lexeme <;> rfl
  simp only [tokenize, fits.pieces_respell, List.filterMap_map, List.map_filterMap]
  refine Prod.ext ?_ ?_
  · exact congrArg (List.filterMap · _) (funext token)
  · exact congrArg (List.filterMap · _) (funext comment)

/-- The respelled text is read as the old one was. -/
theorem Respelling.Fits.parse_respell : parse (r.respell text) = r.parsed (parse text) :=
  r.parse_of_tokenize fits.move_zero fits.length_respell fits.tokenize_respell

end Fits

/-! ### Edits -/

/-- What stands before the next edit stays. -/
theorem applyFrom_append {cursor : Nat} {kept rest : List Char} {edits : List Edit}
    (behind : ∀ e, edits.head? = some e → cursor + kept.length ≤ e.start) :
    applyFrom cursor (kept ++ rest) edits = kept ++ applyFrom (cursor + kept.length) rest edits := by
  cases edits with
  | nil => rfl
  | cons e edits =>
    have far := behind e rfl
    have skip : min (e.start - cursor) (kept ++ rest).length =
        kept.length + min (e.start - (cursor + kept.length)) rest.length := by
      rw [List.length_append]
      omega
    simp only [applyFrom, skip, List.take_length_add_append, List.drop_length_add_append,
      List.append_assoc, ← Nat.add_assoc]

theorem applyFrom_substitute (cursor : Nat) (old rest : List Char) (name : String)
    (edits : List Edit) :
    applyFrom cursor (old ++ rest) (Edit.substitute cursor old.length name ++ edits) =
      name.toList ++ applyFrom (cursor + old.length) rest edits := by
  have deleted := Script.applyFrom_delete cursor [] old rest
    (Edit.insert (cursor + old.length) name :: edits)
  have inserted := Script.applyFrom_insert (cursor + old.length) [] rest name.toList edits
  simp only [List.nil_append, List.length_nil, Nat.add_zero, String.ofList_toList] at deleted inserted
  rw [← inserted, ← deleted]
  rfl

namespace Respelling

/-- The edits that bring the other name in. -/
def edits (r : Respelling) (spans : List Span) : List Edit :=
  spans.flatMap fun s => Edit.substitute s.start s.length r.name

/-- Where some of the ranges that follow each other are listed in order, the first of the ranges
comes first, if it is listed. -/
theorem exists_later {spans named others : List Span} {first : Span}
    (order : Ordered (first :: others)) (sorted : spans.Pairwise fun s t => s.stop ≤ t.start)
    (left : ∀ s, s ∈ spans ↔ s ∈ named ∧ s ∈ first :: others) :
    ∃ later, spans = (if first ∈ named then [first] else []) ++ later ∧
      ∀ s, s ∈ later ↔ s ∈ named ∧ s ∈ others := by
  have behind := (List.pairwise_cons.1 order.apart).1
  have filled := order.filled first List.mem_cons_self
  split
  · next listed =>
    cases spans with
    | nil => cases (left first).2 ⟨listed, List.mem_cons_self⟩
    | cons head later =>
      obtain ⟨after, _⟩ := List.pairwise_cons.1 sorted
      obtain rfl : head = first := by
        rcases List.mem_cons.1 ((left first).2 ⟨listed, List.mem_cons_self⟩) with same | here
        · exact same.symm
        · rcases List.mem_cons.1 ((left head).1 List.mem_cons_self).2 with same | there
          · exact same
          · have := after first here
            have := behind head there
            have := order.filled head (List.mem_cons_of_mem _ there)
            omega
      refine ⟨later, rfl, fun s => ⟨fun here => ?_, fun here => ?_⟩⟩
      · obtain ⟨also, there⟩ := (left s).1 (List.mem_cons_of_mem _ here)
        rcases List.mem_cons.1 there with rfl | there
        · have := after s here
          omega
        · exact ⟨also, there⟩
      · rcases List.mem_cons.1 ((left s).2 ⟨here.1, List.mem_cons_of_mem _ here.2⟩) with rfl | there
        · have := behind s here.2
          omega
        · exact there
  · next unlisted =>
    refine ⟨spans, rfl, fun s => (left s).trans ?_⟩
    rw [List.mem_cons]
    exact and_congr_right fun listed => or_iff_right (by rintro rfl; exact unlisted listed)

theorem Fits.applyFrom_edits {r : Respelling} {text : String} (fits : r.Fits text) {offset : Nat}
    {opensBlock : Bool} {cs : List Char}
    (within : ∀ p ∈ piecesFrom offset opensBlock cs, p ∈ pieces text) {spans : List Span}
    (sorted : spans.Pairwise fun s t => s.stop ≤ t.start)
    (left : ∀ s, s ∈ spans ↔
      s ∈ r.spans ∧ s ∈ (piecesFrom offset opensBlock cs).map (·.span)) :
    applyFrom offset cs (r.edits spans) = r.chars (piecesFrom offset opensBlock cs) := by
  induction size : cs.length using Nat.strong_induction_on
    generalizing offset opensBlock cs spans with
  | _ size' ih =>
    cases cs with
    | nil =>
      have none : spans = [] := List.eq_nil_iff_forall_not_mem.2 fun s here => by
        simpa [piecesFrom] using (left s).1 here
      rw [none]
      simp [piecesFrom, chars, edits, applyFrom]
    | cons c cs =>
      have order := ordered_pieces offset opensBlock (c :: cs)
      obtain ⟨lexeme, mid, rest, rfl, found⟩ := exists_munch opensBlock c cs
      rw [← List.cons_append, piecesFrom_of_munch found] at within left order ⊢
      simp only [List.map_cons] at within left order ⊢
      obtain ⟨member, later⟩ := List.forall_mem_cons.1 within
      have shorter : rest.length < size' := by
        rw [← size, List.length_cons, List.length_append]
        omega
      have width : offset + (c :: mid).length = offset + 1 + mid.length := by
        rw [List.length_cons]
        omega
      obtain ⟨behind, rfl, among⟩ := exists_later order sorted left
      have onward := ih rest.length shorter later (List.pairwise_append.1 sorted).2.1 among rfl
      rw [chars_cons, fits.text_piece member]
      split
      · have size : (⟨offset, offset + 1 + mid.length⟩ : Span).length = (c :: mid).length := by
          show offset + 1 + mid.length - offset = _
          omega
        rw [List.singleton_append, edits, List.flatMap_cons, ← edits, size, applyFrom_substitute,
          width, onward]
      · rw [List.nil_append, applyFrom_append fun e first => ?_, width, onward,
          String.toList_ofList]
        cases behind with
        | nil => cases first
        | cons s behind =>
          cases first
          have := (List.pairwise_cons.1 order.apart).1 s ((among s).1 List.mem_cons_self).2
          rw [width]
          exact this

/-- Applying the edits for all names gives the respelled text. -/
theorem Fits.applyEdits_edits {r : Respelling} {text : String} (fits : r.Fits text)
    (sorted : r.spans.Pairwise fun s t => s.stop ≤ t.start) :
    applyEdits text (r.edits r.spans) = r.respell text := by
  rw [applyEdits, respell, pieces]
  exact congrArg String.ofList
    (fits.applyFrom_edits (fun _ member => member) sorted fun s =>
      (and_iff_left_of_imp fun listed => by
        obtain ⟨p, member, span, _⟩ := fits.exists_piece listed
        exact List.mem_map.2 ⟨p, member, span⟩).symm)

end Respelling

end GrammarIndex.Grammar

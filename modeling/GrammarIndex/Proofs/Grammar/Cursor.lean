import GrammarIndex.Proofs.Grammar.Lossless

/-!
The same cut, made by a position that moves over the characters.

`scan?` keeps no rest of the text, only the position it has reached. It gives up where a range leaves
the text, where more braces close than were opened, and where its loop goes on for more rounds than
there are characters. `scan?_eq` says that none of this ever happens and that it finds the tokens and
comments of the text.
-/
namespace GrammarIndex.Grammar

/-! ### Moving a position -/

namespace Cursor

/-- Behind the characters from a position on that satisfy `p`. -/
def skipWhile (p : Char → Bool) (cs : List Char) (pos : Nat) : Nat :=
  match _read : cs[pos]? with
  | none => pos
  | some c => if p c then skipWhile p cs (pos + 1) else pos
termination_by cs.length - pos
decreasing_by
  have := (List.getElem?_eq_some_iff.1 _read).1
  omega

/-- Behind a block comment whose inside starts at a position. -/
def blockStop (cs : List Char) (pos : Nat) : Nat :=
  match _read : cs[pos]? with
  | none => pos
  | some c => if c = '*' && cs[pos + 1]? = some '/' then pos + 2 else blockStop cs (pos + 1)
termination_by cs.length - pos
decreasing_by
  have := (List.getElem?_eq_some_iff.1 _read).1
  omega

/-- Behind a literal whose inside starts at a position, and whether it is closed. A backslash at the
end of the text moves the position past it, so an open literal is cut back to the text. -/
def quotedStop (close : Char) (cs : List Char) (pos : Nat) : Nat × Bool :=
  match _read : cs[pos]? with
  | none => (min pos cs.length, false)
  | some c =>
    if c = '\\' then quotedStop close cs (pos + 2)
    else if c = close then (pos + 1, true)
    else if c = '\n' then (min pos cs.length, false)
    else quotedStop close cs (pos + 1)
termination_by cs.length - pos
decreasing_by
  all_goals
    have := (List.getElem?_eq_some_iff.1 _read).1
    omega

/-- Behind an action, from its first brace on; nothing if a brace closes that was not opened. -/
def actionStop? (cs : List Char) (depth pos : Nat) : Option Nat :=
  match _read : cs[pos]? with
  | none => some (min pos cs.length)
  | some c =>
    if c = '{' then actionStop? cs (depth + 1) (pos + 1)
    else if c = '}' then
      match depth with
      | 0 => none
      | 1 => some (min (pos + 1) cs.length)
      | depth + 2 => actionStop? cs (depth + 1) (pos + 1)
    else if c = '\\' then actionStop? cs depth (pos + 2)
    else actionStop? cs depth (pos + 1)
termination_by cs.length - pos
decreasing_by
  all_goals
    have := (List.getElem?_eq_some_iff.1 _read).1
    omega

/-- The characters of a range; nothing if the range is not one of the text. -/
def slice? (cs : List Char) (start stop : Nat) : Option (List Char) :=
  if start ≤ stop ∧ stop ≤ cs.length then some ((cs.take stop).drop start) else none

/-- What starts with the character `c` at a position, and where it ends. -/
def reach? (cs : List Char) (opensBlock : Bool) (pos : Nat) (c : Char) : Option (Lexeme × Nat) :=
  let literal (kind : TokenKind) (close : Char) : Lexeme × Nat :=
    let (stop, closed) := quotedStop close cs (pos + 1)
    (.token (if closed then kind else .error), stop)
  if Text.isBlank c then some (.blank, pos + 1)
  else if c = '/' && cs[pos + 1]? = some '/' then some (.comment, skipWhile (· != '\n') cs pos)
  else if c = '/' && cs[pos + 1]? = some '*' then some (.comment, blockStop cs (pos + 2))
  else if c = '\x27' then some (literal .stringLiteral '\x27')
  else if c = '[' then some (literal .charSet ']')
  else if c = '{' then
    if opensBlock then some (.token .lbrace, pos + 1)
    else (actionStop? cs 0 pos).map fun stop => (.token .action, stop)
  else if c.isAlpha then
    let stop := skipWhile isNameChar cs pos
    (slice? cs pos stop).map fun name => (.token (nameKind name), stop)
  else if c.isDigit then some (.token .int, skipWhile Char.isDigit cs pos)
  else
    match cs[pos + 1]?.bind (pairKind? c) with
    | some kind => some (.token kind, pos + 2)
    | none => some (.token (singleKind c), pos + 1)

end Cursor

/-- A position in a text, with the tokens and the comments before it. -/
structure Cursor where
  pos : Nat
  tokens : List Token
  comments : List Comment

namespace Cursor

/-- Whether the last token asks for a list of names in braces. -/
def opensBlock (k : Cursor) : Bool :=
  k.tokens.getLast?.any fun t => t.kind == .keyword && blockWords.contains t.text

/-- Take what ends at a position. -/
def take? (cs : List Char) (k : Cursor) (lexeme : Lexeme) (stop : Nat) : Option Cursor :=
  (slice? cs k.pos stop).map fun chars =>
    let piece : Piece := ⟨lexeme, String.ofList chars, ⟨k.pos, stop⟩⟩
    ⟨stop, k.tokens ++ piece.token?.toList, k.comments ++ piece.comment?.toList⟩

/-- Go on to the end of the text, in so many rounds. -/
def run? (cs : List Char) : (rounds : Nat) → Cursor → Option (List Token × List Comment)
  | rounds, k =>
    match cs[k.pos]? with
    | none => some (k.tokens, k.comments)
    | some c =>
      match rounds with
      | 0 => none
      | rounds + 1 => do
        let (lexeme, stop) ← reach? cs k.opensBlock k.pos c
        run? cs rounds (← k.take? cs lexeme stop)

end Cursor

/-- The tokens and the comments of a text, found by position, in as many rounds as there are
characters. -/
def scan? (text : String) : Option (List Token × List Comment) :=
  Cursor.run? text.toList text.length ⟨0, [], []⟩

/-! ### No piece leaves the text -/

theorem quotedLength_le (close : Char) (cs : List Char) : (quotedLength close cs).1 ≤ cs.length := by
  fun_induction quotedLength close cs <;> simp_all

theorem blockCommentLength_le (cs : List Char) : blockCommentLength cs ≤ cs.length := by
  fun_induction blockCommentLength cs <;> simp
  assumption

theorem actionLength_le (depth : Nat) (cs : List Char) : actionLength depth cs ≤ cs.length := by
  fun_induction actionLength depth cs <;> simp <;> assumption

theorem munch_le (opensBlock : Bool) (c : Char) (cs : List Char) :
    (munch opensBlock c cs).2 ≤ cs.length := by
  have run : ∀ p : Char → Bool, (cs.takeWhile p).length ≤ cs.length := fun p =>
    (List.takeWhile_prefix p).length_le
  have block : cs.head? = some '*' → blockCommentLength (cs.drop 1) + 1 ≤ cs.length := by
    intro starts
    obtain ⟨rest, rfl⟩ := List.head?_eq_some_iff.1 starts
    exact Nat.succ_le_succ (blockCommentLength_le rest)
  have pair : ∀ kind, cs.head?.bind (pairKind? c) = some kind → 1 ≤ cs.length := by
    intro kind found
    cases cs with
    | nil => cases found
    | cons _ rest => simp
  unfold munch quoted
  split
  · exact Nat.zero_le _
  split
  · exact run _
  split
  · next opening => exact block (of_decide_eq_true (Bool.and_eq_true_iff.1 opening).2)
  split
  · exact quotedLength_le _ cs
  split
  · exact quotedLength_le _ cs
  split
  · split
    · exact Nat.zero_le _
    · exact actionLength_le 0 cs
  split
  · exact run _
  split
  · exact run _
  split
  · next kind found => exact pair kind found
  · exact Nat.zero_le _

/-- The first piece of a text that is not empty, and the pieces behind it. -/
theorem piecesFrom_cons (offset : Nat) (opensBlock : Bool) (c : Char) (cs : List Char) :
    piecesFrom offset opensBlock (c :: cs) =
      let found := munch opensBlock c cs
      let piece : Piece :=
        ⟨found.1, String.ofList (c :: cs.take found.2), ⟨offset, offset + 1 + found.2⟩⟩
      piece :: piecesFrom (offset + 1 + found.2) (piece.opensBlock opensBlock)
        (cs.drop found.2) := by
  have size : offset + (c :: cs.take (munch opensBlock c cs).2).length =
      offset + 1 + (munch opensBlock c cs).2 := by
    rw [List.length_cons, List.length_take, Nat.min_eq_left (munch_le opensBlock c cs)]
    omega
  rw [piecesFrom]
  simp only [size]

/-! ### Positions and rests -/

namespace Cursor

variable {cs : List Char} {pos : Nat}

theorem getElem?_of_drop_nil (left : cs.drop pos = []) : cs[pos]? = none := by
  rw [← List.head?_drop, left, List.head?_nil]

theorem getElem?_of_drop_cons {c : Char} {rest : List Char} (left : cs.drop pos = c :: rest) :
    cs[pos]? = some c := by
  rw [← List.head?_drop, left, List.head?_cons]

theorem drop_succ_of_drop_cons {c : Char} {rest : List Char} (left : cs.drop pos = c :: rest) :
    cs.drop (pos + 1) = rest := by
  rw [← List.tail_drop, left, List.tail_cons]

/-- A rest and its position make up the text. -/
theorem pos_add_length {rest : List Char} (left : cs.drop pos = rest) (inside : pos ≤ cs.length) :
    pos + rest.length = cs.length := by
  rw [← left, List.length_drop]
  omega

theorem skipWhile_none (p : Char → Bool) (read : cs[pos]? = none) : skipWhile p cs pos = pos := by
  rw [skipWhile]
  split <;> simp_all

theorem skipWhile_some (p : Char → Bool) {c : Char} (read : cs[pos]? = some c) :
    skipWhile p cs pos = if p c then skipWhile p cs (pos + 1) else pos := by
  rw [skipWhile]
  split <;> simp_all

theorem blockStop_none (read : cs[pos]? = none) : blockStop cs pos = pos := by
  rw [blockStop]
  split <;> simp_all

theorem blockStop_some {c : Char} (read : cs[pos]? = some c) :
    blockStop cs pos =
      if c = '*' && cs[pos + 1]? = some '/' then pos + 2 else blockStop cs (pos + 1) := by
  rw [blockStop]
  split <;> simp_all

theorem quotedStop_none (close : Char) (read : cs[pos]? = none) :
    quotedStop close cs pos = (min pos cs.length, false) := by
  rw [quotedStop]
  split <;> simp_all

theorem quotedStop_some (close : Char) {c : Char} (read : cs[pos]? = some c) :
    quotedStop close cs pos =
      if c = '\\' then quotedStop close cs (pos + 2)
      else if c = close then (pos + 1, true)
      else if c = '\n' then (min pos cs.length, false)
      else quotedStop close cs (pos + 1) := by
  rw [quotedStop]
  split <;> simp_all

theorem actionStop?_none (depth : Nat) (read : cs[pos]? = none) :
    actionStop? cs depth pos = some (min pos cs.length) := by
  rw [actionStop?.eq_def]
  split <;> simp_all

theorem actionStop?_some (depth : Nat) {c : Char} (read : cs[pos]? = some c) :
    actionStop? cs depth pos =
      if c = '{' then actionStop? cs (depth + 1) (pos + 1)
      else if c = '}' then
        match depth with
        | 0 => none
        | 1 => some (min (pos + 1) cs.length)
        | depth + 2 => actionStop? cs (depth + 1) (pos + 1)
      else if c = '\\' then actionStop? cs depth (pos + 2)
      else actionStop? cs depth (pos + 1) := by
  rw [actionStop?.eq_def]
  split <;> simp_all

theorem skipWhile_eq (p : Char → Bool) {rest : List Char} (left : cs.drop pos = rest) :
    skipWhile p cs pos = pos + (rest.takeWhile p).length := by
  induction rest generalizing pos with
  | nil => exact skipWhile_none p (getElem?_of_drop_nil left)
  | cons c rest ih =>
    rw [skipWhile_some p (getElem?_of_drop_cons left), ih (drop_succ_of_drop_cons left),
      List.takeWhile_cons]
    cases p c with
    | false => rfl
    | true =>
      simp only [if_true, List.length_cons]
      omega

theorem blockStop_eq {rest : List Char} (left : cs.drop pos = rest) :
    blockStop cs pos = pos + blockCommentLength rest := by
  fun_induction blockCommentLength rest generalizing pos with
  | case1 => exact blockStop_none (getElem?_of_drop_nil left)
  | case2 rest =>
    have slash := getElem?_of_drop_cons (drop_succ_of_drop_cons left)
    rw [blockStop_some (getElem?_of_drop_cons left), slash]
    rfl
  | case3 c rest open_ ih =>
    have next := drop_succ_of_drop_cons left
    have goesOn : ¬ (decide (c = '*') && decide (cs[pos + 1]? = some '/')) = true := by
      simp only [Bool.and_eq_true, decide_eq_true_eq]
      rintro ⟨rfl, slash⟩
      rw [← List.head?_drop, next] at slash
      obtain ⟨rest', rfl⟩ := List.head?_eq_some_iff.1 slash
      exact open_ rest' rfl rfl
    rw [blockStop_some (getElem?_of_drop_cons left), if_neg goesOn, ih next]
    omega

/-- What is neither a lone backslash nor one with a character behind it starts with no backslash. -/
theorem ne_backslash {c : Char} {rest : List Char} (lone : c = '\\' → rest = [] → False)
    (pair : ∀ d rest', c = '\\' → rest = d :: rest' → False) : c ≠ '\\' := by
  intro same
  cases rest with
  | nil => exact lone same rfl
  | cons d rest' => exact pair d rest' same rfl

/-- A backslash that ends the text moves the position past the end, and it is cut back. -/
theorem quotedStop_eq (close : Char) (plain : close ≠ '\\') {rest : List Char}
    (left : cs.drop pos = rest) (inside : pos ≤ cs.length) :
    quotedStop close cs pos = (pos + (quotedLength close rest).1, (quotedLength close rest).2) := by
  fun_induction quotedLength close rest generalizing pos with
  | case1 =>
    rw [quotedStop_none close (getElem?_of_drop_nil left), Nat.min_eq_left inside]
    rfl
  | case2 =>
    have size := pos_add_length left inside
    have past : cs[pos + 2]? = none := List.getElem?_eq_none (by simp at size; omega)
    rw [quotedStop_some close (getElem?_of_drop_cons left), if_pos rfl, quotedStop_none close past]
    simp at size ⊢
    omega
  | case3 skipped rest n closed recur ih =>
    have size := pos_add_length left inside
    have next := drop_succ_of_drop_cons (drop_succ_of_drop_cons left)
    have found := ih next (by simp at size; omega)
    rw [recur] at found
    rw [quotedStop_some close (getElem?_of_drop_cons left), if_pos rfl, found]
    simp
    omega
  | case4 rest =>
    rw [quotedStop_some close (getElem?_of_drop_cons left), if_neg plain, if_pos rfl]
  | case5 rest _ _ other =>
    rw [quotedStop_some close (getElem?_of_drop_cons left), if_neg (by decide), if_neg other,
      if_pos rfl, Nat.min_eq_left inside]
    rfl
  | case6 c rest lone pair other inLine n closed recur ih =>
    have size := pos_add_length left inside
    have found := ih (drop_succ_of_drop_cons left) (by simp at size; omega)
    rw [recur] at found
    rw [quotedStop_some close (getElem?_of_drop_cons left), if_neg (ne_backslash lone pair),
      if_neg other, if_neg inLine, found]
    simp
    omega

theorem actionStop?_eq (depth : Nat) {rest : List Char} (left : cs.drop pos = rest)
    (inside : pos ≤ cs.length) :
    actionStop? cs (depth + 1) pos = some (pos + actionLength depth rest) := by
  fun_induction actionLength depth rest generalizing pos with
  | case1 depth =>
    rw [actionStop?_none _ (getElem?_of_drop_nil left), Nat.min_eq_left inside]
    rfl
  | case2 depth =>
    have size := pos_add_length left inside
    have past : cs[pos + 2]? = none := List.getElem?_eq_none (by simp at size; omega)
    rw [actionStop?_some _ (getElem?_of_drop_cons left), if_neg (by decide), if_neg (by decide),
      if_pos rfl, actionStop?_none _ past]
    simp at size ⊢
    omega
  | case3 depth skipped rest ih =>
    have size := pos_add_length left inside
    have next := drop_succ_of_drop_cons (drop_succ_of_drop_cons left)
    rw [actionStop?_some _ (getElem?_of_drop_cons left), if_neg (by decide), if_neg (by decide),
      if_pos rfl, ih next (by simp at size; omega), Option.some.injEq]
    omega
  | case4 depth rest _ _ ih =>
    have size := pos_add_length left inside
    rw [actionStop?_some _ (getElem?_of_drop_cons left), if_pos rfl,
      ih (drop_succ_of_drop_cons left) (by simp at size; omega), Option.some.injEq]
    omega
  | case5 rest =>
    have size := pos_add_length left inside
    rw [actionStop?_some _ (getElem?_of_drop_cons left), if_neg (by decide), if_pos rfl]
    simp at size ⊢
    omega
  | case6 rest depth _ _ _ ih =>
    have size := pos_add_length left inside
    rw [actionStop?_some _ (getElem?_of_drop_cons left), if_neg (by decide), if_pos rfl]
    refine (ih (drop_succ_of_drop_cons left) (by simp at size; omega)).trans ?_
    rw [Option.some.injEq]
    omega
  | case7 depth c rest lone pair notOpening notClosing ih =>
    have size := pos_add_length left inside
    rw [actionStop?_some _ (getElem?_of_drop_cons left), if_neg notOpening, if_neg notClosing,
      if_neg (ne_backslash lone pair), ih (drop_succ_of_drop_cons left) (by simp at size; omega),
      Option.some.injEq]
    omega

/-- A run that starts at a position, with its first character. -/
theorem skipWhile_cons (p : Char → Bool) {c : Char} {rest : List Char}
    (left : cs.drop pos = c :: rest) (holds : p c = true) :
    skipWhile p cs pos = pos + 1 + (rest.takeWhile p).length := by
  rw [skipWhile_some p (getElem?_of_drop_cons left), if_pos holds,
    skipWhile_eq p (drop_succ_of_drop_cons left)]

/-- A range that starts at a position holds the characters from there on. -/
theorem slice?_eq {c : Char} {rest : List Char} (left : cs.drop pos = c :: rest) {n : Nat}
    (within : n ≤ rest.length) : slice? cs pos (pos + 1 + n) = some (c :: rest.take n) := by
  have inside : pos < cs.length := by
    have := List.length_drop (i := pos) (l := cs)
    rw [left, List.length_cons] at this
    omega
  have size := pos_add_length left (Nat.le_of_lt inside)
  rw [List.length_cons] at size
  rw [slice?, if_pos ⟨by omega, by omega⟩, List.drop_take, left]
  have few : pos + 1 + n - pos = n + 1 := by omega
  rw [few, List.take_succ_cons]

/-- What starts at a position ends where the piece that is cut from the rest ends. -/
theorem reach?_eq (opensBlock : Bool) {c : Char} {rest : List Char}
    (left : cs.drop pos = c :: rest) :
    reach? cs opensBlock pos c =
      some ((munch opensBlock c rest).1, pos + 1 + (munch opensBlock c rest).2) := by
  have next := drop_succ_of_drop_cons left
  have inside : pos + 1 ≤ cs.length := by
    have := List.length_drop (i := pos) (l := cs)
    rw [left, List.length_cons] at this
    omega
  have peek : cs[pos + 1]? = rest.head? := by rw [← List.head?_drop, next]
  have literal : ∀ close, close ≠ '\\' → quotedStop close cs (pos + 1) =
      (pos + 1 + (quotedLength close rest).1, (quotedLength close rest).2) := fun close plain =>
    quotedStop_eq close plain next inside
  unfold reach? munch quoted
  simp only [peek, literal '\x27' (by decide), literal ']' (by decide)]
  split
  · rfl
  split
  · next line =>
    have starts := (Bool.and_eq_true_iff.1 line).1
    rw [skipWhile_cons _ left (by rw [of_decide_eq_true starts]; rfl)]
  split
  · next block =>
    have star : rest.head? = some '*' := of_decide_eq_true (Bool.and_eq_true_iff.1 block).2
    obtain ⟨inner, rfl⟩ := List.head?_eq_some_iff.1 star
    rw [blockStop_eq (drop_succ_of_drop_cons next)]
    simp only [List.drop_succ_cons, List.drop_zero, Option.some.injEq, Prod.mk.injEq, true_and]
    omega
  split
  · rfl
  split
  · rfl
  split
  · next brace =>
    subst brace
    split
    · rfl
    · rw [actionStop?_some _ (getElem?_of_drop_cons left), if_pos rfl,
        actionStop?_eq 0 next inside]
      rfl
  split
  · next letter =>
    have named : isNameChar c = true := by simp [isNameChar, Char.isAlphanum, letter]
    have run : (rest.takeWhile isNameChar).length ≤ rest.length :=
      (List.takeWhile_prefix _).length_le
    have taken : rest.take (rest.takeWhile isNameChar).length = rest.takeWhile isNameChar :=
      (List.prefix_iff_eq_take.1 (List.takeWhile_prefix _)).symm
    rw [skipWhile_cons _ left named, slice?_eq left run, taken]
    rfl
  split
  · next digit => rw [skipWhile_cons _ left digit]
  cases rest.head?.bind (pairKind? c) <;> rfl

/-- One round moves the position behind one piece and takes it. -/
theorem take?_eq (k : Cursor) {c : Char} {rest : List Char} (left : cs.drop k.pos = c :: rest)
    (lexeme : Lexeme) {n : Nat} (within : n ≤ rest.length) :
    k.take? cs lexeme (k.pos + 1 + n) =
      let piece : Piece := ⟨lexeme, String.ofList (c :: rest.take n), ⟨k.pos, k.pos + 1 + n⟩⟩
      some ⟨k.pos + 1 + n, k.tokens ++ piece.token?.toList, k.comments ++ piece.comment?.toList⟩ := by
  rw [take?, slice?_eq left within]
  rfl

/-- Whether a brace opens a list of names hangs on the last token alone. -/
theorem opensBlock_take (k : Cursor) (pos : Nat) (comments : List Comment) (p : Piece) :
    opensBlock ⟨pos, k.tokens ++ p.token?.toList, comments⟩ = p.opensBlock k.opensBlock := by
  obtain ⟨lexeme, text, span⟩ := p
  cases lexeme <;> simp [opensBlock, Piece.token?, Piece.opensBlock]

theorem filterMap_cons_toList {α β : Type} (f : α → Option β) (a : α) (l : List α) :
    (a :: l).filterMap f = (f a).toList ++ l.filterMap f := by
  cases found : f a <;> simp [found]

/-- The loop finds the pieces of the rest. -/
theorem run?_eq {rounds : Nat} {rest : List Char} (k : Cursor) (left : cs.drop k.pos = rest)
    (enough : rest.length ≤ rounds) :
    run? cs rounds k =
      some (k.tokens ++ (piecesFrom k.pos k.opensBlock rest).filterMap Piece.token?,
        k.comments ++ (piecesFrom k.pos k.opensBlock rest).filterMap Piece.comment?) := by
  induction rounds generalizing k rest with
  | zero =>
    rw [List.length_eq_zero_iff.1 (Nat.le_zero.1 enough)] at left ⊢
    rw [run?, getElem?_of_drop_nil left]
    simp [piecesFrom]
  | succ rounds ih =>
    cases rest with
    | nil =>
      rw [run?, getElem?_of_drop_nil left]
      simp [piecesFrom]
    | cons c rest =>
      have within := munch_le k.opensBlock c rest
      have behind : cs.drop (k.pos + 1 + (munch k.opensBlock c rest).2) =
          rest.drop (munch k.opensBlock c rest).2 := by
        rw [← List.drop_drop, drop_succ_of_drop_cons left]
      rw [run?, getElem?_of_drop_cons left]
      simp only [reach?_eq _ left, take?_eq k left _ within, Option.bind_eq_bind, Option.bind_some]
      rw [ih _ behind (by rw [List.length_drop]; simp at enough; omega), piecesFrom_cons,
        opensBlock_take]
      simp only [filterMap_cons_toList, List.append_assoc]

end Cursor

/-- Scanning by position never leaves the text, never closes more braces than were opened and ends
in time; it finds the tokens and the comments of the text. -/
theorem scan?_eq (text : String) : scan? text = some (tokenize text) := by
  have start : text.toList.drop (⟨0, [], []⟩ : Cursor).pos = text.toList := rfl
  rw [scan?, Cursor.run?_eq ⟨0, [], []⟩ start (Nat.le_of_eq String.length_toList)]
  rfl

end GrammarIndex.Grammar

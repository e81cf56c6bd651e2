import GrammarIndex.Proofs.Format.Carried
import GrammarIndex.Proofs.Grammar.Cut

/-!
Formatting leaves the tokens of a text what they are.

Formatting knows nothing of tokens. It changes the white space between them, and that within them as
well. Still the same pieces are cut off from both texts, one behind the other, because each reader
makes nothing of the blanks that change. Literals are the exception: a backslash takes the blank
behind it, and it takes the newline if the blank is left out.
-/
namespace GrammarIndex.Format

open Text (isBlank dropTrailing)
open Grammar

/-! ### Pieces -/

/-- The pieces with white space in them. -/
def spaced : List Lexeme :=
  [.comment, .token .action, .token .stringLiteral, .token .charSet, .token .error]

/-- A piece behind its first character and what it leaves, of two texts that differ in white
space. -/
structure Recut (o : FormatOptions) (lexeme : Lexeme) (mid rest mid' rest' : List Char) :
    Prop where
  behind : Respaced o rest rest'
  spelled : solid mid' = solid mid
  plain : lexeme ∉ spaced → mid' = mid
  kept : lexeme ≠ .comment → lexeme ≠ .token .action → Unspaced o mid →
    (o.insertFinalNewline = true → rest = [] → escapes mid = false) → mid' = mid

/-- What stays as it is. -/
theorem Recut.same {o : FormatOptions} {rest rest' : List Char} (behind : Respaced o rest rest')
    (lexeme : Lexeme) (mid : List Char) : Recut o lexeme mid rest mid rest' :=
  ⟨behind, rfl, fun _ => rfl, fun _ _ _ _ => rfl⟩

section Munch

variable {o : FormatOptions} {cs cs' : List Char}

theorem isBlank_of_isDigit {c : Char} (digit : c.isDigit = true) : isBlank c = false := by
  simp only [Char.isDigit, Bool.and_eq_true, decide_eq_true_eq, UInt32.le_iff_toNat_le] at digit
  have code : 48 ≤ c.toNat ∧ c.toNat ≤ 57 := by simpa using digit
  simp [isBlank]
  omega

theorem rejects_isDigit (b : Char) (blank : isBlank b = true) : b.isDigit = false := by
  cases digit : b.isDigit with
  | false => rfl
  | true =>
    rw [isBlank_of_isDigit digit] at blank
    cases blank

theorem rejects_isNameChar (b : Char) (blank : isBlank b = true) : isNameChar b = false := by
  have letter : b.isAlpha = false := by
    cases letter : b.isAlpha with
    | false => rfl
    | true =>
      rw [isBlank_of_isAlpha letter] at blank
      cases blank
  have other : (b == '_') = false := beq_false_of_ne (Machine.isBlank_ne blank (by decide))
  rw [isNameChar, Char.isAlphanum, letter, rejects_isDigit b blank, other]
  rfl

/-- What takes no blanks takes the same. -/
theorem carried_run {p : Char → Bool} (rejects : ∀ b, isBlank b = true → p b = false)
    (r : Respaced o cs cs') : (Machine.run p).taken () cs' = (Machine.run p).taken () cs ∧
      Respaced o ((Machine.run p).left () cs) ((Machine.run p).left () cs') := by
  have carried := carried (Machine.steady_run rejects) r (tidy_of_never () cs)
  have solid : ∀ c ∈ (Machine.run p).taken () cs, isBlank c = false := by
    intro c member
    rw [Machine.taken_run] at member
    cases blank : isBlank c with
    | false => rfl
    | true =>
      have holds := List.mem_takeWhile_imp member
      rw [rejects c blank] at holds
      cases holds
  refine ⟨carried.kept (Machine.inLine_run rejects) ⟨fun _ member => ?_, fun _ c last => ?_⟩
    fun _ _ => ?_, carried.behind⟩
  · cases solid _ member
  · exact solid c (List.mem_of_getLast? last)
  · simp [Machine.run, rejects '\n' (by decide)]

theorem getLast?_of_escapes {cs : List Char} (escape : escapes cs = true) :
    cs.getLast? = some '\\' := by
  rcases List.eq_nil_or_concat cs with rfl | ⟨cs, c, rfl⟩
  · cases escape
  · rw [List.concat_eq_append, escapes, List.foldl_append, List.foldl_cons, List.foldl_nil,
      Bool.and_eq_true] at escape
    rw [List.concat_eq_append, List.getLast?_concat, eq_of_beq escape.2]

/-- A literal that its line does not close is tidy if none of the blanks at the end of that line is
escaped. -/
theorem tidy_literal {close : Char} (tidy : o.trimTrailingWhitespace = true →
      (Machine.literal close).closes false cs = false →
      ((Machine.literal close).left false cs).head? = some '\n' →
      escapes (dropTrailing isPadding ((Machine.literal close).taken false cs)) = false) :
    Tidy o (Machine.literal close) (fun escaped => escaped = true) false cs := by
  intro trims open_ line front blanks split _ blank isBad
  rw [Machine.after_literal] at isBad
  have last := getLast?_of_escapes isBad
  have whole : dropTrailing isPadding (front ++ blanks) = front := by
    have padding := (Text.dropTrailing_eq_nil_iff isPadding).2 blank.isPadding
    rw [Text.dropTrailing_append, if_pos padding]
    refine Text.dropTrailing_eq_self isPadding fun c here => ?_
    rw [last] at here
    cases here
    decide
  have free := tidy trims open_ line
  rw [split, whole, isBad] at free
  cases free

/-! ### Cutting -/

theorem munch_line (opensBlock : Bool) (first : cs.head? = some '/') :
    munch opensBlock '/' cs =
      (.comment, ((Machine.run (· != '\n')).taken () cs).length) := by
  simp [munch, Text.isBlank, first, Machine.taken_run]

theorem munch_block (opensBlock : Bool) (cs : List Char) : munch opensBlock '/' ('*' :: cs) =
    (.comment, (Machine.comment.taken false cs).length + 1) := by
  simp [munch, Text.isBlank, Machine.blockCommentLength_eq]

theorem quoted_eq (kind : TokenKind) (close : Char) (cs : List Char) : quoted kind close cs =
    (.token (if (Machine.literal close).closes false cs then kind else .error),
      ((Machine.literal close).taken false cs).length) := by
  rw [quoted, Machine.quotedLength_eq]

theorem munch_action (cs : List Char) : munch false '{' cs =
    (.token .action, (Machine.action.taken (0, false) cs).length) := by
  simp [munch, Text.isBlank, Machine.actionLength_eq]

theorem munch_digit (opensBlock : Bool) {c : Char} (digit : c.isDigit = true) (cs : List Char) :
    munch opensBlock c cs =
      (.token .int, ((Machine.run Char.isDigit).taken () cs).length) := by
  have other : ∀ d : Char, d.isDigit = false → c ≠ d := by
    rintro d away rfl
    rw [digit] at away
    cases away
  have noLetter : c.isAlpha = false := by
    cases letter : c.isAlpha with
    | false => rfl
    | true =>
      rw [isDigit_of_isAlpha letter] at digit
      cases digit
  simp [munch, isBlank_of_isDigit digit, digit, noLetter, other '/' (by decide),
    other '\x27' (by decide), other '[' (by decide), other '{' (by decide), Machine.taken_run]

/-- What starts none of the longer pieces is one or two characters long. -/
theorem munch_short (opensBlock : Bool) {c : Char} (solid : isBlank c = false)
    (noLine : ¬(c = '/' ∧ cs.head? = some '/')) (noBlock : ¬(c = '/' ∧ cs.head? = some '*'))
    (noString : c ≠ '\x27') (noSet : c ≠ '[') (noBrace : c ≠ '{') (noLetter : c.isAlpha = false)
    (noDigit : c.isDigit = false) : munch opensBlock c cs =
      match cs.head?.bind (pairKind? c) with
      | some kind => (.token kind, 1)
      | none => (.token (singleKind c), 0) := by
  cases pair : cs.head?.bind (pairKind? c) <;>
    simp [munch, solid, noString, noSet, noBrace, noLetter, noDigit, noLine, noBlock, pair]

theorem solid_of_pairKind? {c next : Char} {kind : TokenKind}
    (pair : pairKind? c next = some kind) : isBlank next = false := by
  have listed : next = '=' ∨ next = '>' ∨ next = '.' := by
    unfold pairKind? at pair
    simp only [Bool.and_eq_true, decide_eq_true_eq] at pair
    split at pair
    · next both => exact .inl both.2
    · split at pair
      · next both => exact .inr (.inl both.2)
      · split at pair
        · next both => exact .inr (.inr both.2)
        · cases pair
  rcases listed with rfl | rfl | rfl <;> decide

/-- Behind a character the same piece is cut off from two texts, up to white space. -/
def CutAlike (o : FormatOptions) (opensBlock : Bool) (c : Char) (cs cs' : List Char) : Prop :=
  ∃ lexeme mid rest mid' rest', cs = mid ++ rest ∧ cs' = mid' ++ rest' ∧
    munch opensBlock c cs = (lexeme, mid.length) ∧
    munch opensBlock c cs' = (lexeme, mid'.length) ∧ Recut o lexeme mid rest mid' rest'

variable {opensBlock : Bool} {c : Char} (r : Respaced o cs cs')

theorem cutAlike_of_machine {σ : Type} {m : Machine σ} {s : σ} {lexeme : Lexeme}
    (here : munch opensBlock c cs = (lexeme, (m.taken s cs).length))
    (there : munch opensBlock c cs' = (lexeme, (m.taken s cs').length))
    (recut : Recut o lexeme (m.taken s cs) (m.left s cs) (m.taken s cs') (m.left s cs')) :
    CutAlike o opensBlock c cs cs' :=
  ⟨lexeme, _, _, _, _, (m.taken_append_left s cs).symm, (m.taken_append_left s cs').symm, here,
    there, recut⟩

include r

theorem cutAlike_line (first : cs.head? = some '/') : CutAlike o opensBlock '/' cs cs' := by
  have carried := carried Machine.steady_line r (tidy_of_never () cs)
  exact cutAlike_of_machine (munch_line opensBlock first)
    (munch_line opensBlock ((r.head?_iff (by decide)).2 first))
    ⟨carried.behind, carried.spelled, fun other => absurd (by decide) other,
      fun other => absurd rfl other⟩

theorem cutAlike_block (first : cs.head? = some '*') : CutAlike o opensBlock '/' cs cs' := by
  obtain ⟨ds, rfl⟩ := List.head?_eq_some_iff.1 first
  obtain ⟨ds', rfl, behind⟩ := r.behind_solid (by decide)
  have carried := carried Machine.steady_comment behind (tidy_of_never false ds)
  refine ⟨.comment, '*' :: Machine.comment.taken false ds, Machine.comment.left false ds,
    '*' :: Machine.comment.taken false ds', Machine.comment.left false ds', ?_, ?_,
    munch_block opensBlock ds, munch_block opensBlock ds', carried.behind, ?_,
    fun other => absurd (by decide) other, fun other => absurd rfl other⟩
  · rw [List.cons_append, Machine.taken_append_left]
  · rw [List.cons_append, Machine.taken_append_left]
  · rw [solid_cons, carried.spelled, ← solid_cons]

theorem cutAlike_action : CutAlike o opensBlock '{' cs cs' := by
  cases opensBlock with
  | true =>
    exact ⟨.token .lbrace, [], cs, [], cs', rfl, rfl, rfl, rfl, .same r _ []⟩
  | false =>
    have carried := carried Machine.steady_action r (tidy_of_never (0, false) cs)
    exact cutAlike_of_machine (munch_action cs) (munch_action cs')
      ⟨carried.behind, carried.spelled, fun other => absurd (by decide) other,
        fun _ other => absurd rfl other⟩

/-- A literal is cut off the same, be it closed or not. -/
theorem cutAlike_literal {kind : TokenKind} {close : Char} (solid : isBlank close = false)
    (literal : kind = .stringLiteral ∨ kind = .charSet)
    (starts : ∀ cs, munch opensBlock c cs = quoted kind close cs)
    (tidy : o.trimTrailingWhitespace = true →
      (Machine.literal close).closes false cs = false →
      ((Machine.literal close).left false cs).head? = some '\n' →
      escapes (dropTrailing isPadding ((Machine.literal close).taken false cs)) = false) :
    CutAlike o opensBlock c cs cs' := by
  have carried := carried (Machine.steady_literal solid) r (tidy_literal tidy)
  have there := (starts cs').trans (quoted_eq kind close cs')
  rw [carried.closes] at there
  refine cutAlike_of_machine ((starts cs).trans (quoted_eq kind close cs)) there
    ⟨carried.behind, carried.spelled, fun other => absurd ?_ other, fun _ _ unspaced ends =>
      carried.kept (Machine.inLine_literal solid) unspaced fun adds last => ?_⟩
  · split
    · rcases literal with rfl | rfl <;> decide
    · decide
  · rw [Machine.after_literal, ends adds last]
    exact (Machine.halts_literal solid).newline

theorem cutAlike_name (letter : c.isAlpha = true) : CutAlike o opensBlock c cs cs' := by
  obtain ⟨taken, behind⟩ := carried_run rejects_isNameChar r
  have here := munch_letter opensBlock letter cs
  have there := munch_letter opensBlock letter cs'
  rw [← Machine.taken_run] at here there
  have same := there
  rw [taken] at same
  refine cutAlike_of_machine here (by rw [same, taken]) ?_
  rw [taken]
  exact .same behind _ _

theorem cutAlike_int (digit : c.isDigit = true) : CutAlike o opensBlock c cs cs' := by
  obtain ⟨taken, behind⟩ := carried_run rejects_isDigit r
  refine cutAlike_of_machine (munch_digit opensBlock digit cs) (munch_digit opensBlock digit cs') ?_
  rw [taken]
  exact .same behind _ _

theorem cutAlike_short (solid : isBlank c = false)
    (noLine : ¬(c = '/' ∧ cs.head? = some '/')) (noBlock : ¬(c = '/' ∧ cs.head? = some '*'))
    (noString : c ≠ '\x27') (noSet : c ≠ '[') (noBrace : c ≠ '{') (noLetter : c.isAlpha = false)
    (noDigit : c.isDigit = false) : CutAlike o opensBlock c cs cs' := by
  have here := munch_short opensBlock solid noLine noBlock noString noSet noBrace noLetter noDigit
  have there := @munch_short cs' opensBlock c solid
    (fun both => noLine ⟨both.1, (r.head?_iff (by decide)).1 both.2⟩)
    (fun both => noBlock ⟨both.1, (r.head?_iff (by decide)).1 both.2⟩)
    noString noSet noBrace noLetter noDigit
  cases pair : cs.head?.bind (pairKind? c) with
  | some kind =>
    obtain ⟨next, first, two⟩ := Option.bind_eq_some_iff.1 pair
    obtain ⟨ds, rfl⟩ := List.head?_eq_some_iff.1 first
    obtain ⟨ds', rfl, behind⟩ := r.behind_solid (solid_of_pairKind? two)
    have pair' : (next :: ds').head?.bind (pairKind? c) = some kind := two
    rw [pair] at here
    rw [pair'] at there
    exact ⟨.token kind, [next], ds, [next], ds', rfl, rfl, here, there, .same behind _ _⟩
  | none =>
    have pair' : cs'.head?.bind (pairKind? c) = none := by
      refine Option.eq_none_iff_forall_ne_some.2 fun kind found => ?_
      obtain ⟨next, first, two⟩ := Option.bind_eq_some_iff.1 found
      rw [(r.head?_iff (solid_of_pairKind? two)).1 first, Option.bind_some, two] at pair
      cases pair
    rw [pair] at here
    rw [pair'] at there
    exact ⟨_, [], cs, [], cs', rfl, rfl, here, there, .same r _ _⟩

/-- Behind a character that is not blank the same piece is cut off, if the literal that may start
here is tidy. -/
theorem cutAlike (solid : isBlank c = false) (tidy : ∀ mid rest, cs = mid ++ rest →
      munch opensBlock c cs = (.token .error, mid.length) → o.trimTrailingWhitespace = true →
      rest.head? = some '\n' → escapes (dropTrailing isPadding mid) = false) :
    CutAlike o opensBlock c cs cs' := by
  have literal : ∀ kind close, isBlank close = false → kind = .stringLiteral ∨ kind = .charSet →
      (∀ cs, munch opensBlock c cs = quoted kind close cs) → CutAlike o opensBlock c cs cs' := by
    intro kind close solid isLiteral starts
    refine cutAlike_literal r solid isLiteral starts fun trims open_ line => ?_
    refine tidy _ _ (Machine.taken_append_left _ false cs).symm ?_ trims line
    rw [starts, quoted_eq, open_, if_neg Bool.false_ne_true]
  by_cases isLine : c = '/' ∧ cs.head? = some '/'
  · obtain ⟨rfl, first⟩ := isLine
    exact cutAlike_line r first
  by_cases isBlock : c = '/' ∧ cs.head? = some '*'
  · obtain ⟨rfl, first⟩ := isBlock
    exact cutAlike_block r first
  by_cases isString : c = '\x27'
  · subst isString
    exact literal .stringLiteral '\x27' (by decide) (.inl rfl)
      fun cs => by simp [munch, Text.isBlank]
  by_cases isSet : c = '['
  · subst isSet
    exact literal .charSet ']' (by decide) (.inr rfl) fun cs => by simp [munch, Text.isBlank]
  by_cases isBrace : c = '{'
  · subst isBrace
    exact cutAlike_action r
  cases letter : c.isAlpha with
  | true => exact cutAlike_name r letter
  | false =>
    cases digit : c.isDigit with
    | true => exact cutAlike_int r digit
    | false => exact cutAlike_short r solid isLine isBlock isString isSet isBrace letter digit

end Munch

/-! ### Texts -/

/-- A token of a text that ends at `stop` and the token that is read in its place from the formatted
text. -/
structure Reformatted (o : FormatOptions) (stop : Nat) (t t' : Token) : Prop where
  /-- It is of the same kind. -/
  kind : t'.kind = t.kind
  /-- It is spelled the same up to white space. -/
  spelled : solid t'.text.toList = solid t.text.toList
  /-- Only actions and literals, closed or not, have white space that may change. -/
  plain : t.kind ∉ [.action, .stringLiteral, .charSet, .error] → t'.text = t.text
  /-- And that of a literal does not, if it has no tab to expand, no blank at its end to leave out,
  and no backslash that takes the newline at the end of the text. -/
  kept : t.kind ≠ .action → Unspaced o t.text.toList →
    (o.insertFinalNewline = true → t.span.stop = stop → escapes t.text.toList.tail = false) →
      t'.text = t.text

section Texts

variable {o : FormatOptions} {opensBlock : Bool}

theorem Recut.reformatted {kind : TokenKind} {mid rest mid' rest' : List Char}
    (recut : Recut o (.token kind) mid rest mid' rest') (c : Char) (offset offset' : Nat) :
    Reformatted o (offset + (mid.length + 1) + rest.length)
      ⟨kind, String.ofList (c :: mid), ⟨offset, offset + (mid.length + 1)⟩⟩
      ⟨kind, String.ofList (c :: mid'), ⟨offset', offset' + (mid'.length + 1)⟩⟩ where
  kind := rfl
  spelled := by
    rw [String.toList_ofList, String.toList_ofList, solid_cons, recut.spelled, ← solid_cons]
  plain other := by
    rw [recut.plain]
    simpa [spaced] using other
  kept other unspaced ends := by
    rw [String.toList_ofList] at unspaced ends
    rw [recut.kept nofun (fun action => other (Lexeme.token.inj action)) unspaced.tail]
    rintro adds rfl
    exact ends adds rfl

/-- A brace behind the piece is read the same. -/
theorem Recut.opensBlock_eq {lexeme : Lexeme} {mid rest mid' rest' : List Char}
    (recut : Recut o lexeme mid rest mid' rest') {c : Char} {before : Bool} :
    Bit.opensBlock before [(lexeme, String.ofList (c :: mid'))] =
      Bit.opensBlock before [(lexeme, String.ofList (c :: mid))] := by
  cases lexeme with
  | blank => rfl
  | comment => rfl
  | token kind =>
    by_cases keyword : kind = .keyword
    · subst keyword
      rw [recut.plain (by decide)]
    · have other : (kind == .keyword) = false := beq_false_of_ne keyword
      simp [Bit.opensBlock, Piece.opensBlock, other]

/-- Where blanks are left out, no literal that its line does not close has a backslash that takes
the first of the blanks at the end of that line. -/
def TidyLiterals (o : FormatOptions) (bits : List Bit) : Prop :=
  o.trimTrailingWhitespace = true → ∀ front b back, bits = front ++ b :: back →
    b.1 = .token .error → (Bit.chars back).head? = some '\n' →
      escapes (dropTrailing isPadding b.2.toList.tail) = false

theorem TidyLiterals.tail {b : Bit} {bits : List Bit} (tidy : TidyLiterals o (b :: bits)) :
    TidyLiterals o bits := fun trims front b' back split =>
  tidy trims (b :: front) b' back (by rw [split, List.cons_append])

theorem cut_blank {c : Char} (blank : isBlank c = true) (cs : List Char) :
    cut opensBlock (c :: cs) = (.blank, String.ofList [c]) :: cut opensBlock cs :=
  @cut_of_munch opensBlock c [] cs .blank (by rw [munch, if_pos blank]; rfl)

theorem tokens_blank {c : Char} (blank : isBlank c = true) (offset : Nat) (cs : List Char) :
    Bit.tokens offset (cut opensBlock (c :: cs)) = Bit.tokens (offset + 1) (cut opensBlock cs) := by
  rw [cut_blank blank, Bit.tokens, Bit.placed, List.filterMap_cons_none rfl, String.length_ofList]
  rfl

/-- A piece is a token or is not, and the tokens behind it are those of what is left. -/
theorem tokens_piece {c : Char} {mid rest : List Char} {lexeme : Lexeme}
    (found : munch opensBlock c (mid ++ rest) = (lexeme, mid.length)) (offset : Nat) :
    Bit.tokens offset (cut opensBlock (c :: (mid ++ rest))) =
      (Piece.token? ⟨lexeme, String.ofList (c :: mid),
        ⟨offset, offset + (mid.length + 1)⟩⟩).toList ++
      Bit.tokens (offset + (mid.length + 1))
        (cut (Bit.opensBlock opensBlock [(lexeme, String.ofList (c :: mid))]) rest) := by
  rw [← List.cons_append, cut_of_munch found, Bit.tokens, Bit.placed, Cursor.filterMap_cons_toList,
    String.length_ofList, List.length_cons, Bit.tokens]

theorem tokens_spaces (n offset : Nat) (cs : List Char) :
    Bit.tokens offset (cut opensBlock (List.replicate n ' ' ++ cs)) =
      Bit.tokens (offset + n) (cut opensBlock cs) := by
  induction n generalizing offset with
  | zero => rfl
  | succ n ih =>
    rw [List.replicate_succ, List.cons_append, tokens_blank (by decide), ih, Nat.add_assoc,
      Nat.add_comm 1]

/-- What is read of two texts that differ in white space are the same tokens, up to white space. -/
theorem tokens_respaced {cs cs' : List Char} (r : Respaced o cs cs')
    (tidy : TidyLiterals o (cut opensBlock cs)) (offset offset' : Nat) :
    List.Forall₂ (Reformatted o (offset + cs.length)) (Bit.tokens offset (cut opensBlock cs))
      (Bit.tokens offset' (cut opensBlock cs')) := by
  induction size : cs.length using Nat.strong_induction_on
    generalizing opensBlock cs cs' offset offset' with
  | _ size' ih =>
    -- Behind a blank the end of the text is the same.
    have skip : ∀ {b ds ds' offset'}, isBlank b = true → cs = b :: ds → Respaced o ds ds' →
        List.Forall₂ (Reformatted o (offset + size')) (Bit.tokens offset (cut opensBlock cs))
          (Bit.tokens offset' (cut opensBlock ds')) := by
      rintro b ds ds' offset' blank rfl behind
      rw [cut_blank blank] at tidy
      rw [tokens_blank blank]
      have later := ih ds.length (by rw [← size]; simp) behind tidy.tail (offset + 1) offset' rfl
      rwa [← size, List.length_cons, Nat.add_comm ds.length, ← Nat.add_assoc]
    cases r with
    | done => rw [cut_nil]; exact .nil
    | ended adds => rw [cut_nil, tokens_blank (by decide), cut_nil]; exact .nil
    | tab width some_ behind =>
      rw [tokens_spaces]
      exact skip (by decide) rfl behind
    | trim trims blank inLine behind ends => exact skip blank rfl behind
    | @keep c ds ds' behind =>
      cases blank : isBlank c with
      | true =>
        rw [tokens_blank blank offset']
        exact skip blank rfl behind
      | false =>
        rw [List.length_cons] at size
        obtain ⟨lexeme, mid, rest, mid', rest', rfl, rfl, here, there, recut⟩ :
            CutAlike o opensBlock c ds ds' := by
          refine cutAlike behind blank fun mid rest split found trims line => ?_
          subst split
          have piece := tidy trims [] _ _ (cut_of_munch found) rfl
          rw [chars_cut, String.toList_ofList] at piece
          exact piece line
        have tidy' := tidy
        rw [← List.cons_append, cut_of_munch here] at tidy'
        have later := ih rest.length (by rw [List.length_append] at size; omega) recut.behind
          tidy'.tail (offset + (mid.length + 1)) (offset' + (mid'.length + 1)) rfl
        have stop : offset + size' = offset + (mid.length + 1) + rest.length := by
          rw [← size, List.length_append]
          omega
        rw [tokens_piece here, tokens_piece there, recut.opensBlock_eq, stop]
        cases lexeme with
        | blank => exact later
        | comment => exact later
        | token kind => exact .cons (recut.reformatted c offset offset') later

end Texts

theorem tokens_eq (text : String) : (tokenize text).1 = Bit.tokens 0 (cut false text.toList) := by
  rw [tokenize, pieces, piecesFrom_eq_placed, Bit.tokens]

/-- The literals of a text are tidy if the tokens are. -/
theorem tidyLiterals_cut {o : FormatOptions} {text : String}
    (tidy : o.trimTrailingWhitespace = true → ∀ t ∈ (tokenize text).1, t.kind = .error →
      text.toList[t.span.stop]? = some '\n' →
        escapes (dropTrailing isPadding t.text.toList.tail) = false) :
    TidyLiterals o (cut false text.toList) := by
  rintro trims front ⟨lexeme, held⟩ back split rfl line
  have whole := chars_cut false text.toList
  rw [split, Bit.chars_append, Bit.chars_cons, ← List.append_assoc] at whole
  refine tidy trims ⟨.error, held, ⟨(Bit.chars front).length,
    (Bit.chars front).length + held.length⟩⟩ ?_ rfl ?_
  · rw [tokens_eq, split, Bit.tokens_append, Nat.zero_add]
    exact List.mem_append_right _ (by simp [Bit.tokens, Bit.placed, Piece.token?])
  · rw [← whole, List.getElem?_append_right (by simp [String.length_toList])]
    rw [← line, List.head?_eq_getElem?]
    simp [String.length_toList]

/-- Formatting leaves the tokens of a text what they are, if none of the blanks that it leaves out
behind an open literal is taken by a backslash: they are of the same kinds, and their texts are the
same but for white space in actions and literals. -/
theorem tokens_text (o : FormatOptions) (text : String)
    (tidy : o.trimTrailingWhitespace = true → ∀ t ∈ (tokenize text).1, t.kind = .error →
      text.toList[t.span.stop]? = some '\n' →
        escapes (dropTrailing isPadding t.text.toList.tail) = false) :
    List.Forall₂ (Reformatted o text.length) (tokenize text).1
      (tokenize (Format.text o text)).1 := by
  have read := tokens_respaced (respaced_chars o text.toList) (tidyLiterals_cut tidy) 0 0
  rw [Nat.zero_add, String.length_toList] at read
  rw [tokens_eq, tokens_eq, Format.text, String.toList_ofList]
  exact read

/-- With blanks behind an open literal that has an escaped blank in it, and behind one that goes on
over an escaped newline. -/
theorem tokens_text_open :
    (∀ t ∈ (tokenize "A :\t'b' ;  \nB : 'c\\ d \t\n; C : 'e\\\n  \n;").1, t.kind = .error →
      "A :\t'b' ;  \nB : 'c\\ d \t\n; C : 'e\\\n  \n;".toList[t.span.stop]? = some '\n' →
        escapes (dropTrailing isPadding t.text.toList.tail) = false) ∧
    List.Forall₂ (Reformatted {} "A :\t'b' ;  \nB : 'c\\ d \t\n; C : 'e\\\n  \n;".length)
      (tokenize "A :\t'b' ;  \nB : 'c\\ d \t\n; C : 'e\\\n  \n;").1
      (tokenize (text {} "A :\t'b' ;  \nB : 'c\\ d \t\n; C : 'e\\\n  \n;")).1 := by
  have tidy : ∀ t ∈ (tokenize "A :\t'b' ;  \nB : 'c\\ d \t\n; C : 'e\\\n  \n;").1, t.kind = .error →
      "A :\t'b' ;  \nB : 'c\\ d \t\n; C : 'e\\\n  \n;".toList[t.span.stop]? = some '\n' →
        escapes (dropTrailing isPadding t.text.toList.tail) = false := by
    decide +kernel
  exact ⟨tidy, tokens_text {} _ fun _ => tidy⟩

/-- A literal with a tab in it is no more what it was, and a backslash in front of blanks that are
left out makes an open literal go on with the next line. -/
theorem tokens_text_changed :
    ((∀ t ∈ (tokenize "A : '\t' ;").1, t.kind ≠ .action) ∧
      (tokenize (text {} "A : '\t' ;")).1.map (·.text) ≠ (tokenize "A : '\t' ;").1.map (·.text)) ∧
    (tokenize (text {} "A : 'a\\ \n' ;")).1.map (·.kind) ≠
      (tokenize "A : 'a\\ \n' ;").1.map (·.kind) := by
  decide +kernel

end GrammarIndex.Format

import GrammarIndex.Proofs.Grammar.Bare
import GrammarIndex.Proofs.Grammar.Respelled

/-!
Stretches of text that are cut the same wherever they stand.

Where a piece ends is told from the first character behind it. So a stretch that a text is cut into
is cut the same in front of any text that starts alike, and a stretch that starts with a name and
ends with a semicolon is cut the same anywhere.
-/
namespace GrammarIndex.Grammar

/-- What a piece is and its text, without its place. -/
abbrev Bit := Lexeme × String

def Piece.bare (p : Piece) : Bit := (p.lexeme, p.text)

namespace Bit

/-- The characters of a stretch. -/
def chars (bits : List Bit) : List Char := bits.flatMap (·.2.toList)

/-- Whether a brace behind a stretch opens a list of names. -/
def opensBlock (before : Bool) (bits : List Bit) : Bool :=
  bits.foldl (fun before b => (⟨b.1, b.2, ⟨0, 0⟩⟩ : Piece).opensBlock before) before

/-- The stretch as pieces, the first of which starts at `offset`. -/
def placed (offset : Nat) : List Bit → List Piece
  | [] => []
  | b :: bits => ⟨b.1, b.2, ⟨offset, offset + b.2.length⟩⟩ :: placed (offset + b.2.length) bits

/-- The token that a piece stands for, without its place. -/
def token? (b : Bit) : Option (TokenKind × String) :=
  match b.1 with
  | .token kind => some (kind, b.2)
  | _ => none

/-- The tokens of a stretch that starts at `offset`. -/
def tokens (offset : Nat) (bits : List Bit) : List Token :=
  (placed offset bits).filterMap Piece.token?

@[simp] theorem chars_nil : chars [] = [] := rfl

@[simp] theorem chars_cons (b : Bit) (bits : List Bit) :
    chars (b :: bits) = b.2.toList ++ chars bits := rfl

@[simp] theorem chars_append (bits bits' : List Bit) :
    chars (bits ++ bits') = chars bits ++ chars bits' := List.flatMap_append

theorem placed_append (offset : Nat) (bits bits' : List Bit) :
    placed offset (bits ++ bits') =
      placed offset bits ++ placed (offset + (chars bits).length) bits' := by
  induction bits generalizing offset with
  | nil => rfl
  | cons b bits ih =>
    rw [List.cons_append, placed, ih, placed, chars_cons, List.length_append, String.length_toList,
      Nat.add_assoc, List.cons_append]

theorem tokens_append (offset : Nat) (bits bits' : List Bit) :
    tokens offset (bits ++ bits') =
      tokens offset bits ++ tokens (offset + (chars bits).length) bits' := by
  rw [tokens, placed_append, List.filterMap_append, tokens, tokens]

/-- Without their places the tokens do not hang on where the stretch starts. -/
theorem map_bare_tokens (offset : Nat) (bits : List Bit) :
    (tokens offset bits).map Token.bare = bits.filterMap token? := by
  induction bits generalizing offset with
  | nil => rfl
  | cons b bits ih =>
    obtain ⟨lexeme, text⟩ := b
    have rest := ih (offset + text.length)
    rw [tokens, placed, List.filterMap_cons, List.filterMap_cons]
    cases lexeme with
    | blank => exact rest
    | comment => exact rest
    | token kind => exact congrArg ((kind, text) :: ·) rest

theorem eq_of_token? {b : Bit} {t : TokenKind × String} (token : token? b = some t) :
    b = (.token t.1, t.2) := by
  unfold token? at token
  split at token
  · next kind lexeme =>
    cases token
    exact Prod.ext lexeme rfl
  · cases token

end Bit

open Bit

/-- The pieces of a stretch of text without their places. -/
def cut (opensBlock : Bool) (cs : List Char) : List Bit :=
  (piecesFrom 0 opensBlock cs).map Piece.bare

/-! ### Cutting -/

@[simp] theorem cut_nil (opensBlock : Bool) : cut opensBlock [] = [] := by simp [cut, piecesFrom]

/-- Where a text starts does not matter for how it is cut. -/
theorem bare_piecesFrom (offset : Nat) (opensBlock : Bool) (cs : List Char) :
    (piecesFrom offset opensBlock cs).map Piece.bare = cut opensBlock cs := by
  rw [cut]
  generalize 0 = offset'
  induction size : cs.length using Nat.strong_induction_on
    generalizing offset offset' opensBlock cs with
  | _ size' ih =>
    cases cs with
    | nil => simp [piecesFrom]
    | cons c cs =>
      obtain ⟨lexeme, mid, rest, rfl, found⟩ := exists_munch opensBlock c cs
      rw [← List.cons_append, piecesFrom_of_munch found, piecesFrom_of_munch found]
      have shorter : rest.length < size' := by
        rw [← size, List.length_cons, List.length_append]
        omega
      simp only [List.map_cons]
      exact congrArg _ (ih _ shorter _ _ rest _ rfl)

theorem cut_of_munch {opensBlock : Bool} {c : Char} {mid rest : List Char} {lexeme : Lexeme}
    (found : munch opensBlock c (mid ++ rest) = (lexeme, mid.length)) :
    cut opensBlock (c :: mid ++ rest) = (lexeme, String.ofList (c :: mid)) ::
      cut (Bit.opensBlock opensBlock [(lexeme, String.ofList (c :: mid))]) rest := by
  rw [cut, piecesFrom_of_munch found, List.map_cons, bare_piecesFrom]
  rfl

theorem piecesFrom_eq_placed (offset : Nat) (opensBlock : Bool) (cs : List Char) :
    piecesFrom offset opensBlock cs = placed offset (cut opensBlock cs) := by
  induction size : cs.length using Nat.strong_induction_on generalizing offset opensBlock cs with
  | _ size' ih =>
    cases cs with
    | nil => simp [piecesFrom, placed]
    | cons c cs =>
      obtain ⟨lexeme, mid, rest, rfl, found⟩ := exists_munch opensBlock c cs
      have shorter : rest.length < size' := by
        rw [← size, List.length_cons, List.length_append]
        omega
      have width : (String.ofList (c :: mid)).length = 1 + mid.length := by
        rw [String.length_ofList, List.length_cons, Nat.add_comm]
      rw [← List.cons_append, piecesFrom_of_munch found, cut_of_munch found, placed, width,
        ← Nat.add_assoc]
      exact congrArg _ (ih _ shorter _ _ rest rfl)

/-- The stretches that a text is cut into are cut the same in front of what starts alike. -/
theorem cut_split {opensBlock : Bool} {cs : List Char} {bits bits' : List Bit}
    (whole : cut opensBlock cs = bits ++ bits') :
    ∃ rest, cs = chars bits ++ rest ∧ bits' = cut (Bit.opensBlock opensBlock bits) rest ∧
      ∀ rest', Alike rest rest' → cut opensBlock (chars bits ++ rest') =
        bits ++ cut (Bit.opensBlock opensBlock bits) rest' := by
  induction bits generalizing opensBlock cs with
  | nil => exact ⟨cs, rfl, whole.symm, fun _ _ => rfl⟩
  | cons b bits ih =>
    cases cs with
    | nil =>
      rw [cut_nil] at whole
      cases whole
    | cons c cs =>
      obtain ⟨lexeme, mid, behind, rfl, found⟩ := exists_munch opensBlock c cs
      rw [← List.cons_append, cut_of_munch found, List.cons_append, List.cons.injEq] at whole
      obtain ⟨rfl, whole⟩ := whole
      obtain ⟨rest, rfl, later, again⟩ := ih whole
      refine ⟨rest, by simp, later, fun rest' alike => ?_⟩
      have found' := munch_alike (alike.append (chars bits)) found
      rw [chars_cons, String.toList_ofList, List.append_assoc, cut_of_munch found',
        again rest' alike]
      rfl

/-- The pieces hold all the characters. -/
theorem chars_cut (opensBlock : Bool) (cs : List Char) : chars (cut opensBlock cs) = cs := by
  obtain ⟨rest, whole, none_, _⟩ := cut_split (List.append_nil (cut opensBlock cs)).symm
  cases rest with
  | nil => rw [List.append_nil] at whole; exact whole.symm
  | cons c rest =>
    obtain ⟨lexeme, mid, rest, rfl, found⟩ := exists_munch (Bit.opensBlock opensBlock _) c rest
    rw [← List.cons_append, cut_of_munch found] at none_
    cases none_

/-- No piece is empty. -/
theorem filled_cut (opensBlock : Bool) (cs : List Char) :
    ∀ b ∈ cut opensBlock cs, 0 < b.2.length := by
  rw [cut, List.forall_mem_map]
  show ∀ p ∈ piecesFrom 0 opensBlock cs, 1 ≤ p.text.length
  fun_induction piecesFrom 0 opensBlock cs with
  | case1 => exact fun _ member => (List.not_mem_nil member).elim
  | case2 offset opensBlock c cs lexeme n _ chars piece ih =>
    refine List.forall_mem_cons.2 ⟨?_, ih⟩
    simp [piece, chars]

/-! ### Names and semicolons -/

/-- What starts with a letter is cut the same behind anything. -/
theorem cut_letter (opensBlock opensBlock' : Bool) {cs : List Char}
    (letter : cs.head?.any Char.isAlpha = true) : cut opensBlock cs = cut opensBlock' cs := by
  cases cs with
  | nil => cases letter
  | cons c cs =>
    obtain ⟨lexeme, mid, rest, rfl, found⟩ := exists_munch opensBlock c cs
    have found' := found
    rw [munch_letter opensBlock letter, ← munch_letter opensBlock' letter] at found'
    have kind : lexeme = .token (nameKind (c :: (mid ++ rest).takeWhile isNameChar)) := by
      rw [munch_letter opensBlock letter] at found
      exact (congrArg Prod.fst found).symm
    rw [← List.cons_append, cut_of_munch found, cut_of_munch found', kind]
    rfl

/-- A name starts with a letter. -/
theorem head?_of_name {opensBlock : Bool} {cs : List Char} {kind : TokenKind} {text : String}
    {bits : List Bit} (whole : cut opensBlock cs = (.token kind, text) :: bits)
    (name : isNameKind kind = true) : cs.head?.any Char.isAlpha = true := by
  cases cs with
  | nil =>
    rw [cut_nil] at whole
    cases whole
  | cons c cs =>
    obtain ⟨lexeme, mid, rest, rfl, found⟩ := exists_munch opensBlock c cs
    rw [← List.cons_append, cut_of_munch found, List.cons.injEq, Prod.mk.injEq] at whole
    exact isAlpha_of_munch ((congrArg Prod.fst found).trans whole.1.1) name

theorem eq_semi_of_singleKind {c : Char} (semi : singleKind c = .semi) : c = ';' := by
  unfold singleKind at semi
  split at semi
  all_goals first
    | rfl
    | cases semi

theorem nameKind_ne_semi (name : List Char) : nameKind name ≠ .semi := by
  unfold nameKind
  split
  · exact nofun
  · split <;> exact nofun

theorem pairKind?_ne_semi (c next : Char) : pairKind? c next ≠ some .semi := by
  unfold pairKind?
  repeat' split
  all_goals exact nofun

/-- Only the character itself is a semicolon. -/
theorem eq_semi_of_munch {opensBlock : Bool} {c : Char} {cs : List Char}
    (found : (munch opensBlock c cs).1 = .token .semi) : c = ';' := by
  revert found
  unfold munch quoted
  repeat' split
  all_goals intro found
  all_goals first
    | (cases found; done)
    | exact absurd (Lexeme.token.inj found) (nameKind_ne_semi _)
    | exact eq_semi_of_singleKind (Lexeme.token.inj found)
    | next pair =>
      obtain ⟨next, _, pair⟩ := Option.bind_eq_some_iff.1 pair
      exact absurd (Lexeme.token.inj found ▸ pair) (pairKind?_ne_semi c next)

theorem munch_semi (opensBlock : Bool) (cs : List Char) :
    munch opensBlock ';' cs = (.token .semi, 0) := by
  have none_ : cs.head?.bind (pairKind? ';') = none := by
    cases cs <;> simp [pairKind?]
  simp [munch, none_, Text.isBlank, singleKind]

theorem cut_semi (opensBlock : Bool) (rest : List Char) :
    cut opensBlock (';' :: rest) = (.token .semi, ";") :: cut false rest :=
  @cut_of_munch opensBlock ';' [] rest _ (munch_semi opensBlock rest)

/-- A stretch is cut into these pieces wherever it stands, and leaves no list of names open. -/
def CutAnywhere (bits : List Bit) : Prop :=
  ∀ opensBlock rest, cut opensBlock (chars bits ++ rest) = bits ++ cut false rest

/-- A stretch from a name to a semicolon is cut the same anywhere. -/
theorem cut_name_to_semi {opensBlock : Bool} {cs : List Char} {kind : TokenKind}
    {name semi : String} {bits bits' : List Bit} (plain : isNameKind kind = true)
    (whole : cut opensBlock cs =
      (.token kind, name) :: bits ++ (.token .semi, semi) :: bits') :
    CutAnywhere ((.token kind, name) :: bits ++ [(.token .semi, semi)]) ∧
      ∃ rest, cs = chars ((.token kind, name) :: bits ++ [(.token .semi, semi)]) ++ rest ∧
        bits' = cut false rest := by
  obtain ⟨ahead, rfl, later, again⟩ := cut_split whole
  obtain ⟨rest, rfl⟩ : ∃ rest, ahead = ';' :: rest := by
    cases ahead with
    | nil =>
      rw [cut_nil] at later
      cases later
    | cons c cs =>
      obtain ⟨lexeme, mid, rest, rfl, found⟩ := exists_munch (Bit.opensBlock opensBlock _) c cs
      rw [← List.cons_append, cut_of_munch found, List.cons.injEq, Prod.mk.injEq] at later
      rw [eq_semi_of_munch ((congrArg Prod.fst found).trans later.1.1.symm)]
      exact ⟨_, rfl⟩
  rw [cut_semi, List.cons.injEq, Prod.mk.injEq] at later
  obtain ⟨⟨_, rfl⟩, rfl⟩ := later
  refine ⟨fun before rest' => ?_, rest, by simp, rfl⟩
  -- The semicolon is all that the pieces in front of it can look at.
  have moved := again (';' :: rest') (.inl rfl)
  rw [cut_semi] at moved
  have letter := head?_of_name moved plain
  rw [cut_letter opensBlock before letter] at moved
  simpa using moved

end GrammarIndex.Grammar

import GrammarIndex.Proofs.Grammar.Cursor

/-!
How far the scanner looks ahead.

Where a piece ends is told from the first character behind it, and one letter there is as good as
another. So a piece stays what it is when the text behind it is replaced by one that starts alike.
-/
namespace GrammarIndex.Grammar

/-- Both texts are empty, start with the same character, or start with letters. -/
def Alike (cs cs' : List Char) : Prop :=
  cs.head? = cs'.head? ∨ cs.head?.any Char.isAlpha = true ∧ cs'.head?.any Char.isAlpha = true

/-- A test that takes all letters for the same. -/
def LetterBlind {α : Type} (p : Char → α) : Prop :=
  ∀ c c', c.isAlpha = true → c'.isAlpha = true → p c = p c'

namespace Alike

variable {cs cs' : List Char} (alike : Alike cs cs')

theorem refl (cs : List Char) : Alike cs cs := .inl rfl

include alike

theorem append (mid : List Char) : Alike (mid ++ cs) (mid ++ cs') := by
  cases mid with
  | nil => exact alike
  | cons c mid => exact .inl rfl

theorem head?_map {α : Type} {p : Char → α} (blind : LetterBlind p) :
    cs.head?.map p = cs'.head?.map p := by
  rcases alike with same | ⟨letter, letter'⟩
  · rw [same]
  · obtain ⟨c, first, alpha⟩ := (Option.any_eq_true _ _).1 letter
    obtain ⟨c', first', alpha'⟩ := (Option.any_eq_true _ _).1 letter'
    rw [first, first', Option.map_some, Option.map_some, blind c c' alpha alpha']

theorem eq_nil (none_ : cs = []) : cs' = [] := by
  have same := alike.head?_map (p := fun _ => ()) fun _ _ _ _ => rfl
  rw [none_] at same
  simpa using same.symm

/-- A character that is no letter comes first in both or in neither. -/
theorem head?_eq_some {d : Char} (other : d.isAlpha = false) :
    cs'.head? = some d ↔ cs.head? = some d := by
  rcases alike with same | ⟨letter, letter'⟩
  · rw [same]
  · refine ⟨fun first => ?_, fun first => ?_⟩
    · rw [first, Option.any_some, other] at letter'
      cases letter'
    · rw [first, Option.any_some, other] at letter
      cases letter

end Alike

section Behind

variable {rest rest' : List Char} (alike : Alike rest rest')

/-- What is taken ends where the test first fails. -/
theorem takeWhile_append_iff {p : Char → Bool} {mid : List Char} :
    (mid ++ rest).takeWhile p = mid ↔ (∀ c ∈ mid, p c = true) ∧ rest.head?.any p = false := by
  induction mid with
  | nil => cases rest <;> simp [List.takeWhile_cons]
  | cons c mid ih =>
    rw [List.cons_append, List.takeWhile_cons]
    cases holds : p c with
    | true => simp [holds, ih]
    | false => simp [holds]

/-- What is taken is told from its length. -/
theorem takeWhile_of_length {p : Char → Bool} {mid : List Char}
    (size : ((mid ++ rest).takeWhile p).length = mid.length) : (mid ++ rest).takeWhile p = mid := by
  have taken := List.prefix_iff_eq_take.1 (List.takeWhile_prefix p (l := mid ++ rest))
  rw [size, List.take_left] at taken
  exact taken

include alike

theorem takeWhile_alike {p : Char → Bool} (blind : LetterBlind p) {mid : List Char}
    (taken : (mid ++ rest).takeWhile p = mid) : (mid ++ rest').takeWhile p = mid := by
  obtain ⟨all, stops⟩ := takeWhile_append_iff.1 taken
  refine takeWhile_append_iff.2 ⟨all, ?_⟩
  have same := congrArg (Option.any id) (alike.head?_map blind)
  rw [Option.any_map, Option.any_map] at same
  exact same.symm.trans stops

omit alike in
theorem quotedLength_cons (close : Char) {c : Char} (plain : c ≠ '\\') (cs : List Char) :
    quotedLength close (c :: cs) =
      if c = close then (1, true)
      else if c = '\n' then (0, false)
      else ((quotedLength close cs).1 + 1, (quotedLength close cs).2) := by
  rw [quotedLength]
  · exact fun same _ => plain same
  · exact fun _ _ same _ => plain same

/-- An open literal that reaches no further stands at the end of its line. -/
theorem quotedLength_eq_zero {close : Char} (inLine : close ≠ '\n') {closed : Bool}
    (reaches : quotedLength close rest = (0, closed)) :
    quotedLength close rest' = (0, closed) := by
  cases rest with
  | nil => rwa [alike.eq_nil rfl]
  | cons c cs =>
    by_cases escape : c = '\\'
    · subst escape
      cases cs <;> simp [quotedLength] at reaches
    · rw [quotedLength_cons close escape] at reaches
      have line : c = '\n' := by
        split at reaches
        · cases reaches
        · split at reaches
          · assumption
          · cases reaches
      subst line
      have first := (alike.head?_eq_some (d := '\n') (by decide)).2 rfl
      obtain ⟨cs', rfl⟩ := List.head?_eq_some_iff.1 first
      rw [← reaches, quotedLength_cons close (by decide), if_neg inLine.symm, if_neg inLine.symm]
      rfl

theorem quotedLength_alike {close : Char} (inLine : close ≠ '\n') {mid : List Char} {closed : Bool}
    (reaches : quotedLength close (mid ++ rest) = (mid.length, closed)) :
    quotedLength close (mid ++ rest') = (mid.length, closed) := by
  fun_induction quotedLength close mid generalizing closed with
  | case1 => exact quotedLength_eq_zero alike inLine reaches
  | case2 =>
    cases rest with
    | nil => rwa [alike.eq_nil rfl]
    | cons c cs => simp [quotedLength] at reaches
  | case3 c cs n ended inner ih =>
    simp only [List.cons_append, quotedLength, List.length_cons, Prod.mk.injEq] at reaches ⊢
    have inside : quotedLength close (cs ++ rest) = (cs.length, closed) :=
      Prod.ext (by simp only; omega) reaches.2
    simp [ih inside]
  | case4 cs lone pair =>
    rw [List.cons_append, quotedLength_cons close (Cursor.ne_backslash lone pair), if_pos rfl]
      at reaches ⊢
    exact reaches
  | case5 cs lone pair other =>
    rw [List.cons_append, quotedLength_cons close (by decide), if_neg other, if_pos rfl] at reaches
    cases reaches
  | case6 c cs lone pair other line n ended inner ih =>
    rw [List.cons_append, quotedLength_cons close (Cursor.ne_backslash lone pair), if_neg other,
      if_neg line, List.length_cons, Prod.mk.injEq] at reaches ⊢
    have inside : quotedLength close (cs ++ rest) = (cs.length, closed) :=
      Prod.ext (by simp only; omega) reaches.2
    simp [ih inside]

omit alike in
theorem blockCommentLength_cons (c : Char) (cs : List Char) :
    blockCommentLength (c :: cs) =
      if c = '*' ∧ cs.head? = some '/' then 2 else blockCommentLength cs + 1 := by
  split
  · next closes =>
    obtain ⟨rfl, first⟩ := closes
    obtain ⟨cs, rfl⟩ := List.head?_eq_some_iff.1 first
    rfl
  · next open_ =>
    rw [blockCommentLength]
    rintro cs' rfl rfl
    exact open_ ⟨rfl, rfl⟩

theorem blockCommentLength_alike {mid : List Char}
    (reaches : blockCommentLength (mid ++ rest) = mid.length) :
    blockCommentLength (mid ++ rest') = mid.length := by
  fun_induction blockCommentLength mid with
  | case1 =>
    cases rest with
    | nil => rw [alike.eq_nil rfl]; rfl
    | cons c cs =>
      rw [List.nil_append, blockCommentLength_cons] at reaches
      split at reaches <;> cases reaches
  | case2 => exact reaches
  | case3 c cs open_ ih =>
    have slash := (alike.append cs).head?_eq_some (d := '/') (by decide)
    rw [List.cons_append, blockCommentLength_cons, List.length_cons] at reaches ⊢
    have away : ¬(c = '*' ∧ (cs ++ rest).head? = some '/') := by
      rintro ⟨rfl, first⟩
      rw [if_pos ⟨rfl, first⟩] at reaches
      obtain ⟨d, rfl⟩ := List.length_eq_one_iff.1 (Nat.succ.inj reaches).symm
      cases first
      exact open_ [] rfl rfl
    rw [if_neg away] at reaches
    rw [if_neg fun closes => away ⟨closes.1, slash.1 closes.2⟩, ih (Nat.succ.inj reaches)]

omit alike in
theorem actionLength_cons (depth : Nat) {c : Char} (plain : c ≠ '\\') (cs : List Char) :
    actionLength depth (c :: cs) =
      if c = '{' then actionLength (depth + 1) cs + 1
      else if c = '}' then
        match depth with
        | 0 => 1
        | depth + 1 => actionLength depth cs + 1
      else actionLength depth cs + 1 := by
  rw [actionLength.eq_def]
  split
  · contradiction
  · next same =>
    cases same
    exact absurd rfl plain
  · next same =>
    cases same
    exact absurd rfl plain
  · next same =>
    cases same
    rfl

theorem actionLength_alike {depth : Nat} {mid : List Char}
    (reaches : actionLength depth (mid ++ rest) = mid.length) :
    actionLength depth (mid ++ rest') = mid.length := by
  fun_induction actionLength depth mid with
  | case1 depth =>
    cases rest with
    | nil => rw [alike.eq_nil rfl]; simp [actionLength]
    | cons c cs =>
      by_cases escape : c = '\\'
      · subst escape
        cases cs <;> simp [actionLength] at reaches
      · rw [List.nil_append, actionLength_cons depth escape] at reaches
        split at reaches
        · cases reaches
        · split at reaches
          · split at reaches <;> cases reaches
          · cases reaches
  | case2 depth =>
    cases rest with
    | nil => rwa [alike.eq_nil rfl]
    | cons c cs => simp [actionLength] at reaches
  | case3 depth skipped cs ih =>
    simp only [List.cons_append, actionLength, List.length_cons] at reaches ⊢
    rw [ih (by omega)]
  | case4 depth cs lone pair ih =>
    rw [List.cons_append, actionLength_cons depth (by decide), if_pos rfl] at reaches ⊢
    rw [ih (Nat.succ.inj reaches)]
    rfl
  | case5 cs lone pair other =>
    rw [List.cons_append, actionLength_cons 0 (by decide), if_neg other, if_pos rfl] at reaches ⊢
    exact reaches
  | case6 cs depth lone pair other ih =>
    rw [List.cons_append, actionLength_cons _ (by decide), if_neg other, if_pos rfl] at reaches ⊢
    simp only [List.length_cons] at reaches ⊢
    rw [ih (Nat.succ.inj reaches)]
  | case7 depth c cs lone pair notOpening notClosing ih =>
    rw [List.cons_append, actionLength_cons depth (Cursor.ne_backslash lone pair), if_neg notOpening,
      if_neg notClosing, List.length_cons] at reaches ⊢
    rw [ih (Nat.succ.inj reaches)]

omit alike in
theorem letterBlind_of_false {p : Char → Bool} (none_ : ∀ c, c.isAlpha = true → p c = false) :
    LetterBlind p := fun c c' letter letter' => by rw [none_ c letter, none_ c' letter']

omit alike in
theorem letterBlind_of_true {p : Char → Bool} (all : ∀ c, c.isAlpha = true → p c = true) :
    LetterBlind p := fun c c' letter letter' => by rw [all c letter, all c' letter']

omit alike in
/-- The codes of letters. -/
theorem toNat_of_isAlpha {c : Char} (letter : c.isAlpha = true) :
    65 ≤ c.toNat ∧ c.toNat ≤ 90 ∨ 97 ≤ c.toNat ∧ c.toNat ≤ 122 := by
  have code : (decide (c.val ≥ 65 ∧ c.val ≤ 90) ||
      decide (c.val ≥ 97) && decide (c.val ≤ 122)) = true := letter
  simpa [UInt32.le_iff_toNat_le] using code

omit alike in
theorem isDigit_of_isAlpha {c : Char} (letter : c.isAlpha = true) : c.isDigit = false := by
  have code := toNat_of_isAlpha letter
  by_contra digit
  simp only [Char.isDigit, Bool.and_eq_true, decide_eq_true_eq, UInt32.le_iff_toNat_le,
    Bool.not_eq_false] at digit
  simp at digit
  omega

omit alike in
/-- No pair has a letter in it. -/
theorem letterBlind_pairKind? (c : Char) : LetterBlind (pairKind? c) := by
  have none_ : ∀ d : Char, d.isAlpha = true → pairKind? c d = none := by
    intro d letter
    have other : ∀ e : Char, e.isAlpha = false → d ≠ e := by
      rintro e away rfl
      rw [letter] at away
      cases away
    simp [pairKind?, other '=' (by decide), other '>' (by decide), other '.' (by decide)]
  exact fun d d' letter letter' => by rw [none_ d letter, none_ d' letter']

omit alike in
theorem ite_eq_of {α : Type} {C : Prop} [Decidable C] {a b a' b' v : α} (yes : C → a = v → a' = v)
    (no : ¬C → b = v → b' = v) : (if C then a else b) = v → (if C then a' else b') = v := by
  intro h
  split at h
  · next holds => rw [if_pos holds, yes holds h]
  · next fails => rw [if_neg fails, no fails h]

/-- What a piece is and where it ends is told from the first character behind it. -/
theorem munch_alike {opensBlock : Bool} {c : Char} {mid : List Char} {lexeme : Lexeme}
    (found : munch opensBlock c (mid ++ rest) = (lexeme, mid.length)) :
    munch opensBlock c (mid ++ rest') = (lexeme, mid.length) := by
  have whole := alike.append mid
  have slash : decide ((mid ++ rest').head? = some '/') = decide ((mid ++ rest).head? = some '/') :=
    decide_eq_decide.2 (whole.head?_eq_some (by decide))
  have star : decide ((mid ++ rest').head? = some '*') = decide ((mid ++ rest).head? = some '*') :=
    decide_eq_decide.2 (whole.head?_eq_some (by decide))
  have pair : (mid ++ rest').head?.bind (pairKind? c) = (mid ++ rest).head?.bind (pairKind? c) := by
    have same := congrArg (Option.bind · id) (whole.head?_map (letterBlind_pairKind? c))
    simp only [Option.bind_map] at same
    exact same.symm
  have literal : ∀ kind {close}, close ≠ '\n' →
      quoted kind close (mid ++ rest) = (lexeme, mid.length) →
      quoted kind close (mid ++ rest') = (lexeme, mid.length) := by
    intro kind close inLine reaches
    have same : quotedLength close (mid ++ rest) =
        (mid.length, (quotedLength close (mid ++ rest)).2) := Prod.ext (congrArg Prod.snd reaches) rfl
    rw [quoted, quotedLength_alike alike inLine same]
    rw [quoted, same] at reaches
    exact reaches
  have run : ∀ {p : Char → Bool} (kind : List Char → Lexeme), LetterBlind p →
      (kind ((mid ++ rest).takeWhile p), ((mid ++ rest).takeWhile p).length) =
        (lexeme, mid.length) →
      (kind ((mid ++ rest').takeWhile p), ((mid ++ rest').takeWhile p).length) =
        (lexeme, mid.length) := by
    intro p kind blind taken
    have all := takeWhile_of_length (congrArg Prod.snd taken)
    rw [takeWhile_alike alike blind all]
    rw [all] at taken
    exact taken
  unfold munch at found ⊢
  rw [slash, star, pair]
  revert found
  refine ite_eq_of (fun _ => id) fun _ => ite_eq_of (fun _ taken => ?_) fun _ =>
    ite_eq_of (fun _ taken => ?_) fun _ =>
    ite_eq_of (fun _ => literal .stringLiteral (by decide)) fun _ =>
    ite_eq_of (fun _ => literal .charSet (by decide)) fun _ =>
    ite_eq_of (fun _ => ite_eq_of (fun _ => id) fun _ taken => ?_) fun _ =>
    ite_eq_of (fun _ taken => ?_) fun _ =>
    ite_eq_of (fun _ taken => ?_) fun _ => id
  · exact run (fun _ => .comment) (letterBlind_of_true fun c letter => by
      rw [bne_iff_ne]
      rintro rfl
      cases letter) taken
  · obtain ⟨comment, reaches⟩ := Prod.mk.inj taken
    cases mid with
    | nil => cases reaches
    | cons d mid =>
      rw [← comment]
      exact Prod.ext rfl (congrArg (· + 1) (blockCommentLength_alike alike (Nat.succ.inj reaches)))
  · obtain ⟨action, reaches⟩ := Prod.mk.inj taken
    rw [← action, actionLength_alike alike reaches]
  · exact run (fun tail => .token (nameKind (c :: tail))) (letterBlind_of_true fun c letter => by
      rw [isNameChar, Char.isAlphanum, letter]
      rfl) taken
  · exact run (fun _ => .token .int) (letterBlind_of_false fun c => isDigit_of_isAlpha) taken

end Behind

end GrammarIndex.Grammar

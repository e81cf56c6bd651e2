import GrammarIndex.Proofs.Grammar.Reclassified

/-!
Names by rule and names by cut.

What may be a name of a class is told twice: by a rule on the characters and by the way in which a
text is cut. Both say the same: a text is a valid name if and only if it is one token from its first
character to its last, of a kind that the class allows, with no comment beside it.
-/
namespace GrammarIndex.Grammar

/-- The kinds of token that may stand for a name of a class. -/
def nameKinds : Classification → List TokenKind
  | .nonterminal => [.ruleRef]
  | .terminal => [.tokenRef]
  | _ => [.ruleRef, .tokenRef]

theorem isNameKind_of_mem {c : Classification} {kind : TokenKind} (allowed : kind ∈ nameKinds c) :
    isNameKind kind = true := by
  cases c <;> simp only [nameKinds, List.mem_cons, List.not_mem_nil, or_false] at allowed <;>
    rcases allowed with rfl | rfl <;> rfl

/-- A letter is either small or a capital. -/
theorem isLower_eq_not_isUpper {a : Char} (letter : a.isAlpha = true) : a.isLower = !a.isUpper := by
  have either : (a.isUpper || a.isLower) = true := letter
  cases capital : a.isUpper with
  | false => simpa [capital] using either
  | true =>
    have upper : a.val ≤ 90 :=
      (of_decide_eq_true (show decide (a.val ≥ 65 ∧ a.val ≤ 90) = true from capital)).2
    refine Bool.eq_false_iff.2 fun small => ?_
    have lower : 97 ≤ a.val := of_decide_eq_true (Bool.and_eq_true_iff.1
      (show (decide (a.val ≥ 97) && decide (a.val ≤ 122)) = true from small)).1
    exact absurd (UInt32.le_trans lower upper) (by decide)

/-- The kind of a word that starts with a letter is one that a class allows if the word is not
reserved and the class allows the letter. -/
theorem nameKind_mem_nameKinds {a : Char} (letter : a.isAlpha = true) (cs : List Char)
    (c : Classification) : nameKind (a :: cs) ∈ nameKinds c ↔
      keywords.contains (String.ofList (a :: cs)) = false ∧ firstLetter c a = true := by
  unfold nameKind
  cases reserved : keywords.contains (String.ofList (a :: cs)) with
  | true =>
    cases c <;> simp [nameKinds]
  | false =>
    cases capital : a.isUpper <;> cases c <;>
      simp [nameKinds, firstLetter, isLower_eq_not_isUpper letter, capital, letter]

/-- A text is a valid name of a class if it is a word whose kind the class allows. -/
theorem validateName_iff_word (c : Classification) (name : String) :
    validateName c name = .ok () ↔
      isNameWith Char.isAlpha name.toList = true ∧ nameKind name.toList ∈ nameKinds c := by
  rw [validateName_eq_ok]
  cases letters : name.toList with
  | nil => exact iff_of_false (fun both => Bool.false_ne_true both.2) fun both =>
      Bool.false_ne_true both.1
  | cons a cs =>
    have spelled : String.ofList (a :: cs) = name := by rw [← letters, String.ofList_toList]
    simp only [isNameWith, Bool.and_eq_true]
    constructor
    · rintro ⟨free, first, rest⟩
      have letter := isAlpha_of_firstLetter first
      rw [nameKind_mem_nameKinds letter, spelled]
      exact ⟨⟨letter, rest⟩, free, first⟩
    · rintro ⟨⟨letter, rest⟩, allowed⟩
      rw [nameKind_mem_nameKinds letter, spelled] at allowed
      exact ⟨allowed.1, allowed.2, rest⟩

/-- A text is a valid name of a class if and only if it is cut into a single token that takes up all
of it, of a kind that the class allows, and into no comment. -/
theorem validateName_iff_token (c : Classification) (name : String) :
    dialect.validateName c name = .ok () ↔
      ∃ t : Token, tokenize name = ([t], []) ∧ t.span = ⟨0, name.length⟩ ∧
        t.kind ∈ nameKinds c := by
  show validateName c name = .ok () ↔ _
  rw [validateName_iff_word]
  constructor
  · rintro ⟨word, allowed⟩
    exact ⟨_, tokenize_name word, rfl, allowed⟩
  · rintro ⟨t, cut, whole, allowed⟩
    have member : t ∈ (tokenize name).1 := by simp [cut]
    have held : t.text = name := by
      rw [← String.toList_inj, (stretch_token member).2, whole, stretch, ← String.length_toList,
        List.take_length, List.drop_zero]
    obtain ⟨word, kind⟩ := name_of_token member (isNameKind_of_mem allowed)
    rw [held] at word kind
    exact ⟨word, kind.symm ▸ allowed⟩

end GrammarIndex.Grammar

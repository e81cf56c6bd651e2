import GrammarIndex.Proofs.Refactoring.Filled

/-!
What stands outside the parser rules.

The outline of a text holds its tokens, comments and blanks outside the parser rules, and marks
where the rules stand. For gaps and rules in turns it consists of the gaps, so it does not hang on
what the rules are.
-/
namespace GrammarIndex.SortRules

open Grammar (Piece GapText RuleText Weave Bit parse pieces)
open Grammar.Bit (chars placed)

/-- What a piece of a text with its rules in these places adds to the outline: itself if it stands
outside, a mark if a rule starts with it, nothing if it stands inside a rule. -/
def mark (places : List Slot) (p : Piece) : Option (Option Bit) :=
  if places.any fun s => s.span.start == p.span.start then some none
  else if places.any fun s => s.span.covers p.span.start then none
  else some (some p.bare)

/-- The tokens, comments and blanks outside the parser rules, with a mark for each rule. -/
def outline (text : String) : List (Option Bit) :=
  (pieces text).filterMap (mark (slots (parse text).tree))

variable {places : List Slot} {p : Piece}

theorem mark_outside (outside : ∀ s ∈ places, p.span.start < s.span.start ∨
    s.span.start < p.span.start ∧ s.span.stop ≤ p.span.start) :
    mark places p = some (some p.bare) := by
  have starts : (places.any fun s => s.span.start == p.span.start) = false := by
    refine List.any_eq_false.2 fun s member => ?_
    have := outside s member
    simp only [beq_iff_eq]
    omega
  have covers : (places.any fun s => s.span.covers p.span.start) = false := by
    refine List.any_eq_false.2 fun s member => ?_
    have := outside s member
    simp only [Span.covers, Bool.and_eq_true, decide_eq_true_eq]
    omega
  rw [mark, starts, covers]
  rfl

theorem mark_first {s : Slot} (member : s ∈ places) (starts : s.span.start = p.span.start) :
    mark places p = some none := by
  rw [mark, if_pos (List.any_eq_true.2 ⟨s, member, by rw [starts, BEq.rfl]⟩)]

theorem mark_inside {s : Slot} (member : s ∈ places) (lower : s.span.start < p.span.start)
    (upper : p.span.start < s.span.stop) (later : ∀ s ∈ places, s.span.start ≠ p.span.start) :
    mark places p = none := by
  have starts : (places.any fun s => s.span.start == p.span.start) = false :=
    List.any_eq_false.2 fun s member => by simpa using later s member
  have covers : (places.any fun s => s.span.covers p.span.start) = true :=
    List.any_eq_true.2 ⟨s, member, by simp [Span.covers, Nat.le_of_lt lower, upper]⟩
  rw [mark, starts, covers]
  rfl

/-- Pieces that are not empty stand one behind the other. -/
theorem bounds_placed {bits : List Bit} (filled : ∀ b ∈ bits, 0 < b.2.length) {offset : Nat}
    {p : Piece} (member : p ∈ placed offset bits) :
    offset ≤ p.span.start ∧ p.span.start < offset + (chars bits).length := by
  induction bits generalizing offset with
  | nil => cases member
  | cons b bits ih =>
    obtain ⟨first, rest⟩ := List.forall_mem_cons.1 filled
    rw [Bit.chars_cons, List.length_append, String.length_toList]
    rcases List.mem_cons.1 member with rfl | member
    · exact ⟨Nat.le_refl _, by simp only; omega⟩
    · have := ih rest member
      omega

theorem le_of_mem_placesFrom {offset : Nat} {entries : List (GapText × RuleText)} {s : Slot}
    (member : s ∈ Weave.placesFrom offset entries) : offset ≤ s.span.start := by
  induction entries generalizing offset with
  | nil => cases member
  | cons e entries ih =>
    obtain ⟨g, r⟩ := e
    rcases List.mem_cons.1 member with rfl | member
    · exact Nat.le_add_right _ _
    · have := ih member
      omega

/-- The gaps with a mark behind each but the last. -/
def outlineOf (gaps : List GapText) (last : GapText) : List (Option Bit) :=
  gaps.flatMap (fun g => g.bits.map some ++ [none]) ++ last.bits.map some

theorem filterMap_mark_outside {bits : List Bit} {offset : Nat}
    (outside : ∀ p ∈ placed offset bits, mark places p = some (some p.bare)) :
    (placed offset bits).filterMap (mark places) = bits.map some := by
  induction bits generalizing offset with
  | nil => rfl
  | cons b bits ih =>
    rw [placed, List.filterMap_cons, outside _ (List.mem_cons_self ..),
      ih fun p member => outside p (List.mem_cons_of_mem _ member)]
    rfl

/-- A rule adds one mark. -/
theorem filterMap_mark_rule {r : RuleText} {offset : Nat}
    (filled : ∀ b ∈ r.bits, 0 < b.2.length)
    (member : ⟨⟨offset, offset + (chars r.bits).length⟩, r.name⟩ ∈ places)
    (apart : ∀ s ∈ places, s.span.start ≤ offset ∨ offset + (chars r.bits).length ≤ s.span.start) :
    (placed offset r.bits).filterMap (mark places) = [none] := by
  obtain ⟨first, rest, spelled⟩ : ∃ first rest, r.bits = first :: rest := ⟨_, _, rfl⟩
  rw [spelled] at filled member apart ⊢
  obtain ⟨wide, others⟩ := List.forall_mem_cons.1 filled
  rw [placed, List.filterMap_cons, mark_first member rfl]
  refine congrArg _ (List.filterMap_eq_nil_iff.2 fun p inside => ?_)
  have bounds := bounds_placed others inside
  rw [Bit.chars_cons, List.length_append, String.length_toList] at member apart
  refine mark_inside member (by simp only; omega) (by simp only; omega) fun s listed => ?_
  have := apart s listed
  omega

/-- The outline of gaps and rules in turns. -/
theorem filterMap_mark_entries (before : List Slot) (entries : List (GapText × RuleText))
    (last : GapText) (offset : Nat)
    (filled : ∀ b ∈ Weave.bits ⟨entries, last⟩, 0 < b.2.length)
    (passed : ∀ s ∈ before, s.span.start < offset ∧ s.span.stop ≤ offset) :
    (placed offset (Weave.bits ⟨entries, last⟩)).filterMap
        (mark (before ++ Weave.placesFrom offset entries)) =
      outlineOf (entries.map Prod.fst) last := by
  induction entries generalizing before offset with
  | nil =>
    have whole : Weave.bits ⟨[], last⟩ = last.bits := by simp [Weave.bits]
    rw [whole] at filled ⊢
    refine filterMap_mark_outside fun p member => mark_outside fun s listed => ?_
    have bounds := bounds_placed filled member
    have := passed s (by simpa [Weave.placesFrom] using listed)
    omega
  | cons e entries ih =>
    obtain ⟨g, r⟩ := e
    let start := offset + (chars g.bits).length
    let stop := start + (chars r.bits).length
    let slot : Slot := ⟨⟨start, stop⟩, r.name⟩
    have whole : Weave.bits ⟨(g, r) :: entries, last⟩ =
        g.bits ++ (r.bits ++ Weave.bits ⟨entries, last⟩) := by simp [Weave.bits]
    rw [whole] at filled ⊢
    obtain ⟨filledGap, filled⟩ := List.forall_mem_append.1 filled
    obtain ⟨filledRule, filledRest⟩ := List.forall_mem_append.1 filled
    have wide : start < stop := by
      obtain ⟨first, rest, spelled⟩ : ∃ first rest, r.bits = first :: rest := ⟨_, _, rfl⟩
      have := filledRule first (by simp [spelled])
      simp only [stop, spelled, Bit.chars_cons, List.length_append, String.length_toList]
      omega
    have places : before ++ Weave.placesFrom offset ((g, r) :: entries) =
        before ++ slot :: Weave.placesFrom stop entries := rfl
    have each : ∀ s ∈ before ++ slot :: Weave.placesFrom stop entries,
        s.span.start < offset ∧ s.span.stop ≤ offset ∨ s = slot ∨ stop ≤ s.span.start := by
      intro s listed
      rcases List.mem_append.1 listed with listed | listed
      · exact .inl (passed s listed)
      · rcases List.mem_cons.1 listed with rfl | listed
        · exact .inr (.inl rfl)
        · exact .inr (.inr (le_of_mem_placesFrom listed))
    have gap : (placed offset g.bits).filterMap
        (mark (before ++ slot :: Weave.placesFrom stop entries)) = g.bits.map some := by
      refine filterMap_mark_outside fun p member => mark_outside fun s listed => ?_
      have bounds := bounds_placed filledGap member
      rcases each s listed with passed | rfl | later
      · omega
      · exact .inl bounds.2
      · omega
    have rule : (placed start r.bits).filterMap
        (mark (before ++ slot :: Weave.placesFrom stop entries)) = [none] := by
      refine filterMap_mark_rule filledRule (List.mem_append_right _ (List.mem_cons_self ..))
        fun s listed => ?_
      rcases each s listed with passed | rfl | later
      · omega
      · exact .inl (Nat.le_refl _)
      · exact .inr later
    have rest := ih (before ++ [slot]) stop filledRest (by
      intro s listed
      rcases List.mem_append.1 listed with listed | listed
      · have := passed s listed
        omega
      · rw [List.mem_singleton.1 listed]
        exact ⟨wide, Nat.le_refl _⟩)
    rw [List.append_assoc, List.singleton_append] at rest
    rw [places, Bit.placed_append, Bit.placed_append, List.filterMap_append, List.filterMap_append,
      gap, rule, rest]
    simp [outlineOf]

end GrammarIndex.SortRules

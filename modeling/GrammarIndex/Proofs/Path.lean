import GrammarIndex.Path
import GrammarIndex.Proofs.Text.Split

/-!
What a path means does not depend on its spelling.

The directory of a path, its file name and its extension are functions of its components. The
parent drops the last component; only the root and the empty path have none.
-/
namespace GrammarIndex

namespace Spelling

/-- The component that a text starts with when it is rooted or starts with `.`. -/
def start (text : String) : List Component :=
  if isRooted text then [.root] else if startsHere text then [.here] else []

/-- The segments that say something. -/
def steps (segments : List (List Char)) : List Component :=
  (segments.filter fun s => !isTrivial s).map stepOf

theorem components_eq (text : String) : components text = start text ++ steps (body text) := rfl

theorem clean_body (text : String) : ∀ segment ∈ body text, '/' ∉ segment := by
  intro segment member
  refine Text.clean_split text.toList segment ?_
  unfold body at member
  split at member
  · exact List.mem_of_mem_drop member
  · exact member

end Spelling

namespace Path

open Spelling

theorem components_eq (p : Path) : p.components = start p.text ++ steps p.body := by
  rw [p.spelled]
  rfl

/-- What a text spells, by its first character and its segments. -/
theorem components_ofList (cs : List Char) {segments : List (List Char)}
    (cut : Text.split '/' cs = segments) :
    Spelling.components (String.ofList cs) =
      if cs.head? = some '/' then .root :: steps (segments.drop 1)
      else if segments.head? = some ['.'] then .here :: steps (segments.drop 1)
      else steps segments := by
  subst cut
  by_cases root : cs.head? = some '/'
  · simp [Spelling.components_eq, start, Spelling.body, Spelling.isRooted, root]
  · by_cases here : (Text.split '/' cs).head? = some ['.']
    · simp [Spelling.components_eq, start, Spelling.body, Spelling.isRooted, Spelling.startsHere,
        root, here]
    · simp [Spelling.components_eq, start, Spelling.body, Spelling.isRooted, Spelling.startsHere,
        root, here]

/-- A relative path does not start with an empty segment, unless it is empty. -/
theorem head_body_ne_nil (p : Path) (relative : Spelling.isRooted p.text = false)
    (filled : p.text.toList ≠ []) : (Text.split '/' p.text.toList).head? ≠ some [] := by
  cases text : p.text.toList with
  | nil => exact absurd text filled
  | cons c cs =>
    have notSlash : c ≠ '/' := by
      rintro rfl
      simp [Spelling.isRooted, text] at relative
    rw [Text.split, if_neg notSlash]
    split <;> simp

/-- Leading segments of a relative path do not spell an absolute one. -/
theorem head?_join_ne_slash (p : Path) (relative : Spelling.isRooted p.text = false)
    {segments : List (List Char)} (front : segments <+: Text.split '/' p.text.toList) :
    (Text.join '/' segments).head? ≠ some '/' := by
  cases segments with
  | nil => simp [Text.join]
  | cons first rest =>
    obtain ⟨tail, cut⟩ := front
    have first_ : (Text.split '/' p.text.toList).head? = some first := by
      rw [← cut]
      rfl
    by_cases empty : p.text.toList = []
    · rw [empty] at cut
      simp only [Text.split, List.cons_append, List.cons.injEq, List.append_eq_nil_iff] at cut
      simp [cut.1, cut.2.1, Text.join]
    · cases first with
      | nil => exact absurd first_ (head_body_ne_nil p relative empty)
      | cons c cs =>
        have clean : '/' ∉ c :: cs :=
          Text.clean_split p.text.toList _ (List.mem_of_mem_head? first_)
        have notSlash : c ≠ '/' := fun slash => clean (by simp [slash])
        cases rest <;> simpa [Text.join] using notSlash

/-- Leading segments of a path, spelled again, start as the path does. -/
theorem components_bodyText (p : Path) {segments : List (List Char)}
    (front : segments <+: p.body) :
    Spelling.components (String.ofList (p.bodyText segments)) = start p.text ++ steps segments := by
  have clean : ∀ segment ∈ segments, '/' ∉ segment := fun segment member =>
    clean_body p.text segment (front.subset member)
  cases rooted : Spelling.isRooted p.text with
  | true =>
    have text : p.bodyText segments = '/' :: Text.join '/' segments := by
      simp [bodyText, Path.isRooted, rooted]
    rw [text, components_ofList _ rfl]
    simp only [start, rooted, List.head?_cons, if_true, Text.split, List.drop_succ_cons,
      List.drop_zero, List.cons_append, List.nil_append]
    cases segments with
    | nil => simp [Text.join, Text.split, steps, isTrivial]
    | cons first rest => rw [Text.split_join (by simp) clean]
  | false =>
    cases here : Spelling.startsHere p.text with
    | true =>
      have text : p.bodyText segments =
          Text.join '/' (['.'] :: segments) := by
        cases segments with
        | nil => simp [bodyText, Path.isRooted, Path.startsHere, rooted, here, Text.join]
        | cons first rest => simp [bodyText, Path.isRooted, Path.startsHere, rooted, here, Text.join]
      have cut : Text.split '/' (Text.join '/' (['.'] :: segments)) = ['.'] :: segments :=
        Text.split_join (by simp) (by
          intro piece member
          rcases List.mem_cons.1 member with rfl | member
          · decide
          · exact clean piece member)
      have notRoot : (Text.join '/' (['.'] :: segments)).head? ≠ some '/' := by
        cases segments <;> simp [Text.join]
      rw [text, components_ofList _ cut]
      simp [start, rooted, here, notRoot]
    | false =>
      have text : p.bodyText segments = Text.join '/' segments := by
        simp [bodyText, Path.isRooted, Path.startsHere, rooted, here]
      have whole : p.body = Text.split '/' p.text.toList := by
        simp [Path.body, Spelling.body, rooted, here]
      have notRoot := head?_join_ne_slash p rooted (whole ▸ front)
      rw [text]
      cases segments with
      | nil => simp [start, rooted, here, steps, Text.join]; decide
      | cons first rest =>
        have notHere : first ≠ ['.'] := by
          rintro rfl
          obtain ⟨tail, cut⟩ := whole ▸ front
          simp [Spelling.startsHere, rooted, ← cut] at here
        rw [components_ofList _ (Text.split_join (by simp) clean)]
        simp [start, rooted, here, notRoot, notHere]

theorem steps_dropTrailing (segments : List (List Char)) :
    steps (Text.dropTrailing isTrivial segments) = steps segments := by
  simp only [steps, Text.filter_dropTrailing]

/-- A path without steps: only one that is `.` has a parent, the empty path. -/
theorem parent?_of_no_steps {p : Path} (none_ : Text.dropTrailing isTrivial p.body = []) :
    p.components = start p.text ∧
      p.parent? = if p.startsHere then some (of "") else none := by
  constructor
  · rw [components_eq, ← steps_dropTrailing, none_]
    simp [steps]
  · simp only [parent?, none_]

/-- A path with steps: its parent has all but the last. -/
theorem parent?_of_steps {p : Path} {init : List (List Char)} {last : List Char}
    (cut : Text.dropTrailing isTrivial p.body = init ++ [last]) :
    p.components = start p.text ++ steps init ++ [stepOf last] ∧
      ∃ parent, p.parent? = some parent ∧ parent.components = start p.text ++ steps init := by
  have counts : isTrivial last = false :=
    Text.getLast_dropTrailing isTrivial p.body last (by simp [cut])
  constructor
  · rw [components_eq, ← steps_dropTrailing, cut]
    simp [steps, counts]
  · have front : Text.dropTrailing isTrivial init <+: p.body := by
      obtain ⟨tail, inner, _⟩ := Text.dropTrailing_append_takeTrailing isTrivial init
      obtain ⟨tail', outer, _⟩ := Text.dropTrailing_append_takeTrailing isTrivial p.body
      refine ⟨tail ++ [last] ++ tail', ?_⟩
      rw [cut] at outer
      rw [outer]
      conv => rhs; rw [inner]
      simp
    refine ⟨of (String.ofList (p.bodyText (Text.dropTrailing isTrivial init))), ?_, ?_⟩
    · simp only [parent?, cut]
      split
      · next none_ => simp at none_
      · rw [List.dropLast_concat]
    · show Spelling.components _ = _
      rw [components_bodyText p front, steps_dropTrailing]

/-- The components of a path's directory: all but the last, if there is a last to drop. -/
theorem components_directory (p : Path) :
    p.directory.components =
      if p.components = [] ∨ p.components = [.root] then p.components
      else p.components.dropLast := by
  rcases List.eq_nil_or_concat (Text.dropTrailing isTrivial p.body) with none_ | ⟨init, last, cut⟩
  · obtain ⟨whole, parent⟩ := parent?_of_no_steps none_
    rw [directory, parent, whole]
    have here : p.startsHere = Spelling.startsHere p.text := rfl
    rw [here, start]
    cases rooted : Spelling.isRooted p.text with
    | true =>
      have : Spelling.startsHere p.text = false := by simp [Spelling.startsHere, rooted]
      simp [this, whole, start, rooted]
    | false =>
      cases starts : Spelling.startsHere p.text with
      | true => simp; decide
      | false => simp [whole, start, rooted, starts]
  · rw [List.concat_eq_append] at cut
    obtain ⟨whole, parent, found, front⟩ := parent?_of_steps cut
    have notRoot : ¬ (p.components = [] ∨ p.components = [.root]) := by
      rw [whole]
      have : stepOf last ≠ .root := by unfold stepOf; split <;> simp
      rcases start p.text ++ steps init with _ | ⟨c, cs⟩ <;> simp [this]
    rw [if_neg notRoot, directory, found, whole, List.dropLast_concat]
    exact front

/-- Two spellings of one path lie in one directory. -/
theorem directory_congr {p q : Path} (same : p.components = q.components) :
    p.directory.components = q.directory.components := by
  rw [components_directory, components_directory, same]

/-- The file name is the last component, if that is a name. -/
theorem fileName?_eq (p : Path) :
    p.fileName? = p.components.getLast?.bind fun
      | .name text => some text.toList
      | _ => none := by
  rcases List.eq_nil_or_concat (Text.dropTrailing isTrivial p.body) with none_ | ⟨init, last, cut⟩
  · obtain ⟨whole, _⟩ := parent?_of_no_steps none_
    rw [fileName?, none_, whole, start]
    cases Spelling.isRooted p.text <;> cases Spelling.startsHere p.text <;> rfl
  · rw [List.concat_eq_append] at cut
    obtain ⟨whole, _⟩ := parent?_of_steps cut
    rw [fileName?, cut, whole]
    simp only [List.getLast?_concat, Option.bind_some, stepOf]
    split
    · rfl
    · simp

theorem fileName?_congr {p q : Path} (same : p.components = q.components) :
    p.fileName? = q.fileName? := by
  rw [fileName?_eq, fileName?_eq, same]

theorem extension?_congr {p q : Path} (same : p.components = q.components) :
    p.extension? = q.extension? := by
  rw [extension?, extension?, fileName?_congr same]

/-! ### Path order -/

theorem compare_congr {p q p' q' : Path} (left : p.components = p'.components)
    (right : q.components = q'.components) : compare p q = compare p' q' := by
  show compareOn components p q = compareOn components p' q'
  rw [compareOn, compareOn, left, right]

theorem ordered_antisymm {p q : Path} (first : compare p q ≠ .gt) (second : compare q p ≠ .gt) :
    p.components = q.components := by
  refine (compare_eq_iff p q).1 ?_
  cases order : compare p q with
  | eq => rfl
  | gt => exact absurd order first
  | lt => exact absurd (Std.OrientedCmp.gt_of_lt order) second

end Path

end GrammarIndex

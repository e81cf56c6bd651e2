import GrammarIndex.Edit
import Mathlib.Data.List.Chain

/-!
Edits in one pass and edits in a live buffer.

An editor performs edits one at a time, the last one first, so that no edit moves the place of one
still to come. For sorted edits that keep apart, one pass over the text gives the same. And for
substitutions at ranges one behind the other, it gives the text with each range replaced.
-/
namespace GrammarIndex

namespace Edit

/-- Change a buffer in place: the deleted range goes, or the new text comes in. -/
def perform (e : Edit) (buffer : List Char) : List Char :=
  match e.kind with
  | .equal => buffer
  | .delete => buffer.take e.start ++ buffer.drop e.stop
  | .insert => buffer.take e.start ++ (e.text.toList ++ buffer.drop e.start)

/-- Perform edits in a live buffer, the last one first. -/
def performAll (edits : List Edit) (buffer : List Char) : List Char := edits.foldr perform buffer

/-- Edits of a text with `size` characters, each of which ends where the next one starts or before
it. -/
structure InOrder (size : Nat) (edits : List Edit) : Prop where
  apart : edits.IsChain fun e next => e.stop ≤ next.start
  within : ∀ e ∈ edits, e.stop ≤ size

theorem start_le_stop (e : Edit) : e.start ≤ e.stop := Nat.le_add_right _ _

end Edit

/-- New text for the range of `length` characters from `start` on. -/
structure Substitution where
  start : Nat
  length : Nat
  text : String
  deriving DecidableEq, Repr

namespace Substitution

def stop (s : Substitution) : Nat := s.start + s.length

/-- The edits that bring new texts in. -/
def edits (subs : List Substitution) : List Edit :=
  subs.flatMap fun s => Edit.substitute s.start s.length s.text

/-- The text from offset `cursor` on with each range replaced: what stands before a range stays,
its new text follows. -/
def replaceFrom (text : List Char) (cursor : Nat) : List Substitution → List Char
  | [] => text.drop cursor
  | s :: subs => (text.take s.start).drop cursor ++ (s.text.toList ++ replaceFrom text s.stop subs)

end Substitution

/-! ### One pass, by offsets of the text -/

/-- Behind the end of the text only insertions have an effect, whatever the cursor is. -/
theorem applyFrom_nil (cursor cursor' : Nat) (edits : List Edit) :
    applyFrom cursor [] edits = applyFrom cursor' [] edits := by
  induction edits generalizing cursor cursor' with
  | nil => rfl
  | cons e edits ih =>
    simp only [applyFrom, List.length_nil, Nat.min_zero, List.drop_nil, List.take_nil]
    cases e.kind with
    | equal => exact ih ..
    | delete => exact ih ..
    | insert => exact congrArg _ (congrArg _ (ih ..))

/-- Where the cursor lies beyond the end, it may as well lie elsewhere. -/
theorem applyFrom_drop {text : List Char} {cursor stop : Nat} (edits : List Edit)
    (reached : cursor = stop ∨ text.length ≤ stop) :
    applyFrom cursor (text.drop stop) edits = applyFrom stop (text.drop stop) edits := by
  rcases reached with rfl | beyond
  · rfl
  · rw [List.drop_eq_nil_of_le beyond]
    exact applyFrom_nil ..

/-- An edit at the cursor or behind it: what stands before it stays. A deletion goes on where it
ends, any other edit where it starts. -/
theorem applyFrom_cons {text : List Char} {cursor : Nat} {e : Edit} (ahead : cursor ≤ e.start)
    (edits : List Edit) :
    applyFrom cursor (text.drop cursor) (e :: edits) =
      (text.take e.start).drop cursor ++
        match e.kind with
        | .equal => applyFrom e.start (text.drop e.start) edits
        | .delete => applyFrom e.stop (text.drop e.stop) edits
        | .insert => e.text.toList ++ applyFrom e.start (text.drop e.start) edits := by
  simp only [applyFrom]
  generalize skipped : min (e.start - cursor) (text.drop cursor).length = skip
  rw [List.length_drop] at skipped
  have before : (text.drop cursor).take skip = (text.take e.start).drop cursor := by
    rw [List.drop_take]
    exact List.take_eq_take_iff.2 (by rw [List.length_drop]; omega)
  have behind : (text.drop cursor).drop skip = text.drop e.start := by
    rw [List.drop_drop]
    rcases Nat.le_total e.start text.length with within | beyond
    · congr 1
      omega
    · rw [List.drop_eq_nil_of_le beyond, List.drop_eq_nil_of_le (by omega)]
  have onward : applyFrom (cursor + skip) (text.drop e.start) edits =
      applyFrom e.start (text.drop e.start) edits := applyFrom_drop edits (by omega)
  have beyond : cursor + skip + min e.length (text.length - e.start) = e.stop ∨
      text.length ≤ e.stop := by
    unfold Edit.stop
    omega
  rw [before, behind, List.drop_drop, List.length_drop, onward]
  congr 1
  cases e.kind with
  | equal => rfl
  | insert => rfl
  | delete => exact applyFrom_drop edits beyond

/-! ### The live buffer -/

/-- The live buffer after edits behind the cursor: the text up to the cursor is as it was, and from
there on it is what one pass gives. -/
theorem performAll_eq_applyFrom {text : List Char} {cursor : Nat} {edits : List Edit}
    (ahead : ∀ e ∈ edits.head?, cursor ≤ e.start) (inOrder : Edit.InOrder text.length edits) :
    Edit.performAll edits text = text.take cursor ++ applyFrom cursor (text.drop cursor) edits := by
  induction edits generalizing cursor with
  | nil => exact (List.take_append_drop cursor text).symm
  | cons e edits ih =>
    have first : cursor ≤ e.start := ahead e rfl
    obtain ⟨next, apart⟩ := List.isChain_cons.1 inOrder.apart
    obtain ⟨inside, within⟩ := List.forall_mem_cons.1 inOrder.within
    have ordered := e.start_le_stop
    have front : text.take cursor ++ (text.take e.start).drop cursor = text.take e.start := by
      conv_rhs => rw [← List.take_append_drop cursor (text.take e.start)]
      rw [List.take_take, Nat.min_eq_left first]
    -- The edits behind `e` leave the text up to any place between its start and its end alone.
    have later : ∀ place ≤ e.stop, Edit.performAll edits text =
        text.take place ++ applyFrom place (text.drop place) edits := fun place passed =>
      ih (fun e' head => Nat.le_trans passed (next e' head)) ⟨apart, within⟩
    rw [applyFrom_cons first, ← List.append_assoc, front]
    show Edit.perform e (Edit.performAll edits text) = _
    unfold Edit.perform
    cases e.kind with
    | equal => exact later e.start ordered
    | insert =>
      have size : (text.take e.start).length = e.start := List.length_take_of_le (by omega)
      simp only [later e.start ordered, List.take_left' size, List.drop_left' size]
    | delete =>
      have size : (text.take e.stop).length = e.stop := List.length_take_of_le inside
      simp only [later e.stop (Nat.le_refl _), List.drop_left' size]
      rw [List.take_append_of_le_length (by omega), List.take_take, Nat.min_eq_left ordered]

/-! ### Substitutions -/

/-- Substitutions behind the cursor replace their ranges. -/
theorem applyFrom_edits {text : List Char} {cursor : Nat} {subs : List Substitution}
    (ahead : ∀ s ∈ subs.head?, cursor ≤ s.start)
    (apart : subs.IsChain fun s next => s.stop ≤ next.start) :
    applyFrom cursor (text.drop cursor) (Substitution.edits subs) =
      Substitution.replaceFrom text cursor subs := by
  induction subs generalizing cursor with
  | nil => rfl
  | cons s subs ih =>
    obtain ⟨next, apart⟩ := List.isChain_cons.1 apart
    show applyFrom cursor (text.drop cursor)
      (Edit.delete s.start s.length :: Edit.insert s.stop s.text :: Substitution.edits subs) = _
    rw [applyFrom_cons (ahead s rfl), Substitution.replaceFrom]
    show _ ++ applyFrom s.stop (text.drop s.stop)
      (Edit.insert s.stop s.text :: Substitution.edits subs) = _
    rw [applyFrom_cons (Nat.le_refl s.stop)]
    show _ ++ ((text.take s.stop).drop s.stop ++
      (s.text.toList ++ applyFrom s.stop (text.drop s.stop) (Substitution.edits subs))) = _
    rw [List.drop_eq_nil_of_le (List.length_take_le ..), ih next apart]
    rfl

/-- One pass over a text does what an editor does that performs the edits one at a time from the
last to the first, and it replaces the ranges of substitutions. -/
theorem applyEdits_performs (text : String) :
    (∀ edits : List Edit, Edit.InOrder text.length edits →
      applyEdits text edits = String.ofList (Edit.performAll edits text.toList)) ∧
    (∀ subs : List Substitution, (subs.IsChain fun s next => s.stop ≤ next.start) →
      applyEdits text (Substitution.edits subs) =
        String.ofList (Substitution.replaceFrom text.toList 0 subs)) := by
  refine ⟨fun edits inOrder => ?_, fun subs apart => ?_⟩
  · rw [← String.length_toList] at inOrder
    rw [performAll_eq_applyFrom (fun e _ => Nat.zero_le e.start) inOrder]
    rfl
  · rw [← applyFrom_edits (fun _ _ => Nat.zero_le _) apart]
    rfl

/-- Two insertions share an offset, a deletion starts there too and an insertion follows where it
ends; ranges to be replaced touch, and one of them is empty. -/
theorem applyEdits_performs_touching :
    let text := "ab ñcd"
    let edits : List Edit :=
      [.insert 0 "x", .insert 0 "yé", .delete 0 2, .insert 2 "z", .delete 3 1, .insert 6 "w"]
    let subs : List Substitution := [⟨0, 2, "pqr"⟩, ⟨2, 0, "-"⟩, ⟨2, 2, ""⟩, ⟨5, 1, "dd"⟩]
    Edit.InOrder text.length edits ∧
      applyEdits text edits = String.ofList (Edit.performAll edits text.toList) ∧
      String.ofList (Edit.performAll edits text.toList) = "xyéz cdw" ∧
      (subs.IsChain fun s next => s.stop ≤ next.start) ∧
      applyEdits text (Substitution.edits subs) =
        String.ofList (Substitution.replaceFrom text.toList 0 subs) ∧
      String.ofList (Substitution.replaceFrom text.toList 0 subs) = "pqr-cdd" := by
  intro text edits subs
  have inOrder : Edit.InOrder text.length edits := ⟨by decide, by decide⟩
  have apart : subs.IsChain fun s next => s.stop ≤ next.start := by decide
  obtain ⟨performs, replaces⟩ := applyEdits_performs text
  exact ⟨inOrder, performs edits inOrder, by decide, apart, replaces subs apart, by decide⟩

end GrammarIndex

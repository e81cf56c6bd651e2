import GrammarIndex.Proofs.Edit.RoundTrip
import Mathlib.Data.List.Chain

/-!
The form of chunks and of edit scripts.

Chunks are not empty and change their kind from one to the next. So the edits written for them
delete or insert something each, and keep apart: between two runs of changes stands at least one
character that both texts keep, and inside a run only the insertion touches the deletion before it.
-/
namespace GrammarIndex

namespace Diff

/-- No chunk is empty, and neighbours are of different kinds. -/
structure Alternating (chunks : List Chunk) : Prop where
  filled : ∀ c ∈ chunks, c.chars ≠ []
  changing : chunks.IsChain fun c next => c.kind ≠ next.kind

theorem alternating_nil : Alternating [] := ⟨by simp, .nil⟩

/-- Putting a run in front keeps the form: an empty run vanishes, a run of the same kind is joined. -/
theorem alternating_prepend (kind : EditKind) (chars : List Char) {chunks : List Chunk}
    (alternating : Alternating chunks) : Alternating (prepend kind chars chunks) := by
  obtain ⟨filled, changing⟩ := alternating
  unfold prepend
  split
  case h_1 => exact ⟨filled, changing⟩
  case h_2 some_ => exact ⟨by simpa using some_, .singleton _⟩
  case h_3 next rest some_ =>
    split
    case isTrue joined =>
      refine ⟨?_, ?_⟩
      · intro c member
        rcases List.mem_cons.1 member with rfl | member
        · simpa using fun none_ _ => some_ none_
        · exact filled c (List.mem_cons_of_mem _ member)
      · cases changing with
        | singleton => exact .singleton _
        | cons_cons other rest => exact .cons_cons (joined ▸ other) rest
    case isFalse other =>
      refine ⟨?_, .cons_cons (Ne.symm other) changing⟩
      intro c member
      rcases List.mem_cons.1 member with rfl | member
      · exact some_
      · exact filled c member

theorem alternating_middle (a b : List Char) {rest : List Chunk} (alternating : Alternating rest) :
    Alternating (middle a b rest) := by
  unfold middle
  split
  case h_1 steps found =>
    clear found
    induction steps with
    | nil => exact alternating
    | cons s steps ih => exact alternating_prepend s.1 [s.2] ih
  case h_2 => exact alternating_prepend _ _ (alternating_prepend _ _ alternating)

theorem alternating_chunks (a b : List Char) : Alternating (chunks a b) :=
  alternating_prepend _ _ (alternating_middle _ _ (alternating_prepend _ _ alternating_nil))

/-! ### Equal texts -/

theorem commonLength_self (a : List Char) : commonLength a a = a.length := by
  induction a with
  | nil => rfl
  | cons c a ih => simp [commonLength, ih]

/-- Between empty middles nothing changes. -/
theorem middle_nil (rest : List Chunk) : middle [] [] rest = rest := by
  obtain ⟨found, answered, spells⟩ := shortestEdit?_spells #[] #[]
  unfold middle
  rw [answered]
  cases found with
  | none => rfl
  | some steps =>
    obtain ⟨old, new⟩ := spells steps rfl
    cases steps with
    | nil => rfl
    | cons s steps =>
      obtain ⟨kind, c⟩ := s
      cases kind with
      | insert => simp [newSteps, newPart] at new
      | equal | delete => simp [oldSteps, oldPart] at old

theorem chunks_self (a : List Char) : chunks a a = prepend .equal a [] := by
  simp [chunks, commonLength_self, middle_nil, prepend]

end Diff

/-! ### Edits -/

namespace Edit

/-- The edit deletes something and inserts nothing, or the other way round. -/
def Proper (e : Edit) : Prop :=
  e.kind = .delete ∧ 0 < e.length ∧ e.text = "" ∨ e.kind = .insert ∧ e.length = 0 ∧ e.text ≠ ""

/-- The next edit inserts where this one ends to delete, or starts further on. -/
def Precedes (e next : Edit) : Prop :=
  e.kind = .delete ∧ next.kind = .insert ∧ next.start = e.stop ∨ e.stop < next.start

/-- The edit ends before the other one starts. -/
def Before (e later : Edit) : Prop := e.stop ≤ later.start

instance : Trans Before Before Before where
  trans {_ f _} first second :=
    Nat.le_trans first (Nat.le_trans (Nat.le_add_right f.start f.length) second)

theorem Precedes.before {e next : Edit} (precedes : Precedes e next) : Before e next := by
  rcases precedes with ⟨_, _, touching⟩ | apart
  · exact Nat.le_of_eq touching.symm
  · exact Nat.le_of_lt apart

theorem Precedes.stop_lt {e next : Edit} (precedes : Precedes e next)
    (same : e.kind = next.kind) : e.stop < next.start := by
  rcases precedes with ⟨deletes, inserts, _⟩ | apart
  · rw [deletes, inserts] at same
    cases same
  · exact apart

theorem proper_delete (start : Nat) {length : Nat} (some_ : length ≠ 0) :
    (delete start length).Proper := .inl ⟨rfl, Nat.pos_of_ne_zero some_, rfl⟩

theorem proper_insert (start : Nat) {text : List Char} (some_ : text ≠ []) :
    (insert start (String.ofList text)).Proper := by
  refine .inr ⟨rfl, rfl, fun none_ => some_ ?_⟩
  have chars := congrArg String.toList (show String.ofList text = "" from none_)
  rwa [String.toList_ofList] at chars

end Edit

namespace Script

open Diff

/-- Edits of a script that lie between two offsets. -/
structure Canonical (lo hi : Nat) (edits : List Edit) : Prop where
  proper : ∀ e ∈ edits, e.Proper
  within : ∀ e ∈ edits, lo ≤ e.start ∧ e.stop ≤ hi
  chain : edits.IsChain Edit.Precedes

/-- Scripts for places with a kept character between them make one script. -/
theorem Canonical.append {lo mid mid' hi : Nat} {edits edits' : List Edit}
    (first : Canonical lo mid edits) (second : Canonical mid' hi edits') (apart : mid < mid')
    (below : lo ≤ mid') (above : mid ≤ hi) : Canonical lo hi (edits ++ edits') := by
  refine ⟨fun e member => ?_, fun e member => ?_,
    List.isChain_append.2 ⟨first.chain, second.chain, fun e last e' head => .inr ?_⟩⟩
  · exact (List.mem_append.1 member).elim (first.proper e) (second.proper e)
  · rcases List.mem_append.1 member with member | member
    · have := first.within e member
      omega
    · have := second.within e member
      omega
  · have := first.within e (List.mem_of_getLast? last)
    have := second.within e' (List.mem_of_head? head)
    omega

theorem canonical_flush (offset deleted : Nat) (inserted : List Char) :
    Canonical offset (offset + deleted) (flush offset deleted inserted) := by
  unfold flush
  by_cases nothing : deleted = 0
  · by_cases empty : inserted = []
    · simp only [nothing, empty, List.isEmpty_nil, if_true, List.append_nil]
      exact ⟨by simp, by simp, .nil⟩
    · simp only [nothing, List.isEmpty_iff, empty, if_true, if_false, List.nil_append]
      refine ⟨?_, ?_, .singleton _⟩
      · simpa using Edit.proper_insert _ empty
      · simp [Edit.insert, Edit.stop]
  · by_cases empty : inserted = []
    · simp only [nothing, empty, List.isEmpty_nil, if_true, if_false, List.append_nil]
      refine ⟨?_, ?_, .singleton _⟩
      · simpa using Edit.proper_delete _ nothing
      · simp [Edit.delete, Edit.stop]
    · simp only [nothing, List.isEmpty_iff, empty, if_false, List.cons_append, List.nil_append]
      refine ⟨?_, ?_, .cons_cons (.inl ⟨rfl, rfl, rfl⟩) (.singleton _)⟩
      · simpa using And.intro (Edit.proper_delete _ nothing) (Edit.proper_insert _ empty)
      · simp [Edit.insert, Edit.delete, Edit.stop]

/-- The edits for chunks none of which is empty. -/
theorem canonical_ofChunks {chunks : List Chunk} (filled : ∀ c ∈ chunks, c.chars ≠ [])
    (offset deleted : Nat) (inserted : List Char) :
    Canonical offset (offset + deleted + (oldChars chunks).length)
      (ofChunks offset deleted inserted chunks) := by
  induction chunks generalizing offset deleted inserted with
  | nil => exact canonical_flush offset deleted inserted
  | cons c rest ih =>
    obtain ⟨kind, chars⟩ := c
    have some_ : 0 < chars.length := List.length_pos_iff.2 (filled _ List.mem_cons_self)
    have behind := ih fun c member => filled c (List.mem_cons_of_mem _ member)
    cases kind with
    | equal =>
      have next := behind (offset + deleted + chars.length) 0 []
      have size : (oldChars (⟨.equal, chars⟩ :: rest)).length =
          chars.length + (oldChars rest).length := by simp [oldChars, oldPart]
      rw [size, ← Nat.add_assoc]
      exact (canonical_flush offset deleted inserted).append next (by omega) (by omega) (by omega)
    | delete =>
      have size : (oldChars (⟨.delete, chars⟩ :: rest)).length =
          chars.length + (oldChars rest).length := by simp [oldChars, oldPart]
      rw [size, ← Nat.add_assoc, Nat.add_assoc offset]
      exact behind offset (deleted + chars.length) inserted
    | insert => exact behind offset deleted (inserted ++ chars)

theorem flush_eq_nil {offset deleted : Nat} {inserted : List Char}
    (none_ : flush offset deleted inserted = []) : deleted = 0 ∧ inserted = [] := by
  simp only [flush, List.append_eq_nil_iff] at none_
  constructor
  · by_contra some_
    simp [some_] at none_
  · by_contra some_
    simp [some_] at none_

/-- Without edits nothing was collected, and the chunks spell the same text twice. -/
theorem eq_of_ofChunks_eq_nil {chunks : List Chunk} {offset deleted : Nat} {inserted : List Char}
    (none_ : ofChunks offset deleted inserted chunks = []) :
    deleted = 0 ∧ inserted = [] ∧ oldChars chunks = newChars chunks := by
  induction chunks generalizing offset deleted inserted with
  | nil => exact ⟨(flush_eq_nil none_).1, (flush_eq_nil none_).2, rfl⟩
  | cons c rest ih =>
    obtain ⟨kind, chars⟩ := c
    cases kind with
    | equal =>
      obtain ⟨flushed, later⟩ := List.append_eq_nil_iff.1 none_
      obtain ⟨_, _, same⟩ := ih later
      refine ⟨(flush_eq_nil flushed).1, (flush_eq_nil flushed).2, ?_⟩
      exact congrArg (chars ++ ·) same
    | delete =>
      obtain ⟨deletes, inserts, same⟩ := ih none_
      obtain ⟨zero, empty⟩ := Nat.add_eq_zero_iff.1 deletes
      obtain rfl : chars = [] := List.length_eq_zero_iff.1 empty
      exact ⟨zero, inserts, same⟩
    | insert =>
      obtain ⟨deletes, inserts, same⟩ := ih none_
      obtain ⟨collected, rfl⟩ := List.append_eq_nil_iff.1 inserts
      exact ⟨deletes, collected, same⟩

end Script

theorem editScript_eq_nil_iff (old new : String) : editScript old new = [] ↔ old = new := by
  constructor
  · intro none_
    rw [editScript_eq] at none_
    obtain ⟨_, _, same⟩ := Script.eq_of_ofChunks_eq_nil none_
    rw [Diff.oldChars_chunks, Diff.newChars_chunks] at same
    exact String.toList_injective same
  · rintro rfl
    rw [editScript_eq, Diff.chunks_self]
    cases old.toList <;> rfl

/-- The form of what leads from one text to another. The chunks are not empty and alternate. Behind
whatever chunks, `position - delta` is an offset of the old text and never below zero, so the edits
are really written. There are none if and only if the texts are equal. Each edit deletes something or
inserts something, inside the old text. An edit behind another one inserts right where that one ends
to delete, or starts further on; so edits are sorted, do not overlap, and two of one kind never
touch. -/
theorem editScript_canonical (old new : String) :
    Diff.Alternating (Diff.chunks old.toList new.toList) ∧
      (∀ passed : List Diff.Chunk, ∃ r : Script.Run,
        passed.foldlM Script.Run.pass? .start = some r ∧ r.Behind passed) ∧
      Script.ofChunks? (Diff.chunks old.toList new.toList) = some (editScript old new) ∧
      (editScript old new = [] ↔ old = new) ∧
      (∀ e ∈ editScript old new, e.Proper ∧ e.start ≤ old.length ∧ e.stop ≤ old.length) ∧
      (editScript old new).IsChain Edit.Precedes ∧
      (editScript old new).Pairwise Edit.Before ∧
      (editScript old new).IsChain fun e next => e.kind = next.kind → e.stop < next.start := by
  have alternating := Diff.alternating_chunks old.toList new.toList
  have canonical := Script.canonical_ofChunks alternating.filled 0 0 []
  rw [Diff.oldChars_chunks, String.length_toList, Nat.zero_add] at canonical
  rw [← editScript_eq] at canonical
  have written := Script.ofChunks?_eq (Diff.chunks old.toList new.toList)
  rw [← editScript_eq] at written
  refine ⟨alternating, Script.Run.behind_foldlM Script.Run.behind_start, written, editScript_eq_nil_iff old new,
    fun e member => ?_, canonical.chain, ?_, ?_⟩
  · have inside := (canonical.within e member).2
    exact ⟨canonical.proper e member, Nat.le_trans (Nat.le_add_right _ _) inside, inside⟩
  · exact (canonical.chain.imp fun _ _ precedes => precedes.before).pairwise
  · exact canonical.chain.imp fun _ _ precedes same => precedes.stop_lt same

/-- A replaced character and a new one behind the next. -/
example : editScript "abc" "xbcy" = [.delete 0 1, .insert 1 "x", .insert 3 "y"] := by decide +kernel

end GrammarIndex

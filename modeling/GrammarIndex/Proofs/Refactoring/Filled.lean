import GrammarIndex.Proofs.Refactoring.Weave
import Mathlib.Data.List.Forall2

/-!
The rules in other places.

Filling the places of the rules with the characters of other rules gives the same gaps with those
rules between them. The rules are put in order of their names, so what is filled in are the rules of
the text, sorted and with rules of one name in their old order.
-/
namespace GrammarIndex.SortRules

open Grammar (GapText RuleText Weave)
open Grammar.Bit (chars)

/-! ### Names in order -/

/-- Whether a rule may stand before another. -/
def upTo (name name' : String) : Bool := compare name name' != .gt

theorem upTo_trans (a b c : String) (first : upTo a b = true) (second : upTo b c = true) :
    upTo a c = true := by
  simp only [upTo, bne_iff_ne, ← Ordering.isLE_iff_ne_gt] at *
  exact Std.TransCmp.isLE_trans first second

theorem upTo_total (a b : String) : (upTo a b || upTo b a) = true := by
  cases upper : compare a b with
  | lt => simp [upTo, upper]
  | eq => simp [upTo, upper]
  | gt => simp [upTo, Std.OrientedCmp.lt_of_gt upper]

theorem isSorted_of_pairwise {names : List String}
    (sorted : names.Pairwise fun a b => upTo a b = true) : isSorted names = true := by
  induction names with
  | nil => rfl
  | cons a names ih =>
    obtain ⟨first, rest⟩ := List.pairwise_cons.1 sorted
    cases names with
    | nil => rfl
    | cons b names =>
      rw [isSorted, ih rest, Bool.and_true]
      exact first b (List.mem_cons_self ..)

/-! ### Sorted rules -/

def byName (r r' : RuleText) : Bool := upTo r.name r'.name

theorem byName_trans (a b c : RuleText) : byName a b = true → byName b c = true →
    byName a c = true := upTo_trans _ _ _

theorem byName_total (a b : RuleText) : (byName a b || byName b a) = true := upTo_total _ _

/-- The rules in order of their names, those of one name in their old order. -/
def inOrder (rules : List RuleText) : List RuleText := rules.mergeSort byName

theorem perm_inOrder (rules : List RuleText) : (inOrder rules).Perm rules :=
  List.mergeSort_perm rules byName

theorem pairwise_inOrder (rules : List RuleText) :
    ((inOrder rules).map (·.name)).Pairwise fun a b => upTo a b = true :=
  List.pairwise_map.2 (List.pairwise_mergeSort byName_trans byName_total rules)

/-- Sorting leaves the rules of one name as they are. -/
theorem filter_inOrder (rules : List RuleText) (name : String) :
    (inOrder rules).filter (·.name == name) = rules.filter (·.name == name) := by
  have alike : (rules.filter (·.name == name)).Pairwise fun r r' => byName r r' = true := by
    refine List.pairwise_of_forall_mem_list fun r member r' member' => ?_
    have same := eq_of_beq (List.mem_filter.1 member).2
    have same' := eq_of_beq (List.mem_filter.1 member').2
    have := upTo_total name name
    rw [byName, same, same']
    simpa using this
  have kept := (List.sublist_mergeSort byName_trans byName_total alike
    List.filter_sublist).filter (·.name == name)
  rw [List.filter_filter] at kept
  simp only [Bool.and_self] at kept
  refine (kept.eq_of_length ?_).symm
  exact ((perm_inOrder rules).filter _).length_eq.symm

/-! ### Filling -/

/-- The same gaps with other rules between them. -/
def refill (w : Weave) (rules : List RuleText) : Weave :=
  ⟨(w.entries.map Prod.fst).zip rules, w.last⟩

/-- The rules of a text in order. -/
def rulesOf (w : Weave) : List RuleText := w.entries.map Prod.snd

section

variable {w : Weave} {rules : List RuleText}

theorem gaps_refill (size : rules.length = w.entries.length) :
    (refill w rules).entries.map Prod.fst = w.entries.map Prod.fst :=
  List.map_fst_zip (by rw [List.length_map, size])

theorem rulesOf_refill (size : rules.length = w.entries.length) :
    rulesOf (refill w rules) = rules :=
  List.map_snd_zip (by rw [List.length_map, size])

/-- Gaps and rules of a text are cut on their own in any order. -/
theorem cuts_refill (cuts : w.Cuts) (known : rules ⊆ rulesOf w) : (refill w rules).Cuts where
  gaps e member := by
    obtain ⟨e', listed, same⟩ := List.mem_map.1 (List.of_mem_zip member).1
    rw [← same]
    exact cuts.gaps e' listed
  rules e member := by
    obtain ⟨e', listed, same⟩ := List.mem_map.1 (known (List.of_mem_zip member).2)
    rw [← same]
    exact cuts.rules e' listed
  last := cuts.last

end

/-- What stands in the places of the rules are the rules. -/
theorem slice_placesFrom (front : List Char) (entries : List (GapText × RuleText))
    (last : GapText) :
    List.Forall₂ (fun s r => s.name = r.name ∧
        slice (front ++ chars (Weave.bits ⟨entries, last⟩)) s.span = chars r.bits)
      (Weave.placesFrom front.length entries) (entries.map Prod.snd) := by
  induction entries generalizing front with
  | nil => exact .nil
  | cons e entries ih =>
    obtain ⟨g, r⟩ := e
    have rest := ih (front ++ chars g.bits ++ chars r.bits)
    have whole : front ++ chars (Weave.bits ⟨(g, r) :: entries, last⟩) =
        front ++ chars g.bits ++ chars r.bits ++ chars (Weave.bits ⟨entries, last⟩) := by
      simp [Weave.bits]
    rw [← whole, List.length_append, List.length_append] at rest
    refine .cons ⟨rfl, ?_⟩ rest
    rw [whole, slice, List.take_left' (by simp [Nat.add_assoc]), List.drop_left' (by simp)]

/-- Filling the places of the rules puts other rules between the gaps. -/
theorem fill_placesFrom (offset : Nat) (entries : List (GapText × RuleText)) (last : GapText)
    {rules : List RuleText} (size : rules.length = entries.length) :
    fill offset (chars (Weave.bits ⟨entries, last⟩))
        ((Weave.placesFrom offset entries).zip (rules.map fun r => chars r.bits)) =
      chars (Weave.bits ⟨(entries.map Prod.fst).zip rules, last⟩) := by
  induction entries generalizing offset rules with
  | nil => simp [Weave.placesFrom, fill, Weave.bits]
  | cons e entries ih =>
    obtain ⟨g, r⟩ := e
    obtain ⟨r', rules, rfl⟩ := List.exists_cons_of_length_eq_add_one size
    have rest := ih (offset + (chars g.bits).length + (chars r.bits).length) (Nat.succ.inj size)
    have whole : chars (Weave.bits ⟨(g, r) :: entries, last⟩) =
        chars g.bits ++ (chars r.bits ++ chars (Weave.bits ⟨entries, last⟩)) := by
      simp [Weave.bits]
    have skip : min (offset + (chars g.bits).length - offset)
        (chars (Weave.bits ⟨(g, r) :: entries, last⟩)).length = (chars g.bits).length := by
      rw [whole, List.length_append]
      omega
    have width : min (offset + (chars g.bits).length + (chars r.bits).length -
        (offset + (chars g.bits).length))
        ((chars (Weave.bits ⟨(g, r) :: entries, last⟩)).length - (chars g.bits).length) =
          (chars r.bits).length := by
      rw [whole, List.length_append, List.length_append]
      omega
    simp only [Weave.placesFrom, List.map_cons, List.zip_cons_cons, fill, skip, width]
    rw [whole, List.take_left, ← List.append_assoc,
      List.drop_left' (by rw [List.length_append]), rest]
    simp [Weave.bits]

/-- Sorting what the rules stand in comes to sorting the rules. -/
theorem map_sorted_of_forall₂ {α : Type} {f : Slot → α} {h : RuleText → α} {slots : List Slot}
    {rules : List RuleText}
    (stand : List.Forall₂ (fun s r => s.name = r.name ∧ f s = h r) slots rules) :
    slots.map (·.name) = rules.map (·.name) ∧
      (slots.mergeSort fun a b => upTo a.name b.name).map f = (inOrder rules).map h := by
  have each : ∀ p ∈ slots.zip rules, p.1.name = p.2.name ∧ f p.1 = h p.2 := fun p member =>
    List.forall₂_zip stand member
  have slots_ : (slots.zip rules).map Prod.fst = slots :=
    List.map_fst_zip (Nat.le_of_eq stand.length_eq)
  have rules_ : (slots.zip rules).map Prod.snd = rules :=
    List.map_snd_zip (Nat.le_of_eq stand.length_eq.symm)
  generalize slots.zip rules = pairs at each slots_ rules_
  subst slots_ rules_
  refine ⟨?_, ?_⟩
  · rw [List.map_map, List.map_map]
    exact List.map_congr_left fun p member => (each p member).1
  · let before (p q : Slot × RuleText) : Bool := upTo p.1.name q.1.name
    have left : (pairs.mergeSort before).map Prod.fst =
        (pairs.map Prod.fst).mergeSort fun a b => upTo a.name b.name :=
      List.map_mergeSort fun _ _ _ _ => rfl
    have right : (pairs.mergeSort before).map Prod.snd = inOrder (pairs.map Prod.snd) :=
      List.map_mergeSort fun p member q member' => by
        simp only [before, byName, (each p member).1, (each q member').1]
    rw [← left, ← right, List.map_map, List.map_map]
    exact List.map_congr_left fun p member => (each p (List.mem_mergeSort.1 member)).2

/-- Sorting the places by name puts the rules in order. -/
theorem sorted?_eq {tree : SyntaxTree} {w : Weave} (places : slots tree = w.places) :
    sorted? tree (chars w.bits) =
      if isSorted ((rulesOf w).map (·.name)) then none
      else some (chars (refill w (inOrder (rulesOf w))).bits) := by
  have stand := slice_placesFrom [] w.entries w.last
  obtain ⟨names, bodies⟩ := map_sorted_of_forall₂ stand
  have size : (inOrder (rulesOf w)).length = w.entries.length := by
    rw [(perm_inOrder _).length_eq, rulesOf, List.length_map]
  have filled := fill_placesFrom 0 w.entries w.last size
  rw [sorted?, places]
  simp only
  have names' : w.places.map (·.name) = (rulesOf w).map (·.name) := names
  rw [names']
  split
  · rfl
  · exact congrArg some ((congrArg (fun b => fill 0 _ (w.places.zip b)) bodies).trans filled)

end GrammarIndex.SortRules

import GrammarIndex.Proofs.Edit.Shortest

/-!
The windows of a search, and where the walk back through them ends.

A read outside the frontier, a window or a text, or at a negative place, is the failure `none`. The
search never fails, whether it reaches the end or gives up. If it reaches the end, the walk back
through the windows of its rounds never fails either. It ends on the diagonal below the origin, with
both texts spelled by its steps.
-/
namespace GrammarIndex.Diff

/-! ### The rounds of a search -/

/-- The windows of the rounds up to the one that reaches the end, latest first. The inner `none`
says that none of the next `left` rounds does. -/
def searchWindows (a b : Array Char) : (left d : Nat) → Frontier → List (Array Nat) →
    Option (Option (List (Array Nat)))
  | 0, _, _, _ => some none
  | left + 1, d, v, trace => do
    let trace := (← v.window? d) :: trace
    match ← sweep a b d (d + 1) (-d) v with
    | none => return some trace
    | some v => searchWindows a b left (d + 1) v trace

/-- The windows of the search for a shortest list of steps. -/
def windows? (a b : Array Char) : Option (Option (List (Array Nat))) :=
  let limit := min (a.size + b.size) maxDistance
  searchWindows a b (limit + 1) 0 (.start limit) []

variable {a b : Array Char}

/-- What a search answers, it has from its windows by walking back. -/
theorem search_eq (left d : Nat) (v : Frontier) (trace : List (Array Nat)) :
    search a b left d v trace = (searchWindows a b left d v trace).bind fun found =>
      found.elim (some none) fun trace => (backtrack a b trace a.size b.size []).map some := by
  induction left generalizing d v trace with
  | zero => rfl
  | succ left ih =>
    rw [search, searchWindows]
    cases v.window? d with
    | none => rfl
    | some window =>
      cases grown : sweep a b d (d + 1) (-d) v with
      | none => rfl
      | some found =>
        cases found with
        | none =>
          simp only [Option.bind_eq_bind, Option.bind_some, Option.map_eq_bind]
          rfl
        | some v' => exact ih (d + 1) v' _

/-- A search puts the windows of its rounds in front of those it starts with. -/
theorem suffix_of_searchWindows {left d : Nat} {v : Frontier} {trace found : List (Array Nat)}
    (searched : searchWindows a b left d v trace = some (some found)) : trace <:+ found := by
  induction left generalizing d v trace with
  | zero => cases searched
  | succ left ih =>
    rw [searchWindows] at searched
    obtain ⟨window, _, searched⟩ := Option.bind_eq_some_iff.1 searched
    obtain ⟨swept, _, searched⟩ := Option.bind_eq_some_iff.1 searched
    cases swept with
    | none =>
      cases searched
      exact List.suffix_cons window trace
    | some v' => exact (List.suffix_cons window trace).trans (ih searched)

/-- The window of the first round shows the diagonals next to the origin, all at zero. -/
theorem getLast?_windows? {trace : List (Array Nat)} (found : windows? a b = some (some trace)) :
    trace.getLast? = some #[0, 0, 0] := by
  have opened : ∀ limit, (Frontier.start limit).window? 0 = some #[0, 0, 0] := by
    intro limit
    have inside : 0 + 1 ≤ limit + 2 ∧ limit + 2 + 0 + 1 < 2 * (limit + 2) + 1 := by omega
    rw [Frontier.window?]
    simp only [Frontier.start, Array.size_replicate, if_pos inside, Array.extract_replicate]
    rw [show min (limit + 2 + 0 + 2) (2 * (limit + 2) + 1) - (limit + 2 - (0 + 1)) = 3 by omega]
    rfl
  rw [windows?, searchWindows, opened, Option.bind_eq_bind, Option.bind_some] at found
  obtain ⟨swept, _, found⟩ := Option.bind_eq_some_iff.1 found
  cases swept with
  | none =>
    cases found
    rfl
  | some v =>
    obtain ⟨later, rfl⟩ := suffix_of_searchWindows found
    rw [List.getLast?_append]
    rfl

/-! ### The walk back, round by round -/

/-- Where the walk back is, and the steps that follow. Behind the first round `y` is one below the
text. -/
structure Walk where
  x : Int
  y : Int
  steps : List Step

/-- One round of the walk back. -/
def stepBack (a b : Array Char) (window : Array Nat) (d : Nat) (w : Walk) : Option Walk := do
  let look (k : Int) : Option Nat := read window (k + d + 1)
  let k := w.x - w.y
  let k' := if ← comesFromAbove d k look then k + 1 else k - 1
  let x' : Int := ← look k'
  let y' := x' - k'
  let count := (min (w.x - x') (w.y - y')).toNat
  let steps ← keep a w.x count w.steps
  let steps ←
    if d = 0 then some steps
    else if w.x - count = x' then do some ((.insert, ← read b y') :: steps)
    else do some ((.delete, ← read a x') :: steps)
  return ⟨x', y', steps⟩

/-- The walk back through windows, latest first. -/
def walkBack (a b : Array Char) : List (Array Nat) → Walk → Option Walk
  | [], w => some w
  | window :: earlier, w => do walkBack a b earlier (← stepBack a b window earlier.length w)

theorem backtrack_eq (trace : List (Array Nat)) (w : Walk) :
    backtrack a b trace w.x w.y w.steps = (walkBack a b trace w).map (·.steps) := by
  induction trace generalizing w with
  | nil => rfl
  | cons window earlier ih =>
    rw [backtrack, walkBack, stepBack]
    simp only [Option.bind_eq_bind, Option.bind_assoc, Option.map_bind]
    refine Option.bind_congr fun came _ => ?_
    rw [Function.comp_apply, Option.map_bind]
    generalize (if came = true then _ else _ : Int) = k'
    refine Option.bind_congr fun x' _ => ?_
    rw [Function.comp_apply, Option.map_bind]
    refine Option.bind_congr fun steps _ => ?_
    rw [Function.comp_apply]
    by_cases first : earlier.length = 0
    · simp only [if_pos first]
      exact ih ⟨x', x' - k', steps⟩
    · simp only [if_neg first]
      split
      · cases read b (x' - k') with
        | none => rfl
        | some c => exact ih ⟨x', x' - k', (.insert, c) :: steps⟩
      · cases read a x' with
        | none => rfl
        | some c => exact ih ⟨x', x' - k', (.delete, c) :: steps⟩

theorem range_of_read {α : Type} {xs : Array α} {i : Int} {x : α} (found : read xs i = some x) :
    0 ≤ i ∧ i < xs.size := by
  unfold read at found
  split at found
  · cases found
  · obtain ⟨inside, _⟩ := Array.getElem?_eq_some_iff.1 found
    omega

/-- The first round leads to the diagonal below the origin: its window holds zeros only, and can be
read on both sides of no diagonal but that of the origin. -/
theorem stepBack_first {w w' : Walk} (stepped : stepBack a b #[0, 0, 0] 0 w = some w') :
    w'.x = 0 ∧ w'.y = -1 := by
  have zero : ∀ k x, read #[0, 0, 0] k = some x → x = 0 := by
    intro k x found
    have inside := range_of_read found
    simp only [List.size_toArray, List.length_cons, List.length_nil] at inside
    obtain rfl | rfl | rfl : k = 0 ∨ k = 1 ∨ k = 2 := by omega
    all_goals
      cases found
      rfl
  rw [stepBack] at stepped
  obtain ⟨came, chosen, stepped⟩ := Option.bind_eq_some_iff.1 stepped
  obtain ⟨x', found, stepped⟩ := Option.bind_eq_some_iff.1 stepped
  obtain ⟨steps, _, stepped⟩ := Option.bind_eq_some_iff.1 stepped
  obtain rfl := zero _ _ found
  simp only [if_true, Option.bind_eq_bind, Option.bind_some, Option.pure_def,
    Option.some.injEq] at stepped
  generalize w.x - w.y = k at chosen stepped
  have origin : k = 0 := by
    by_contra apart
    rw [comesFromAbove, if_neg (by omega), if_neg (by omega)] at chosen
    obtain ⟨lower, readLower, chosen⟩ := Option.bind_eq_some_iff.1 chosen
    obtain ⟨upper, readUpper, _⟩ := Option.bind_eq_some_iff.1 chosen
    have low := range_of_read readLower
    have high := range_of_read readUpper
    simp only [List.size_toArray, List.length_cons, List.length_nil] at low high
    omega
  subst origin
  cases chosen
  subst stepped
  exact ⟨rfl, rfl⟩

/-- Where the walk back through the windows of a search ends. -/
theorem walkBack_end {trace : List (Array Nat)} {w w' : Walk}
    (first : trace.getLast? = some #[0, 0, 0]) (walked : walkBack a b trace w = some w') :
    w'.x = 0 ∧ w'.y = -1 := by
  induction trace generalizing w with
  | nil => cases first
  | cons window earlier ih =>
    obtain ⟨before, stepped, rest⟩ := Option.bind_eq_some_iff.1 walked
    cases earlier with
    | nil =>
      cases first
      cases rest
      exact stepBack_first stepped
    | cons window' earlier =>
      rw [List.getLast?_cons_cons] at first
      exact ih first rest

/-! ### The result -/

/-- No search fails. It gives up only on texts that are further apart than it looks; otherwise the
walk back from the corner, through the windows of the rounds up to the one that got there, does not
fail either: it ends at `x = 0`, on the diagonal below the origin, and its steps spell both texts. -/
theorem search_walked_back (a b : Array Char) :
    (maxDistance < distance a.toList b.toList ∧ windows? a b = some none ∧
        shortestEdit? a b = some none) ∨
      ∃ trace steps, windows? a b = some (some trace) ∧
        walkBack a b trace ⟨a.size, b.size, []⟩ = some ⟨0, -1, steps⟩ ∧
        shortestEdit? a b = some (some steps) ∧
        oldSteps steps = a.toList ∧ newSteps steps = b.toList := by
  obtain ⟨answer, answered, spells⟩ := shortestEdit?_spells a b
  have searched : (windows? a b).bind (fun found => found.elim (some none) fun trace =>
      (backtrack a b trace a.size b.size []).map some) = some answer := by
    rw [← answered]
    exact (search_eq _ _ _ _).symm
  obtain ⟨found, windows, walked⟩ := Option.bind_eq_some_iff.1 searched
  cases found with
  | none =>
    left
    cases walked
    refine ⟨?_, windows, answered⟩
    by_contra near
    obtain ⟨s, left, right, longest⟩ := exists_lcs a.toList b.toList
    unfold distance at near
    simp only [Array.length_toList] at near
    obtain ⟨steps, nonempty, _⟩ := shortestEdit?_le left right (by omega)
    rw [answered] at nonempty
    cases nonempty
  | some trace =>
    right
    obtain ⟨steps, stepped, rfl⟩ := Option.map_eq_some_iff.1 walked
    have rounds : (walkBack a b trace ⟨a.size, b.size, []⟩).map (·.steps) = some steps :=
      (backtrack_eq trace ⟨a.size, b.size, []⟩).symm.trans stepped
    obtain ⟨w, walkedBack, rfl⟩ := Option.map_eq_some_iff.1 rounds
    obtain ⟨atX, atY⟩ := walkBack_end (getLast?_windows? windows) walkedBack
    obtain ⟨old, new⟩ := spells _ rfl
    refine ⟨trace, w.steps, windows, ?_, answered, old, new⟩
    rw [walkedBack, ← atX, ← atY]

end GrammarIndex.Diff

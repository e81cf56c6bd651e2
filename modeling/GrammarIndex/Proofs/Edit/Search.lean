import GrammarIndex.Proofs.Edit.Rounds

/-!
The search on its arrays, and the walk back through its windows.

Every read of the search and of the walk back is inside its array. The frontier is the function of
diagonals that the rounds are stated about, and the steps that the walk back collects spell both
texts.
-/
namespace GrammarIndex.Diff

/-! ### Cells and windows -/

namespace Frontier

/-- There is a cell for each diagonal within `width`. -/
def Fits (v : Frontier) : Prop := v.cells.size = 2 * v.width + 1

/-- The furthest `x` on a diagonal, zero where there is no cell. -/
def reach (v : Frontier) (k : Int) : Nat := (v.get? k).getD 0

theorem get?_eq_reach {v : Frontier} {k : Int} (fits : v.Fits) (near : k.natAbs ≤ v.width) :
    v.get? k = some (v.reach k) := by
  have low : ¬ (v.width : Int) + k < 0 := by omega
  have high : ((v.width : Int) + k).toNat < v.cells.size := by unfold Fits at fits; omega
  simp [reach, get?, read, low, high]

theorem set?_spec {v : Frontier} {k : Int} (x : Nat) (fits : v.Fits) (near : k.natAbs ≤ v.width) :
    ∃ v', v.set? k x = some v' ∧ v'.Fits ∧ v'.width = v.width ∧
      ∀ j, v'.reach j = if j = k then x else v.reach j := by
  have low : ¬ (v.width : Int) + k < 0 := by omega
  have high : ((v.width : Int) + k).toNat < v.cells.size := by unfold Fits at fits; omega
  refine ⟨{ v with cells := v.cells.set ((v.width : Int) + k).toNat x high },
    by simp [set?, low, high], by simpa [Fits] using fits, rfl, fun j => ?_⟩
  by_cases same : j = k
  · subst same
    simp [reach, get?, read, low]
  · by_cases under : (v.width : Int) + j < 0
    · simp [reach, get?, read, under, same]
    · have apart : ((v.width : Int) + k).toNat ≠ ((v.width : Int) + j).toNat := by omega
      simp [reach, get?, read, under, same, apart]

theorem fits_start (limit : Nat) : (start limit).Fits := by simp [Fits, start]

theorem reach_start (limit : Nat) (k : Int) : (start limit).reach k = 0 := by
  unfold reach get? read
  split
  · rfl
  · rw [show (start limit).cells = Array.replicate (2 * (limit + 2) + 1) 0 from rfl,
      Array.getElem?_replicate]
    split <;> rfl

end Frontier

/-- A window of round `d` holds the cells of the diagonals up to `d + 1`. -/
def Shows (window : Array Nat) (d : Nat) (c : Int → Nat) : Prop :=
  ∀ k : Int, k.natAbs ≤ d + 1 → read window (k + d + 1) = some (c k)

theorem window?_spec {v : Frontier} {d : Nat} (fits : v.Fits) (room : d + 1 ≤ v.width) :
    ∃ window, v.window? d = some window ∧ Shows window d v.reach := by
  have inRange : d + 1 ≤ v.width ∧ v.width + d + 1 < v.cells.size := by
    unfold Frontier.Fits at fits
    omega
  refine ⟨_, by rw [Frontier.window?, if_pos inRange], fun k near => ?_⟩
  have cell := Frontier.get?_eq_reach (v := v) (k := k) fits (by omega)
  have low : ¬ k + d + 1 < 0 := by omega
  have low' : ¬ (v.width : Int) + k < 0 := by omega
  have place : v.width - (d + 1) + (k + d + 1).toNat = ((v.width : Int) + k).toNat := by omega
  have inside : (k + d + 1).toNat < v.width + d + 2 - (v.width - (d + 1)) := by omega
  simp only [Frontier.get?, read, if_neg low'] at cell
  simp only [read, if_neg low, Array.getElem?_extract]
  rw [if_pos (by omega), place]
  exact cell

/-! ### One round on the frontier -/

section Sweep

variable {a b : Array Char} {d : Nat} {c : Int → Nat} {k : Int}

theorem comesFromAbove_eq {look : Int → Option Nat} (lower : look (k - 1) = some (c (k - 1)))
    (upper : look (k + 1) = some (c (k + 1))) :
    comesFromAbove d k look = some (fromAbove d c k) := by
  unfold comesFromAbove fromAbove
  split
  · rfl
  · split
    · rfl
    · simp [lower, upper]

theorem advance_eq {v : Frontier} (lower : v.get? (k - 1) = some (c (k - 1)))
    (upper : v.get? (k + 1) = some (c (k + 1))) : advance d k v = some (entry d c k) := by
  unfold advance entry
  rw [comesFromAbove_eq lower upper]
  cases fromAbove d c k <;> simp [lower, upper]

/-- One step of a sweep brings a diagonal to its furthest point, unless the search ends there. -/
theorem sweep_succ (left : Nat) {v v' : Frontier} (enters : advance d k v = some (entry d c k))
    (inside : k ≤ entry d c k) (stored : v.set? k (arrival a b d c k).1 = some v') :
    sweep a b d (left + 1) k v =
      if Ended a b d c k then some none else sweep a b d left (k + 2) v' := by
  rw [sweep, enters]
  simp only [Option.bind_eq_bind, Option.bind_some]
  rw [if_neg (by omega)]
  change (v.set? k (arrival a b d c k).1 >>= _) = _
  rw [stored]
  rfl

/-- A sweep stops at the end or brings every diagonal of its round to its furthest point. -/
theorem sweep_spec (ready : Ready a b d c) (left : Nat) (v : Frontier) (fits : v.Fits)
    (room : d + 1 ≤ v.width) (place : k = d + 2 - 2 * left) (few : left ≤ d + 1)
    (cells : ∀ j, v.reach j = if Visited d j ∧ j < k then (arrival a b d c j).1 else c j) :
    (sweep a b d left k v = some none ∧ ∃ j, Visited d j ∧ Ended a b d c j) ∨
      ∃ v', sweep a b d left k v = some (some v') ∧ v'.Fits ∧ v'.width = v.width ∧
        (∀ j, v'.reach j = if Visited d j then (arrival a b d c j).1 else c j) ∧
        ∀ j, Visited d j → k ≤ j → ¬ Ended a b d c j := by
  induction left generalizing k v with
  | zero =>
    have behind : ∀ j, Visited d j → j < k := by
      intro j on
      unfold Visited at on
      omega
    refine .inr ⟨v, rfl, fits, rfl, fun j => ?_, fun j on far => ?_⟩
    · rw [cells j]
      by_cases on : Visited d j
      · simp [on, behind j on]
      · simp [on]
    · have := behind j on
      omega
  | succ left ih =>
    have on : Visited d k := by unfold Visited; omega
    -- The diagonals next to `k` belong to the round before and are not touched in this one.
    have neighbour : ∀ j, (j = k - 1 ∨ j = k + 1) → v.get? j = some (c j) := by
      intro j next
      rw [Frontier.get?_eq_reach fits (by unfold Visited at on; omega), cells j, if_neg]
      unfold Visited at on ⊢
      omega
    have enters := advance_eq (d := d) (neighbour _ (.inl rfl)) (neighbour _ (.inr rfl))
    have inside := le_entry_of_ready ready on
    obtain ⟨v', stored, fits', width', cells'⟩ :=
      Frontier.set?_spec (k := k) (arrival a b d c k).1 fits (by unfold Visited at on; omega)
    rw [sweep_succ left enters (by omega) stored]
    by_cases ended : Ended a b d c k
    · rw [if_pos ended]
      exact .inl ⟨rfl, k, on, ended⟩
    · rw [if_neg ended]
      have next := ih (k := k + 2) v' fits' (by omega) (by omega) (by omega) (fun j => by
        rw [cells' j, cells j]
        by_cases same : j = k
        · subst same
          have : j < j + 2 := by omega
          simp [on, this]
        · by_cases visited : Visited d j
          · have before : j < k + 2 ↔ j < k := by unfold Visited at on visited; omega
            simp [same, visited, before]
          · simp [same, visited])
      rcases next with found | ⟨v'', swept, fits'', width'', cells'', rest⟩
      · exact .inl found
      · refine .inr ⟨v'', swept, fits'', by omega, cells'', fun j visited far => ?_⟩
        by_cases same : j = k
        · subst same
          exact ended
        · exact rest j visited (by unfold Visited at on visited; omega)

end Sweep

/-! ### The walk back -/

/-- The windows of the rounds so far, latest first, with the frontier that they have led to. -/
inductive Traced (a b : Array Char) : List (Array Nat) → (Int → Nat) → Prop where
  | start {c : Int → Nat} (zeros : ∀ k, c k = 0) : Traced a b [] c
  | round {earlier : List (Array Nat)} {window : Array Nat} {c c' : Int → Nat}
      (before : Traced a b earlier c) (ready : Ready a b earlier.length c)
      (shown : Shows window earlier.length c)
      (grown : ∀ k, Visited earlier.length k → c' k = (arrival a b earlier.length c k).1) :
      Traced a b (window :: earlier) c'

theorem oldSteps_append (xs ys : List Step) : oldSteps (xs ++ ys) = oldSteps xs ++ oldSteps ys := by
  simp [oldSteps]

theorem newSteps_append (xs ys : List Step) : newSteps (xs ++ ys) = newSteps xs ++ newSteps ys := by
  simp [newSteps]

/-- The characters of a text between two offsets. -/
def between (a : Array Char) (start stop : Nat) : List Char := (a.toList.take stop).drop start

theorem between_succ {a : Array Char} {start stop : Nat} (ordered : start ≤ stop)
    (inside : stop < a.size) : between a start (stop + 1) = between a start stop ++ [a[stop]] := by
  unfold between
  rw [List.take_add_one, List.drop_append_of_le_length (by simp; omega)]
  simp [inside]

theorem take_between {a : Array Char} {start stop : Nat} (ordered : start ≤ stop) :
    a.toList.take start ++ between a start stop = a.toList.take stop := by
  unfold between
  rw [show a.toList.take start = (a.toList.take stop).take start by
    rw [List.take_take, Nat.min_eq_left ordered]]
  exact List.take_append_drop _ _

/-- Keeping characters collects them as steps. -/
theorem keep_eq {a : Array Char} (start count : Nat) (steps : List Step)
    (inside : start + count ≤ a.size) :
    keep a (start + count : Nat) count steps =
      some ((between a start (start + count)).map (EditKind.equal, ·) ++ steps) := by
  induction count generalizing steps with
  | zero => simp [keep, between]
  | succ count ih =>
    have last : read a (((start + (count + 1) : Nat) : Int) - 1) = some a[start + count] := by
      have low : ¬ ((start + (count + 1) : Nat) : Int) - 1 < 0 := by omega
      have place : (((start + (count + 1) : Nat) : Int) - 1).toNat = start + count := by omega
      simp only [read, if_neg low, place]
      exact Array.getElem?_eq_getElem (by omega)
    rw [keep, last]
    have rest := ih ((.equal, a[start + count]) :: steps) (by omega)
    rw [show ((start + (count + 1) : Nat) : Int) - 1 = (start + count : Nat) by omega]
    simp only [Option.bind_eq_bind, Option.bind_some]
    rw [rest, ← Nat.add_assoc, between_succ (by omega) (by omega)]
    simp

theorem oldSteps_kept (chars : List Char) : oldSteps (chars.map (EditKind.equal, ·)) = chars := by
  induction chars with
  | nil => rfl
  | cons c chars ih => simpa [oldSteps, oldPart] using ih

theorem newSteps_kept (chars : List Char) : newSteps (chars.map (EditKind.equal, ·)) = chars := by
  induction chars with
  | nil => rfl
  | cons c chars ih => simpa [newSteps, newPart] using ih

/-- Stretches that agree character by character are the same. -/
theorem between_congr {a b : Array Char} {x y count : Nat}
    (agree : ∀ i < count, a[x + i]? = b[y + i]?) :
    between a x (x + count) = between b y (y + count) := by
  apply List.ext_getElem?
  intro i
  unfold between
  simp only [List.getElem?_drop, List.getElem?_take]
  by_cases small : i < count
  · simpa [small] using agree i small
  · simp [small]

theorem read_of_lt {a : Array Char} {i : Int} (x : Nat) (same : i = x) (inside : x < a.size) :
    read a i = some a[x] := by
  subst same
  simp [read, inside]

theorem take_succ {a : Array Char} {x : Nat} (inside : x < a.size) :
    a.toList.take (x + 1) = a.toList.take x ++ [a[x]] := by
  rw [List.take_add_one]
  simp [inside]

theorem oldSteps_cons (s : Step) (steps : List Step) :
    oldSteps (s :: steps) = oldPart s.1 [s.2] ++ oldSteps steps := rfl

theorem newSteps_cons (s : Step) (steps : List Step) :
    newSteps (s :: steps) = newPart s.1 [s.2] ++ newSteps steps := rfl

section Walk

variable {a b : Array Char} {window : Array Nat} {earlier : List (Array Nat)} {c : Int → Nat}
  {k : Int} {x y : Nat}

/-- The diagonal that round `d` comes from on its way to diagonal `k`. -/
def source (d : Nat) (c : Int → Nat) (k : Int) : Int :=
  if fromAbove d c k then k + 1 else k - 1

/-- The walk back reads in its window what the search has read in its frontier. -/
theorem backtrack_cons {d : Nat} (k' : Int) (count : Nat) (steps : List Step)
    (rounds : earlier.length = d) (shown : Shows window d c) (on : Visited d k)
    (diagonal : (x : Int) - y = k) (came : source d c k = k')
    (counted : (min (x - (c k' : Int)) (y - (c k' - k'))).toNat = count) :
    backtrack a b (window :: earlier) x y steps =
      (keep a x count steps).bind fun steps =>
        (if d = 0 then some steps
          else if (x : Int) - count = c k' then (read b (c k' - k')).map fun r => (.insert, r) :: steps
          else (read a (c k')).map fun r => (.delete, r) :: steps).bind fun steps =>
          backtrack a b earlier (c k') (c k' - k') steps := by
  subst rounds
  have looks : ∀ j : Int, j = k - 1 ∨ j = k + 1 →
      read window (j + earlier.length + 1) = some (c j) := by
    intro j next
    exact shown j (by unfold Visited at on; omega)
  have chosen := looks k' (by subst came; unfold source; split <;> simp)
  have step : (if fromAbove earlier.length c k then k + 1 else k - 1) = k' := came
  rw [backtrack]
  simp only [diagonal, Option.bind_eq_bind]
  rw [comesFromAbove_eq (looks _ (.inl rfl)) (looks _ (.inr rfl))]
  simp only [Option.bind_some, step, chosen, counted]
  congr 1
  funext steps
  by_cases first : earlier.length = 0
  · simp only [if_pos first, Option.bind_some]
  · by_cases inserted : (x : Int) - count = c k'
    · simp only [if_neg first, if_pos inserted]
      cases read b (c k' - k') <;> rfl
    · simp only [if_neg first, if_neg inserted]
      cases read a (c k') <;> rfl

/-- The first round ends the walk with all that is left of both texts. -/
theorem backtrack_first (steps : List Step) (zeros : ∀ k, c k = 0) (shown : Shows window 0 c)
    (on : Visited 0 k) (point : arrival a b 0 c k = (x, y)) (insideA : x ≤ a.size) :
    ∃ path, backtrack a b [window] x y steps = some (path ++ steps) ∧
      oldSteps path = a.toList.take x ∧ newSteps path = b.toList.take y := by
  have origin : k = 0 := by unfold Visited at on; omega
  subst origin
  have start : entry 0 c 0 = 0 := by simp [entry, fromAbove, zeros]
  have ready : Ready a b 0 c := zeros
  obtain ⟨count, atX, atY, _, agree⟩ := arrival_spec ready on
  rw [point] at atX atY
  simp only [start] at atX atY agree
  have kept := keep_eq (a := a) 0 count steps (by omega)
  have stretch := between_congr (a := a) (b := b) (x := 0) (y := 0) (by simpa using agree)
  have rounds : ([] : List (Array Nat)).length = 0 := rfl
  have unfolded := backtrack_cons (a := a) (b := b) (x := x) (y := y) 1 count steps rounds shown on
    (by omega) (by simp [source, fromAbove]) (by simp only [zeros]; omega)
  rw [show (x : Int) = (0 + count : Nat) by omega, kept] at unfolded
  refine ⟨(between a 0 (0 + count)).map (EditKind.equal, ·), ?_, ?_, ?_⟩
  · rw [show (x : Int) = (0 + count : Nat) by omega, unfolded]
    rfl
  · rw [oldSteps_kept, show x = 0 + count by omega]
    simp [between]
  · rw [newSteps_kept, stretch, show y = 0 + count by omega]
    simp [between]

/-- A later round comes from a point of the round before, with one change and the characters kept
behind it in between. -/
theorem backtrack_later {e : Nat} (steps : List Step) (rounds : earlier.length = e + 1)
    (settled : Settled a b e c) (shown : Shows window (e + 1) c) (on : Visited (e + 1) k)
    (point : arrival a b (e + 1) c k = (x, y)) (insideA : x ≤ a.size) (insideB : y ≤ b.size) :
    ∃ (k' : Int) (x' y' : Nat) (part : List Step), Visited e k' ∧ c k' = x' ∧ (x' : Int) - y' = k' ∧
      x' ≤ x ∧ y' ≤ y ∧
      backtrack a b (window :: earlier) x y steps = backtrack a b earlier x' y' (part ++ steps) ∧
      a.toList.take x' ++ oldSteps part = a.toList.take x ∧
      b.toList.take y' ++ newSteps part = b.toList.take y := by
  have ready : Ready a b (e + 1) c := settled
  obtain ⟨count, atX, atY, _, agree⟩ := arrival_spec ready on
  rw [point] at atX atY
  simp only at atX atY
  have inside := le_entry_of_ready ready on
  generalize enter : entry (e + 1) c k = x₀ at *
  obtain ⟨y₀, atY₀⟩ : ∃ y₀ : Nat, (y₀ : Int) = x₀ - k := ⟨((x₀ : Int) - k).toNat, by omega⟩
  rw [show ((x₀ : Int) - k).toNat = y₀ by omega] at agree
  have kept := keep_eq (a := a) x₀ count steps (by omega)
  have stretch := between_congr agree
  rw [show x₀ + count = x by omega] at kept stretch
  rw [show y₀ + count = y by omega] at stretch
  have keptA : a.toList.take x₀ ++ between a x₀ x = a.toList.take x := take_between (by omega)
  have keptB : b.toList.take y₀ ++ between b y₀ y = b.toList.take y := take_between (by omega)
  rcases entry_cases (c := c) on with ⟨came, entered, before⟩ | ⟨came, entered, before⟩
  · -- An insertion: the text before has not moved.
    have insideBefore := settled.inside _ before
    obtain ⟨y', rfl⟩ : ∃ y', y₀ = y' + 1 := ⟨y₀ - 1, by omega⟩
    have unfolded := backtrack_cons (a := a) (b := b) (x := x) (y := y) (k + 1) count steps rounds
      shown on (by omega) (by simp [source, came]) (by omega)
    have inserted : (x : Int) - count = c (k + 1) := by omega
    have char := read_of_lt (a := b) (i := c (k + 1) - (k + 1)) y' (by omega) (by omega)
    simp only [kept, Option.bind_some, Nat.add_one_ne_zero, if_false, inserted, if_true, char,
      Option.map_some] at unfolded
    refine ⟨k + 1, x₀, y', (.insert, b[y']) :: (between a x₀ x).map (EditKind.equal, ·), before,
      by omega, by omega, by omega, by omega, ?_, ?_, ?_⟩
    · rw [unfolded, show ((c (k + 1) : Int)) = x₀ by omega, show (x₀ : Int) - (k + 1) = y' by omega]
      rfl
    · rw [← keptA, oldSteps_cons, oldSteps_kept]
      rfl
    · rw [← keptB, newSteps_cons, newSteps_kept, stretch, take_succ (by omega)]
      simp [newPart]
  · -- A deletion: the text after has not moved.
    have insideBefore := settled.inside _ before
    obtain ⟨x', rfl⟩ : ∃ x', x₀ = x' + 1 := ⟨x₀ - 1, by omega⟩
    have unfolded := backtrack_cons (a := a) (b := b) (x := x) (y := y) (k - 1) count steps rounds
      shown on (by omega) (by simp [source, came]) (by omega)
    have deleted : ¬ (x : Int) - count = c (k - 1) := by omega
    have char := read_of_lt (a := a) (i := c (k - 1)) x' (by omega) (by omega)
    simp only [kept, Option.bind_some, Nat.add_one_ne_zero, if_false, deleted, char,
      Option.map_some] at unfolded
    refine ⟨k - 1, x', y₀, (.delete, a[x']) :: (between a (x' + 1) x).map (EditKind.equal, ·),
      before, by omega, by omega, by omega, by omega, ?_, ?_, ?_⟩
    · rw [unfolded, show ((c (k - 1) : Int)) = x' by omega, show (x' : Int) - (k - 1) = y₀ by omega]
      rfl
    · rw [← keptA, oldSteps_cons, oldSteps_kept, take_succ (by omega)]
      simp [oldPart]
    · rw [← keptB, newSteps_cons, newSteps_kept, stretch]
      rfl

/-- The walk back from a point collects steps that spell both texts up to that point. -/
theorem backtrack_spells (traced : Traced a b earlier c) (steps : List Step)
    (ready : Ready a b earlier.length c) (shown : Shows window earlier.length c)
    (on : Visited earlier.length k) (point : arrival a b earlier.length c k = (x, y))
    (insideA : x ≤ a.size) (insideB : y ≤ b.size) :
    ∃ path, backtrack a b (window :: earlier) x y steps = some (path ++ steps) ∧
      oldSteps path = a.toList.take x ∧ newSteps path = b.toList.take y := by
  induction traced generalizing window k x y steps with
  | start zeros => exact backtrack_first steps zeros shown on point insideA
  | @round earlier window' c c' before readyBefore shownBefore grown ih =>
    have rounds : (window' :: earlier).length = earlier.length + 1 := rfl
    obtain ⟨k', x', y', part, visited, atX, atY, _, _, stepped, old, new⟩ :=
      backtrack_later steps rounds ready shown on point insideA insideB
    have pointBefore : arrival a b earlier.length c k' = (x', y') := by
      obtain ⟨count, first, second, _⟩ := arrival_spec readyBefore visited
      have same := grown k' visited
      exact Prod.ext (by omega) (by omega)
    obtain ⟨path, walked, oldPath, newPath⟩ :=
      ih (part ++ steps) readyBefore shownBefore visited pointBefore (by omega) (by omega)
    refine ⟨path ++ part, ?_, ?_, ?_⟩
    · rw [stepped, walked, List.append_assoc]
    · rw [oldSteps_append, oldPath, old]
    · rw [newSteps_append, newPath, new]

end Walk

/-! ### The whole search -/

/-- The search never reads outside its data, and the steps it finds spell both texts. -/
theorem search_spells {a b : Array Char} (left d : Nat) (v : Frontier) (trace : List (Array Nat))
    (fits : v.Fits) (room : d + left < v.width) (rounds : trace.length = d)
    (ready : Ready a b d v.reach) (traced : Traced a b trace v.reach) :
    ∃ found, search a b left d v trace = some found ∧
      ∀ steps, found = some steps → oldSteps steps = a.toList ∧ newSteps steps = b.toList := by
  induction left generalizing d v trace with
  | zero => exact ⟨none, rfl, by simp⟩
  | succ left ih =>
    obtain ⟨window, opened, shown⟩ := window?_spec (d := d) fits (by omega)
    have swept := sweep_spec ready (d + 1) v fits (k := -d) (by omega) (by omega) (by omega)
      (fun j => by
        rw [if_neg]
        unfold Visited
        omega)
    subst rounds
    rw [search, opened]
    simp only [Option.bind_eq_bind, Option.bind_some]
    rcases swept with ⟨ended, k, on, atEnd⟩ | ⟨v', grown, fits', width', cells, notEnded⟩
    · have corner := arrival_of_ended ready on atEnd
      obtain ⟨path, walked, old, new⟩ :=
        backtrack_spells traced [] ready shown on corner (Nat.le_refl _) (Nat.le_refl _)
      rw [ended, Option.bind_some]
      refine ⟨some (path ++ []), by rw [walked]; rfl, ?_⟩
      rintro steps ⟨⟩
      rw [List.append_nil, old, new, ← Array.length_toList, ← Array.length_toList,
        List.take_length, List.take_length]
      exact ⟨rfl, rfl⟩
    · rw [grown, Option.bind_some]
      have all : ∀ k, Visited trace.length k → ¬ Ended a b trace.length v.reach k := fun k on =>
        notEnded k on (by unfold Visited at on; omega)
      have here : ∀ k, Visited trace.length k →
          v'.reach k = (arrival a b trace.length v.reach k).1 := fun k on => by
        rw [cells k, if_pos on]
      have kept : ∀ k, VisitedBefore trace.length k → v'.reach k = v.reach k := fun k before => by
        rw [cells k, if_neg]
        unfold Visited VisitedBefore at *
        omega
      exact ih (trace.length + 1) v' (window :: trace) fits' (by omega) rfl
        (settled_round ready here kept all) (.round traced ready shown here)

/-- The search answers for all texts; if it finds steps, they spell both. -/
theorem shortestEdit?_spells (a b : Array Char) :
    ∃ found, shortestEdit? a b = some found ∧
      ∀ steps, found = some steps → oldSteps steps = a.toList ∧ newSteps steps = b.toList := by
  have zeros : ∀ k, (Frontier.start (min (a.size + b.size) maxDistance)).reach k = 0 :=
    Frontier.reach_start _
  exact search_spells _ 0 _ [] (Frontier.fits_start _) (by simp [Frontier.start]) rfl zeros
    (.start zeros)

end GrammarIndex.Diff

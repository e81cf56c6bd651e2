import GrammarIndex.Proofs.Edit.Chunks

/-!
The rounds of the greedy search for a shortest list of steps.

Before each round the frontier holds, for every diagonal of the last two rounds, the furthest point
reached there. `Settled` says what is known of these points: no point is the end, and one that has
left the grid was already as far on the diagonal it came from. So the search can end in the corner
only, every read is inside its array, and walking the rounds back spells both texts.
-/
namespace GrammarIndex.Diff

/-! ### One round, as a function of the round before -/

/-- The diagonals that round `d` visits. -/
def Visited (d : Nat) (k : Int) : Prop := k.natAbs ≤ d ∧ ((d : Int) + k) % 2 = 0

/-- The diagonals that the round before round `d` has visited. -/
def VisitedBefore (d : Nat) (k : Int) : Prop := k.natAbs < d ∧ ((d : Int) + k) % 2 = 1

instance (d : Nat) (k : Int) : Decidable (Visited d k) := inferInstanceAs (Decidable (_ ∧ _))

theorem visitedBefore_of_visited {e : Nat} {k : Int} (on : Visited e k) :
    VisitedBefore (e + 1) k := by
  unfold Visited at on
  unfold VisitedBefore
  omega

theorem visited_of_visitedBefore {e : Nat} {k : Int} (on : VisitedBefore (e + 1) k) :
    Visited e k := by
  unfold VisitedBefore at on
  unfold Visited
  omega

/-- Whether diagonal `k` is entered from the diagonal above it. -/
def fromAbove (d : Nat) (c : Int → Nat) (k : Int) : Bool :=
  if k = -d then true else if k = d then false else decide (c (k - 1) < c (k + 1))

/-- Where round `d` enters diagonal `k`. -/
def entry (d : Nat) (c : Int → Nat) (k : Int) : Nat :=
  if fromAbove d c k then c (k + 1) else c (k - 1) + 1

/-- The furthest point of round `d` on diagonal `k`. -/
def arrival (a b : Array Char) (d : Nat) (c : Int → Nat) (k : Int) : Nat × Nat :=
  slide a b (entry d c k) (entry d c k - k).toNat

/-- Whether round `d` reaches the end on diagonal `k`. -/
def Ended (a b : Array Char) (d : Nat) (c : Int → Nat) (k : Int) : Prop :=
  a.size ≤ (arrival a b d c k).1 ∧ b.size ≤ (arrival a b d c k).2

instance (a b : Array Char) (d : Nat) (c : Int → Nat) (k : Int) : Decidable (Ended a b d c k) :=
  inferInstanceAs (Decidable (_ ∧ _))

/-- A diagonal is followed while the texts agree, and never beyond the end of either. -/
theorem slide_spec (a b : Array Char) (x y : Nat) :
    ∃ count, slide a b x y = (x + count, y + count) ∧
      (0 < count → x + count ≤ a.size ∧ y + count ≤ b.size) ∧
      ∀ i < count, a[x + i]? = b[y + i]? := by
  fun_induction slide a b x y with
  | case1 x y inside same ih =>
    obtain ⟨count, found, bounds, agree⟩ := ih
    refine ⟨count + 1, by rw [found]; simp; omega, fun _ => ?_, fun i small => ?_⟩
    · by_cases more : 0 < count
      · have := bounds more
        omega
      · omega
    · cases i with
      | zero => simpa [inside.1, inside.2] using same
      | succ i =>
        have next := agree i (by omega)
        rw [show x + (i + 1) = x + 1 + i by omega, show y + (i + 1) = y + 1 + i by omega]
        exact next
  | case2 x y inside differ => exact ⟨0, rfl, by simp, by simp⟩
  | case3 x y outside => exact ⟨0, rfl, by simp, by simp⟩

/-- The points of round `e`, with those of the round before, when the end is not yet reached. The
last four facts tie a point to its neighbours in the round before. -/
structure Settled (a b : Array Char) (e : Nat) (c : Int → Nat) : Prop where
  inside : ∀ k, Visited e k → k ≤ c k
  short : ∀ k, Visited e k → ¬ (a.size ≤ c k ∧ (b.size : Int) ≤ c k - k)
  wide : ∀ k, Visited e k → a.size < c k → VisitedBefore e (k - 1) ∧ c k ≤ c (k - 1) + 1
  tall : ∀ k, Visited e k → (b.size : Int) < c k - k → VisitedBefore e (k + 1) ∧ c k ≤ c (k + 1)
  above : ∀ k, Visited e k → VisitedBefore e (k + 1) → c (k + 1) ≤ c k
  below : ∀ k, Visited e k → VisitedBefore e (k - 1) → c (k - 1) + 1 ≤ c k

/-- What holds before round `d`. -/
def Ready (a b : Array Char) : Nat → (Int → Nat) → Prop
  | 0, c => ∀ k, c k = 0
  | e + 1, c => Settled a b e c

theorem fromAbove_bottom {d : Nat} (c : Int → Nat) {k : Int} (bottom : k = -d) :
    fromAbove d c k = true := by
  simp only [fromAbove, if_pos bottom]

theorem fromAbove_top {e : Nat} (c : Int → Nat) {k : Int} (top : k = (e + 1 : Nat)) :
    fromAbove (e + 1) c k = false := by
  have notBottom : k ≠ -((e + 1 : Nat) : Int) := by omega
  simp only [fromAbove, if_neg notBottom, if_pos top]

theorem fromAbove_between {d : Nat} (c : Int → Nat) {k : Int} (notBottom : k ≠ -d)
    (notTop : k ≠ d) : fromAbove d c k = true ↔ c (k - 1) < c (k + 1) := by
  simp only [fromAbove, if_neg notBottom, if_neg notTop, decide_eq_true_eq]

/-- A diagonal is entered from a point of the round before. -/
theorem entry_cases {e : Nat} {c : Int → Nat} {k : Int} (on : Visited (e + 1) k) :
    (fromAbove (e + 1) c k = true ∧ entry (e + 1) c k = c (k + 1) ∧ Visited e (k + 1)) ∨
      (fromAbove (e + 1) c k = false ∧ entry (e + 1) c k = c (k - 1) + 1 ∧ Visited e (k - 1)) := by
  unfold Visited at on ⊢
  cases came : fromAbove (e + 1) c k with
  | true =>
    have notTop : k ≠ (e + 1 : Nat) := fun top => by simp [fromAbove_top c top] at came
    exact .inl ⟨rfl, by simp [entry, came], by omega⟩
  | false =>
    have notBottom : k ≠ -(e + 1 : Nat) := fun bottom => by simp [fromAbove_bottom c bottom] at came
    exact .inr ⟨rfl, by simp [entry, came], by omega⟩

/-- A diagonal is entered as far out as the round before allows. -/
theorem le_entry_above {e : Nat} {c : Int → Nat} {k : Int} (above : Visited e (k + 1)) :
    c (k + 1) ≤ entry (e + 1) c k := by
  unfold entry
  split
  case isTrue => exact Nat.le_refl _
  case isFalse came =>
    have notBottom : k ≠ -(e + 1 : Nat) := fun bottom => came (fromAbove_bottom c bottom)
    have notTop : k ≠ (e + 1 : Nat) := by unfold Visited at above; omega
    rw [fromAbove_between c notBottom notTop] at came
    omega

theorem le_entry_below {e : Nat} {c : Int → Nat} {k : Int} (below : Visited e (k - 1)) :
    c (k - 1) + 1 ≤ entry (e + 1) c k := by
  unfold entry
  split
  case isTrue came =>
    have notBottom : k ≠ -(e + 1 : Nat) := by unfold Visited at below; omega
    have notTop : k ≠ (e + 1 : Nat) := fun top => by simp [fromAbove_top c top] at came
    rw [fromAbove_between c notBottom notTop] at came
    omega
  case isFalse => exact Nat.le_refl _

/-- A point to the right of the grid has a neighbour two diagonals below that is as far. -/
theorem Settled.wide_neighbour {a b : Array Char} {e : Nat} {c : Int → Nat} {k : Int}
    (settled : Settled a b e c) (on : Visited e (k + 1)) (beyond : a.size < c (k + 1)) :
    Visited e (k - 1) ∧ c (k + 1) ≤ c (k - 1) + 1 := by
  obtain ⟨earlier, near⟩ := settled.wide _ on beyond
  rw [show k + 1 - 1 = k by omega] at earlier near
  have below : Visited e (k - 1) := by unfold Visited VisitedBefore at *; omega
  have up := settled.above (k - 1) below (by rwa [show k - 1 + 1 = k by omega])
  rw [show k - 1 + 1 = k by omega] at up
  exact ⟨below, by omega⟩

/-- A point below the grid has a neighbour two diagonals above that is as far. -/
theorem Settled.tall_neighbour {a b : Array Char} {e : Nat} {c : Int → Nat} {k : Int}
    (settled : Settled a b e c) (on : Visited e (k - 1))
    (beyond : (b.size : Int) < c (k - 1) - (k - 1)) :
    Visited e (k + 1) ∧ c (k - 1) + 1 ≤ c (k + 1) := by
  obtain ⟨earlier, near⟩ := settled.tall _ on beyond
  rw [show k - 1 + 1 = k by omega] at earlier near
  have above : Visited e (k + 1) := by unfold Visited VisitedBefore at *; omega
  have down := settled.below (k + 1) above (by rwa [show k + 1 - 1 = k by omega])
  rw [show k + 1 - 1 = k by omega] at down
  exact ⟨above, by omega⟩

section Round

variable {a b : Array Char} {d : Nat} {c : Int → Nat} {k : Int}

theorem le_entry_of_ready (ready : Ready a b d c) (on : Visited d k) : k ≤ entry d c k := by
  cases d with
  | zero =>
    have : k = 0 := by unfold Visited at on; omega
    omega
  | succ e =>
    have settled : Settled a b e c := ready
    rcases entry_cases (c := c) on with ⟨_, enter, before⟩ | ⟨_, enter, before⟩
    · have := settled.inside _ before
      omega
    · have := settled.inside _ before
      omega

/-- The point on a diagonal, with the run of kept characters that leads to it. -/
theorem arrival_spec (ready : Ready a b d c) (on : Visited d k) :
    ∃ count : Nat, (arrival a b d c k).1 = entry d c k + count ∧
      ((arrival a b d c k).2 : Int) = entry d c k - k + count ∧
      (0 < count → entry d c k + count ≤ a.size ∧ (entry d c k : Int) - k + count ≤ b.size) ∧
      ∀ i < count, a[entry d c k + i]? = b[(entry d c k - k).toNat + i]? := by
  have inside := le_entry_of_ready ready on
  obtain ⟨count, found, bounds, agree⟩ := slide_spec a b (entry d c k) (entry d c k - k).toNat
  refine ⟨count, ?_, ?_, fun more => ?_, agree⟩
  · rw [arrival, found]
  · rw [arrival, found]
    simp only
    omega
  · have := bounds more
    omega

/-- The search ends in the corner and nowhere else. -/
theorem arrival_of_ended (ready : Ready a b d c) (on : Visited d k)
    (ended : Ended a b d c k) : arrival a b d c k = (a.size, b.size) := by
  obtain ⟨count, atX, atY, bounds, _⟩ := arrival_spec ready on
  unfold Ended at ended
  have corner : (arrival a b d c k).1 = a.size ∧ (arrival a b d c k).2 = b.size := by
    by_cases slid : 0 < count
    · have := bounds slid
      omega
    · cases d with
      | zero =>
        have start : entry 0 c k = 0 := by
          have origin : k = 0 := by unfold Visited at on; omega
          have zeros : ∀ k, c k = 0 := ready
          simp [entry, fromAbove, origin, zeros]
        have origin : k = 0 := by unfold Visited at on; omega
        omega
      | succ e =>
        have settled : Settled a b e c := ready
        -- Had the point left the grid, a neighbour of the round before would have been the end.
        rcases entry_cases (c := c) on with ⟨_, enter, before⟩ | ⟨_, enter, before⟩
        · have short := settled.short _ before
          by_cases beyond : a.size < c (k + 1)
          · obtain ⟨below, near⟩ := settled.wide_neighbour before beyond
            have shortBelow := settled.short _ below
            omega
          · omega
        · have short := settled.short _ before
          by_cases beyond : (b.size : Int) < c (k - 1) - (k - 1)
          · obtain ⟨above, near⟩ := settled.tall_neighbour before beyond
            have shortAbove := settled.short _ above
            omega
          · omega
  exact Prod.ext corner.1 corner.2

/-- A point outside the grid was entered there: nothing is kept behind an end. -/
theorem arrival_eq_entry (ready : Ready a b d c) (on : Visited d k)
    (outside : a.size < (arrival a b d c k).1 ∨ (b.size : Int) < (arrival a b d c k).1 - k) :
    (arrival a b d c k).1 = entry d c k := by
  obtain ⟨count, atX, _, bounds, _⟩ := arrival_spec ready on
  by_cases slid : 0 < count
  · have := bounds slid
    omega
  · omega

/-- A round that does not reach the end leaves its points settled. -/
theorem settled_round {c' : Int → Nat} (ready : Ready a b d c)
    (here : ∀ k, Visited d k → c' k = (arrival a b d c k).1)
    (kept : ∀ k, VisitedBefore d k → c' k = c k)
    (notEnded : ∀ k, Visited d k → ¬ Ended a b d c k) : Settled a b d c' := by
  unfold Ended at notEnded
  have origin : d = 0 → ∀ k, Visited d k → entry d c k = 0 ∧ k = 0 := by
    rintro rfl k on
    have zeros : ∀ k, c k = 0 := ready
    have : k = 0 := by unfold Visited at on; omega
    simp [entry, fromAbove, zeros, this]
  refine ⟨fun k on => ?_, fun k on => ?_, fun k on beyond => ?_, fun k on beyond => ?_,
    fun k on earlier => ?_, fun k on earlier => ?_⟩
  · obtain ⟨count, atX, _⟩ := arrival_spec ready on
    have := le_entry_of_ready ready on
    rw [here k on]
    omega
  · obtain ⟨count, atX, atY, _⟩ := arrival_spec ready on
    have := notEnded k on
    rw [here k on]
    omega
  · rw [here k on] at beyond ⊢
    have entered := arrival_eq_entry ready on (.inl beyond)
    rw [entered] at beyond ⊢
    cases d with
    | zero => have := origin rfl k on; omega
    | succ e =>
      have settled : Settled a b e c := ready
      rcases entry_cases (c := c) on with ⟨_, enter, before⟩ | ⟨_, enter, before⟩
      · obtain ⟨below, near⟩ := settled.wide_neighbour before (by omega)
        have visited := visitedBefore_of_visited below
        exact ⟨visited, by rw [kept _ visited]; omega⟩
      · have visited := visitedBefore_of_visited before
        exact ⟨visited, by rw [kept _ visited]; omega⟩
  · rw [here k on] at beyond ⊢
    have entered := arrival_eq_entry ready on (.inr beyond)
    rw [entered] at beyond ⊢
    cases d with
    | zero => have := origin rfl k on; omega
    | succ e =>
      have settled : Settled a b e c := ready
      rcases entry_cases (c := c) on with ⟨_, enter, before⟩ | ⟨_, enter, before⟩
      · have visited := visitedBefore_of_visited before
        exact ⟨visited, by rw [kept _ visited]; omega⟩
      · obtain ⟨above, near⟩ := settled.tall_neighbour before (by omega)
        have visited := visitedBefore_of_visited above
        exact ⟨visited, by rw [kept _ visited]; omega⟩
  · obtain ⟨count, atX, _⟩ := arrival_spec ready on
    cases d with
    | zero => unfold VisitedBefore at earlier; omega
    | succ e =>
      have := le_entry_above (c := c) (visited_of_visitedBefore earlier)
      rw [here k on, kept _ earlier]
      omega
  · obtain ⟨count, atX, _⟩ := arrival_spec ready on
    cases d with
    | zero => unfold VisitedBefore at earlier; omega
    | succ e =>
      have := le_entry_below (c := c) (visited_of_visitedBefore earlier)
      rw [here k on, kept _ earlier]
      omega

end Round

end GrammarIndex.Diff

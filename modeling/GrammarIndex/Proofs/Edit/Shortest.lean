import GrammarIndex.Proofs.Edit.RoundTrip
import Mathlib.Algebra.GroupWithZero.Nat
import Mathlib.Data.List.Sublists

/-!
The chunks of two texts change as little as can be.

The distance of two texts is told from a longest common subsequence. No list of chunks changes fewer
characters, and a common subsequence is a path through the grid of both texts. Before each round the
search is as far on every diagonal as any path with that many changes, so it ends in the round whose
number is the distance, unless that is out of its reach. Setting aside what the texts share at both
ends costs nothing.
-/
open scoped List

namespace GrammarIndex.Diff

/-! ### Distance -/

/-- The subsequences of a text that are subsequences of another, too. -/
def commonSubsequences (a b : List Char) : List (List Char) := a.sublists.filter fun s => s <+ b

/-- The length of a longest common subsequence. -/
def lcsLength (a b : List Char) : Nat :=
  (commonSubsequences a b).foldr (fun s longest => max s.length longest) 0

/-- How many characters change if a longest common subsequence is kept. -/
def distance (a b : List Char) : Nat := a.length + b.length - 2 * lcsLength a b

theorem mem_commonSubsequences {a b s : List Char} :
    s ∈ commonSubsequences a b ↔ s <+ a ∧ s <+ b := by
  simp [commonSubsequences]

theorem length_le_longest {l : List (List Char)} {s : List Char} (member : s ∈ l) :
    s.length ≤ l.foldr (fun s longest => max s.length longest) 0 := by
  induction l with
  | nil => cases member
  | cons t l ih =>
    rw [List.foldr_cons]
    rcases List.mem_cons.1 member with rfl | member
    · exact Nat.le_max_left _ _
    · exact Nat.le_trans (ih member) (Nat.le_max_right _ _)

theorem exists_longest {l : List (List Char)} (some_ : l ≠ []) :
    ∃ s ∈ l, s.length = l.foldr (fun s longest => max s.length longest) 0 := by
  induction l with
  | nil => exact absurd rfl some_
  | cons t l ih =>
    rw [List.foldr_cons]
    by_cases last : l = []
    · exact ⟨t, by simp, by simp [last]⟩
    · obtain ⟨s, member, longest⟩ := ih last
      rcases Nat.le_total t.length s.length with shorter | longer
      · exact ⟨s, by simp [member], by rw [← longest, Nat.max_eq_right shorter]⟩
      · exact ⟨t, by simp, by rw [← longest, Nat.max_eq_left longer]⟩

theorem length_le_lcsLength {a b s : List Char} (left : s <+ a) (right : s <+ b) :
    s.length ≤ lcsLength a b :=
  length_le_longest (mem_commonSubsequences.2 ⟨left, right⟩)

theorem exists_lcs (a b : List Char) : ∃ s, s <+ a ∧ s <+ b ∧ s.length = lcsLength a b := by
  have empty : [] ∈ commonSubsequences a b :=
    mem_commonSubsequences.2 ⟨List.nil_sublist a, List.nil_sublist b⟩
  obtain ⟨s, member, longest⟩ := exists_longest (List.ne_nil_of_mem empty)
  obtain ⟨left, right⟩ := mem_commonSubsequences.1 member
  exact ⟨s, left, right, longest⟩

/-! ### Changes -/

/-- The number of characters that a run of one kind changes. -/
def cost (kind : EditKind) (chars : List Char) : Nat := if kind = .equal then 0 else chars.length

/-- The number of characters that chunks delete or insert. -/
def changes (chunks : List Chunk) : Nat := (chunks.map fun c => cost c.kind c.chars).sum

/-- The number of steps that delete or insert. -/
def changedSteps (steps : List Step) : Nat := steps.countP fun s => s.1 ≠ .equal

@[simp] theorem changedSteps_nil : changedSteps [] = 0 := rfl

@[simp] theorem changedSteps_cons (kind : EditKind) (c : Char) (steps : List Step) :
    changedSteps ((kind, c) :: steps) = changedSteps steps + if kind = .equal then 0 else 1 := by
  simp [changedSteps, List.countP_cons]

theorem changedSteps_append (first second : List Step) :
    changedSteps (first ++ second) = changedSteps first + changedSteps second :=
  List.countP_append

theorem changes_cons (c : Chunk) (chunks : List Chunk) :
    changes (c :: chunks) = cost c.kind c.chars + changes chunks := by
  simp [changes]

theorem changes_prepend (kind : EditKind) (chars : List Char) (chunks : List Chunk) :
    changes (prepend kind chars chunks) = cost kind chars + changes chunks := by
  unfold prepend
  split
  · simp [cost]
  · rw [changes_cons]
  · split
    case isTrue joined =>
      rw [changes_cons, changes_cons, joined, cost, cost, cost]
      split <;> simp [Nat.add_assoc]
    case isFalse => rw [changes_cons]

theorem changes_ofSteps (steps : List Step) (chunks : List Chunk) :
    changes (steps.foldr (fun s rest => prepend s.1 [s.2] rest) chunks) =
      changedSteps steps + changes chunks := by
  induction steps with
  | nil => simp
  | cons s steps ih =>
    obtain ⟨kind, c⟩ := s
    rw [List.foldr_cons, changes_prepend, ih, changedSteps_cons, cost]
    split
    · omega
    · rw [List.length_singleton]
      omega

/-- The characters that chunks keep. -/
def keptChars (chunks : List Chunk) : List Char :=
  chunks.flatMap fun c => if c.kind = .equal then c.chars else []

/-- What is kept is common to both texts, and the rest of both is changed. -/
theorem keptChars_spec (chunks : List Chunk) :
    keptChars chunks <+ oldChars chunks ∧ keptChars chunks <+ newChars chunks ∧
      (oldChars chunks).length + (newChars chunks).length =
        changes chunks + 2 * (keptChars chunks).length := by
  induction chunks with
  | nil => exact ⟨List.nil_sublist _, List.nil_sublist _, rfl⟩
  | cons c chunks ih =>
    obtain ⟨old, new, size⟩ := ih
    obtain ⟨kind, chars⟩ := c
    rw [changes_cons]
    have keptCons : keptChars (⟨kind, chars⟩ :: chunks) =
        (if kind = .equal then chars else []) ++ keptChars chunks := rfl
    have oldCons : oldChars (⟨kind, chars⟩ :: chunks) = oldPart kind chars ++ oldChars chunks := rfl
    have newCons : newChars (⟨kind, chars⟩ :: chunks) = newPart kind chars ++ newChars chunks := rfl
    rw [keptCons, oldCons, newCons]
    cases kind with
    | equal =>
      refine ⟨old.append_left chars, new.append_left chars, ?_⟩
      simp only [oldPart, newPart, cost, reduceCtorEq, if_true, if_false, List.length_append]
      omega
    | delete =>
      refine ⟨old.trans (List.sublist_append_right chars _), new, ?_⟩
      simp only [oldPart, newPart, cost, reduceCtorEq, if_true, if_false, List.length_append,
        List.length_nil]
      omega
    | insert =>
      refine ⟨old, new.trans (List.sublist_append_right chars _), ?_⟩
      simp only [oldPart, newPart, cost, reduceCtorEq, if_true, if_false, List.length_append,
        List.length_nil]
      omega

/-- No chunks change less than the distance of the texts they spell. -/
theorem distance_le_changes (chunks : List Chunk) :
    distance (oldChars chunks) (newChars chunks) ≤ changes chunks := by
  obtain ⟨old, new, size⟩ := keptChars_spec chunks
  have most := length_le_lcsLength old new
  unfold distance
  omega

/-- Keeping a common subsequence, one text turns into the other in single steps. -/
theorem exists_steps {a b s : List Char} (left : s <+ a) (right : s <+ b) :
    ∃ steps, oldSteps steps = a ∧ newSteps steps = b ∧
      changedSteps steps + 2 * s.length = a.length + b.length := by
  have inserted : ∀ chars : List Char, oldSteps (chars.map (EditKind.insert, ·)) = [] ∧
      newSteps (chars.map (EditKind.insert, ·)) = chars ∧
      changedSteps (chars.map (EditKind.insert, ·)) = chars.length := by
    intro chars
    induction chars with
    | nil => exact ⟨rfl, rfl, rfl⟩
    | cons c chars ih =>
      obtain ⟨old, new, size⟩ := ih
      refine ⟨old, ?_, ?_⟩
      · rw [List.map_cons, newSteps_cons, new]
        rfl
      · rw [List.map_cons, changedSteps_cons, size]
        rfl
  induction left generalizing b with
  | slnil =>
    obtain ⟨old, new, size⟩ := inserted b
    exact ⟨_, old, new, by simpa using size⟩
  | @cons s l c _ ih =>
    obtain ⟨steps, old, new, size⟩ := ih right
    refine ⟨(.delete, c) :: steps, ?_, new, ?_⟩
    · rw [oldSteps_cons, old]
      rfl
    · simp only [changedSteps_cons, reduceCtorEq, if_false, List.length_cons]
      omega
  | @cons_cons s l c _ ih =>
    obtain ⟨before, behind, rfl, listed, rest⟩ := List.cons_sublist_iff.1 right
    obtain ⟨skipped, more, rfl⟩ := List.append_of_mem listed
    obtain ⟨steps, old, new, size⟩ := ih (rest.trans (List.sublist_append_right more behind))
    obtain ⟨oldSkipped, newSkipped, sizeSkipped⟩ := inserted skipped
    refine ⟨skipped.map (EditKind.insert, ·) ++ (.equal, c) :: steps, ?_, ?_, ?_⟩
    · rw [oldSteps_append, oldSkipped, oldSteps_cons, old]
      rfl
    · rw [newSteps_append, newSkipped, newSteps_cons, new]
      simp [newPart]
    · simp only [changedSteps_append, sizeSkipped, changedSteps_cons, if_true, List.length_append,
        List.length_cons] at size ⊢
      omega

/-! ### Paths -/

/-- A way from the start of both texts to a point, with a number of changes. -/
inductive Path (a b : Array Char) : (d x y : Nat) → Prop where
  | start : Path a b 0 0 0
  | keep {d x y : Nat} (before : Path a b d x y) (insideA : x < a.size) (insideB : y < b.size)
      (same : a[x]? = b[y]?) : Path a b d (x + 1) (y + 1)
  | delete {d x y : Nat} (before : Path a b d x y) (insideA : x < a.size) : Path a b (d + 1) (x + 1) y
  | insert {d x y : Nat} (before : Path a b d x y) (insideB : y < b.size) : Path a b (d + 1) x (y + 1)

namespace Path

variable {a b : Array Char} {d x y : Nat}

theorem inside (path : Path a b d x y) : x ≤ a.size ∧ y ≤ b.size := by
  induction path with
  | start => omega
  | keep _ _ _ _ ih => omega
  | delete _ _ ih => omega
  | insert _ _ ih => omega

theorem visited (path : Path a b d x y) : Visited d ((x : Int) - y) := by
  unfold Visited
  induction path with
  | start => decide
  | keep _ _ _ _ ih => omega
  | delete _ _ ih => omega
  | insert _ _ ih => omega

theorem read_of_drop {a : Array Char} {c : Char} {rest : List Char} (x : Nat)
    (behind : a.toList.drop x = c :: rest) :
    x < a.size ∧ a[x]? = some c ∧ a.toList.drop (x + 1) = rest := by
  have first := congrArg (·[0]?) behind
  simp only [List.getElem?_drop, Nat.add_zero, List.getElem?_cons_zero, Array.getElem?_toList] at first
  refine ⟨(Array.getElem?_eq_some_iff.1 first).1, first, ?_⟩
  rw [← List.drop_drop, behind]
  rfl

/-- Steps that spell what is left of both texts lead to their end. -/
theorem along {steps : List Step} (path : Path a b d x y)
    (old : a.toList.drop x = oldSteps steps) (new : b.toList.drop y = newSteps steps) :
    Path a b (d + changedSteps steps) a.size b.size := by
  induction steps generalizing d x y with
  | nil =>
    obtain ⟨insideA, insideB⟩ := path.inside
    have endA : a.size ≤ x := by simpa using List.drop_eq_nil_iff.1 old
    have endB : b.size ≤ y := by simpa using List.drop_eq_nil_iff.1 new
    obtain rfl : x = a.size := Nat.le_antisymm insideA endA
    obtain rfl : y = b.size := Nat.le_antisymm insideB endB
    exact path
  | cons s steps ih =>
    obtain ⟨kind, c⟩ := s
    rw [oldSteps_cons] at old
    rw [newSteps_cons] at new
    cases kind with
    | equal =>
      obtain ⟨insideA, readA, oldRest⟩ := read_of_drop x old
      obtain ⟨insideB, readB, newRest⟩ := read_of_drop y new
      have step := path.keep insideA insideB (readA.trans readB.symm)
      simpa [changedSteps] using ih step oldRest newRest
    | delete =>
      obtain ⟨insideA, _, oldRest⟩ := read_of_drop x old
      have later := ih (path.delete insideA) oldRest new
      simpa [changedSteps, Nat.add_assoc, Nat.add_comm 1] using later
    | insert =>
      obtain ⟨insideB, _, newRest⟩ := read_of_drop y new
      have later := ih (path.insert insideB) old newRest
      simpa [changedSteps, Nat.add_assoc, Nat.add_comm 1] using later

end Path

/-! ### The furthest points -/

/-- A diagonal is followed to its end or to characters that differ. -/
theorem slide_stops (a b : Array Char) (x y : Nat) :
    (slide a b x y).1 < a.size → (slide a b x y).2 < b.size →
      a[(slide a b x y).1]? ≠ b[(slide a b x y).2]? := by
  fun_induction slide a b x y with
  | case1 x y inside same ih => exact ih
  | case2 x y inside differ =>
    intro insideA insideB
    rw [Array.getElem?_eq_getElem insideA, Array.getElem?_eq_getElem insideB]
    exact fun same => differ (Option.some.inj same)
  | case3 x y outside => exact fun insideA insideB => absurd ⟨insideA, insideB⟩ outside

/-- Before round `d` the frontier is as far as any path of the round before. -/
def Furthest (a b : Array Char) (d : Nat) (c : Int → Nat) : Prop :=
  ∀ e x y, d = e + 1 → Path a b e x y → x ≤ c ((x : Int) - y)

/-- In round `d` no path with `d` changes gets further on its diagonal than the search. -/
theorem Path.le_arrival {a b : Array Char} {d x y : Nat} (path : Path a b d x y) {c : Int → Nat}
    (ready : Ready a b d c) (furthest : Furthest a b d c) :
    x ≤ (arrival a b d c ((x : Int) - y)).1 := by
  induction path with
  | start => exact Nat.zero_le _
  | @keep d x y before insideA insideB same ih =>
    have reached := ih ready furthest
    have diagonal : ((x + 1 : Nat) : Int) - ((y + 1 : Nat) : Int) = (x : Int) - y := by omega
    rw [diagonal]
    refine Nat.lt_of_le_of_ne reached fun stopped => ?_
    -- Had the search stopped here, it would have gone on along the diagonal.
    obtain ⟨count, atX, atY, _⟩ := arrival_spec ready before.visited
    have stoppedY : (arrival a b d c ((x : Int) - y)).2 = y := by omega
    have stops := slide_stops a b (entry d c ((x : Int) - y))
      (entry d c ((x : Int) - y) - ((x : Int) - y)).toNat
    rw [show slide a b (entry d c ((x : Int) - y))
      (entry d c ((x : Int) - y) - ((x : Int) - y)).toNat = (x, y) from
        Prod.ext stopped.symm stoppedY] at stops
    exact stops insideA insideB same
  | @delete e x y before insideA _ =>
    have diagonal : ((x + 1 : Nat) : Int) - y - 1 = (x : Int) - y := by omega
    have near := furthest e x y rfl before
    have below : Visited e (((x + 1 : Nat) : Int) - y - 1) := diagonal ▸ before.visited
    have entered := le_entry_below (c := c) below
    rw [diagonal] at entered
    obtain ⟨count, atX, _⟩ := arrival_spec ready (before.delete insideA).visited
    omega
  | @insert e x y before insideB _ =>
    have diagonal : (x : Int) - ((y + 1 : Nat) : Int) + 1 = (x : Int) - y := by omega
    have near := furthest e x y rfl before
    have above : Visited e ((x : Int) - ((y + 1 : Nat) : Int) + 1) := diagonal ▸ before.visited
    have entered := le_entry_above (c := c) above
    rw [diagonal] at entered
    obtain ⟨count, atX, _⟩ := arrival_spec ready (before.insert insideB).visited
    omega

/-- A path to the end with as many changes as the round has ends the search. -/
theorem Path.ended {a b : Array Char} {d : Nat} (path : Path a b d a.size b.size) {c : Int → Nat}
    (ready : Ready a b d c) (furthest : Furthest a b d c) :
    Ended a b d c ((a.size : Int) - b.size) := by
  have far := path.le_arrival ready furthest
  obtain ⟨count, atX, atY, _⟩ := arrival_spec ready path.visited
  exact ⟨far, by omega⟩

/-! ### How many steps are found -/

theorem changedSteps_keep {a : Array Char} {x : Int} {count : Nat} {steps out : List Step}
    (kept : keep a x count steps = some out) : changedSteps out = changedSteps steps := by
  induction count generalizing x steps with
  | zero =>
    cases kept
    rfl
  | succ count ih =>
    rw [keep] at kept
    obtain ⟨c, _, kept⟩ := Option.bind_eq_some_iff.1 kept
    simpa [changedSteps] using ih kept

/-- The walk back makes one change for each round but the first. -/
theorem changedSteps_backtrack {a b : Array Char} {windows : List (Array Nat)} {x y : Int}
    {steps out : List Step} (walked : backtrack a b windows x y steps = some out) :
    changedSteps out = changedSteps steps + (windows.length - 1) := by
  induction windows generalizing x y steps with
  | nil =>
    cases walked
    rfl
  | cons window earlier ih =>
    rw [backtrack] at walked
    obtain ⟨came, _, walked⟩ := Option.bind_eq_some_iff.1 walked
    obtain ⟨_, _, walked⟩ := Option.bind_eq_some_iff.1 walked
    obtain ⟨kept, keeping, walked⟩ := Option.bind_eq_some_iff.1 walked
    have before := changedSteps_keep keeping
    simp only [Option.bind_eq_bind, Option.bind_some] at walked
    split at walked
    case isTrue first => rw [ih walked, List.length_cons, before, first]
    case isFalse more =>
      generalize (if came = true then _ else _ : Int) = diagonal at walked
      rw [List.length_cons]
      split at walked
      all_goals
        obtain ⟨c, _, walked⟩ := Option.bind_eq_some_iff.1 walked
        rw [ih walked, changedSteps_cons, before]
        simp only [reduceCtorEq, if_false]
        omega

/-- What the search finds has fewer changes than there were rounds to come. -/
theorem changedSteps_search {a b : Array Char} {left d : Nat} {v : Frontier}
    {trace : List (Array Nat)} {steps : List Step} (rounds : trace.length = d)
    (found : search a b left d v trace = some (some steps)) : changedSteps steps < d + left := by
  induction left generalizing d v trace with
  | zero => cases found
  | succ left ih =>
    rw [search] at found
    obtain ⟨window, _, found⟩ := Option.bind_eq_some_iff.1 found
    obtain ⟨swept, _, found⟩ := Option.bind_eq_some_iff.1 found
    cases swept with
    | none =>
      obtain ⟨out, walked, same⟩ := Option.bind_eq_some_iff.1 found
      cases same
      rw [changedSteps_backtrack walked, List.length_cons, rounds]
      simp [changedSteps]
    | some v' =>
      have later := ih (d := d + 1) (by rw [List.length_cons, rounds]) found
      omega

/-- A search that has not gone past a path to the end finds no more changes than the path has. -/
theorem search_le {a b : Array Char} {left d : Nat} {v : Frontier} {trace : List (Array Nat)}
    {found : Option (List Step)} (fits : v.Fits) (room : d + left < v.width)
    (rounds : trace.length = d) (ready : Ready a b d v.reach) (furthest : Furthest a b d v.reach)
    {n : Nat} (path : Path a b n a.size b.size) (ahead : d ≤ n)
    (answer : search a b left d v trace = some found) :
    d + left ≤ n ∨ ∃ steps, found = some steps ∧ changedSteps steps ≤ n := by
  induction left generalizing d v trace with
  | zero => exact .inl ahead
  | succ left ih =>
    have swept := sweep_spec ready (d + 1) v fits (k := -d) (by omega) (by omega) (by omega)
      (fun j => by
        rw [if_neg]
        unfold Visited
        omega)
    rw [search] at answer
    obtain ⟨window, _, answer⟩ := Option.bind_eq_some_iff.1 answer
    rcases swept with ⟨ended, _⟩ | ⟨v', grown, fits', width', cells, notEnded⟩
    · rw [ended, Option.bind_eq_bind, Option.bind_some] at answer
      obtain ⟨steps, walked, same⟩ := Option.bind_eq_some_iff.1 answer
      cases same
      refine .inr ⟨steps, rfl, ?_⟩
      rw [changedSteps_backtrack walked, List.length_cons, rounds]
      simpa [changedSteps] using ahead
    · rw [grown, Option.bind_eq_bind, Option.bind_some] at answer
      have all : ∀ k, Visited d k → ¬ Ended a b d v.reach k := fun k on =>
        notEnded k on (by unfold Visited at on; omega)
      have further : d ≠ n := by
        rintro rfl
        exact all _ path.visited (path.ended ready furthest)
      have here : ∀ k, Visited d k → v'.reach k = (arrival a b d v.reach k).1 := fun k on => by
        rw [cells k, if_pos on]
      have kept : ∀ k, VisitedBefore d k → v'.reach k = v.reach k := fun k before => by
        rw [cells k, if_neg]
        unfold Visited VisitedBefore at *
        omega
      have furthest' : Furthest a b (d + 1) v'.reach := by
        intro e x y same before
        obtain rfl := Nat.succ.inj same
        rw [here _ before.visited]
        exact before.le_arrival ready furthest
      have ready' : Ready a b (d + 1) v'.reach := settled_round ready here kept all
      have later := ih fits' (by omega) (by rw [List.length_cons, rounds]) ready' furthest'
        (by omega) answer
      rwa [Nat.add_right_comm, Nat.add_assoc] at later

/-- Within reach the search finds steps, and no more changes than keeping a common subsequence
takes. -/
theorem shortestEdit?_le {a b : Array Char} {s : List Char} (left : s <+ a.toList)
    (right : s <+ b.toList) (near : a.size + b.size ≤ maxDistance + 2 * s.length) :
    ∃ steps, shortestEdit? a b = some (some steps) ∧
      changedSteps steps + 2 * s.length ≤ a.size + b.size := by
  obtain ⟨steps, old, new, size⟩ := exists_steps left right
  have path := Path.start.along (a := a) (b := b) old.symm new.symm
  simp only [Array.length_toList, Nat.zero_add] at size path
  obtain ⟨found, answered, _⟩ := shortestEdit?_spells a b
  have searched := answered
  rw [shortestEdit?] at searched
  have zeros : Ready a b 0 (Frontier.start (min (a.size + b.size) maxDistance)).reach :=
    Frontier.reach_start _
  have none_ : Furthest a b 0 (Frontier.start (min (a.size + b.size) maxDistance)).reach :=
    fun _ _ _ same _ => by cases same
  have room : 0 + (min (a.size + b.size) maxDistance + 1) <
      (Frontier.start (min (a.size + b.size) maxDistance)).width := by
    simp [Frontier.start]
  rcases search_le (Frontier.fits_start _) room rfl zeros none_ path (Nat.zero_le _) searched with
    far | ⟨shortest, rfl, few⟩
  · omega
  · exact ⟨shortest, answered, by omega⟩

/-- What the search finds has no more changes than it looks for. -/
theorem changedSteps_shortestEdit? {a b : Array Char} {steps : List Step}
    (found : shortestEdit? a b = some (some steps)) : changedSteps steps ≤ maxDistance := by
  rw [shortestEdit?] at found
  have few := changedSteps_search (List.length_nil : ([] : List (Array Nat)).length = 0) found
  omega

/-! ### What is set aside -/

/-- The shared front is the longest. -/
theorem isPrefix_take_commonLength {a b p : List Char} (left : p <+: a) (right : p <+: b) :
    p <+: a.take (commonLength a b) := by
  fun_induction commonLength a b generalizing p with
  | case1 as c bs ih =>
    cases p with
    | nil => exact List.nil_prefix
    | cons d p =>
      obtain ⟨rfl, leftRest⟩ := List.cons_prefix_cons.1 left
      obtain ⟨_, rightRest⟩ := List.cons_prefix_cons.1 right
      exact List.cons_prefix_cons.2 ⟨rfl, ih leftRest rightRest⟩
  | case2 c as d bs differ =>
    cases p with
    | nil => exact List.nil_prefix
    | cons e p =>
      obtain ⟨rfl, _⟩ := List.cons_prefix_cons.1 left
      obtain ⟨rfl, _⟩ := List.cons_prefix_cons.1 right
      exact absurd rfl differ
  | case3 a b apart =>
    cases p with
    | nil => exact List.nil_prefix
    | cons d p =>
      obtain ⟨as, rfl⟩ := left
      obtain ⟨bs, rfl⟩ := right
      exact absurd rfl (apart _ _ _ _ rfl)

/-- Two texts and what they share at both ends: first at the front, then at the back of what is
left. -/
structure Trimmed (a b front midA midB back : List Char) : Prop where
  left : a = front ++ (midA ++ back)
  right : b = front ++ (midB ++ back)
  longestFront : ∀ p, p <+: a → p <+: b → p <+: front
  longestBack : ∀ s, s <:+ midA ++ back → s <:+ midB ++ back → s <:+ back

/-- Chunks are those of the middles, between what is shared. -/
theorem exists_trimmed (a b : List Char) : ∃ front midA midB back,
    Trimmed a b front midA midB back ∧
      chunks a b = prepend .equal front (middle midA midB (prepend .equal back [])) := by
  have shared := drop_commonLength_reverse (a.drop (commonLength a b)) (b.drop (commonLength a b))
  refine ⟨_, _, _, _, ⟨?_, ?_, fun p => isPrefix_take_commonLength, ?_⟩, rfl⟩
  · simp only [List.take_append_drop]
  · rw [shared]
    rw [List.take_append_drop, take_commonLength, List.take_append_drop]
  · rw [List.take_append_drop, shared, List.take_append_drop]
    intro s left right
    have front := isPrefix_take_commonLength (List.reverse_prefix.2 left)
      (List.reverse_prefix.2 right)
    rw [← shared]
    have back := List.reverse_suffix.2 front
    rwa [List.reverse_reverse, List.reverse_take, List.reverse_reverse, List.length_reverse] at back

/-- Of a common subsequence enough is left for the middles. -/
theorem Trimmed.exists_common {a b front midA midB back s : List Char}
    (trimmed : Trimmed a b front midA midB back) (left : s <+ a) (right : s <+ b) :
    ∃ t, t <+ midA ∧ t <+ midB ∧ s.length ≤ front.length + t.length + back.length := by
  have inner : ∀ {mid : List Char}, s <+ front ++ (mid ++ back) →
      ((s.drop front.length).reverse.drop back.length).reverse <+ mid := by
    intro mid whole
    have behind := whole.drop front.length
    rw [List.drop_left] at behind
    have before := behind.reverse.drop back.length
    rw [List.reverse_append, ← @List.length_reverse _ back, List.drop_left,
      List.length_reverse] at before
    simpa using before.reverse
  refine ⟨_, inner (trimmed.left ▸ left), inner (trimmed.right ▸ right), ?_⟩
  simp only [List.length_reverse, List.length_drop]
  omega

/-- Replacing the middles as a whole, in four chunks of which the empty ones are left out. -/
def replacement (front midA midB back : List Char) : List Chunk :=
  [⟨.equal, front⟩, ⟨.delete, midA⟩, ⟨.insert, midB⟩, ⟨.equal, back⟩].filter fun c =>
    !c.chars.isEmpty

theorem prepend_replacement {front midA midB back : List Char} (some_ : midA ≠ [] ∨ midB ≠ []) :
    prepend .equal front (prepend .delete midA (prepend .insert midB (prepend .equal back []))) =
      replacement front midA midB back := by
  cases midA with
  | nil =>
    cases midB with
    | nil => simp at some_
    | cons d midB => cases front <;> cases back <;> rfl
  | cons c midA => cases midB <;> cases front <;> cases back <;> rfl

/-! ### The result -/

/-- Chunks of texts within reach change as many characters as the distance says: as few as can be.
If the distance is greater, the texts are replaced between what they share at both ends. -/
theorem chunks_shortest (a b : List Char) :
    if distance a b ≤ maxDistance then changes (chunks a b) = distance a b
    else ∃ front midA midB back, Trimmed a b front midA midB back ∧
      chunks a b = replacement front midA midB back := by
  obtain ⟨front, midA, midB, back, trimmed, cut⟩ := exists_trimmed a b
  obtain ⟨s, left, right, longest⟩ := exists_lcs a b
  obtain ⟨t, leftT, rightT, size⟩ := trimmed.exists_common left right
  have sizeA := congrArg List.length trimmed.left
  have sizeB := congrArg List.length trimmed.right
  simp only [List.length_append] at sizeA sizeB
  have least := distance_le_changes (chunks a b)
  rw [oldChars_chunks, newChars_chunks] at least
  have whole : ∀ steps, shortestEdit? midA.toArray midB.toArray = some (some steps) →
      changes (chunks a b) = changedSteps steps := by
    intro steps found
    rw [cut, changes_prepend, middle, found]
    simp only [changes_ofSteps, changes_prepend]
    simp [cost, changes]
  unfold distance at least ⊢
  split
  · next near =>
    obtain ⟨steps, found, few⟩ := shortestEdit?_le (a := midA.toArray) (b := midB.toArray)
      leftT rightT (by simp only [List.size_toArray]; omega)
    have total := whole steps found
    simp only [List.size_toArray] at few
    omega
  · next far =>
    refine ⟨front, midA, midB, back, trimmed, ?_⟩
    obtain ⟨found, answered, _⟩ := shortestEdit?_spells midA.toArray midB.toArray
    cases found with
    | some steps =>
      have few := changedSteps_shortestEdit? answered
      have total := whole steps answered
      omega
    | none =>
      rw [cut, middle, answered]
      refine prepend_replacement ?_
      by_contra none_
      simp only [not_or, not_not] at none_
      obtain ⟨rfl, rfl⟩ := none_
      simp only [List.length_nil] at sizeA sizeB
      have shared := length_le_lcsLength (a := a) (b := b) (s := a) (List.Sublist.refl a)
        (by rw [trimmed.left, trimmed.right])
      omega

/-- Five changes lead from one text to the other. -/
example : distance "abcabba".toList "cbabac".toList = 5 := by decide +kernel

end GrammarIndex.Diff

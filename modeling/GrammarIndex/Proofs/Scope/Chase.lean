import GrammarIndex.Proofs.Scope.Linked
import Mathlib.Data.List.Chain
import Mathlib.Data.List.Induction
import Mathlib.Data.List.Nodup
import Mathlib.Data.List.Perm.Subperm
import Mathlib.Logic.Relation

/-!
Where following links ends, in any store whatever.

Links may lead in circles and into emptied slots. Following them from a symbol goes on through live
symbols that were not met before, and there are not more of them than slots; so it ends by itself,
and never for want of steps.
-/
namespace GrammarIndex.ScopeStore

/-- A live symbol leads to what it stands for. -/
def Leads (st : ScopeStore) (n next : Nat) : Prop := (st.symbol? n).bind (·.target) = some next

instance (st : ScopeStore) (n next : Nat) : Decidable (st.Leads n next) :=
  inferInstanceAs (Decidable (_ = _))

/-- A way along links, the latest symbol first. No symbol comes twice, and all are live but perhaps
the one it starts from. -/
structure Way (st : ScopeStore) (id : Nat) (way : List Nat) : Prop where
  start : way.getLast? = some id
  linked : way.IsChain fun next n => st.Leads n next
  distinct : way.Nodup
  live : ∀ n ∈ way, n ≠ id → (st.symbol? n).isSome = true

/-- A way that goes no further: the symbol at its end stands for itself, for an emptied slot or for
a symbol on the way. -/
structure Chased (st : ScopeStore) (id last : Nat) (earlier : List Nat) : Prop
    extends Way st id (last :: earlier) where
  stops : ∀ next, st.Leads last next → st.symbol? next = none ∨ next ∈ last :: earlier

section

variable {st : ScopeStore} {id n next : Nat} {rest : List Nat}

theorem Leads.lt_slots (leads : st.Leads n next) : n < st.slots.size := by
  obtain ⟨s, live, _⟩ := Option.bind_eq_some_iff.1 leads
  exact lt_slots_of_symbol? live

/-! ### Ways -/

theorem way_start (st : ScopeStore) (id : Nat) : st.Way id [id] where
  start := rfl
  linked := .singleton id
  distinct := List.nodup_singleton id
  live _ member other := absurd (List.mem_singleton.1 member) other

theorem Way.step (way : st.Way id (n :: rest)) (leads : st.Leads n next)
    (live : (st.symbol? next).isSome = true) (new : next ∉ n :: rest) :
    st.Way id (next :: n :: rest) where
  start := by rw [List.getLast?_cons_cons, way.start]
  linked := .cons_cons leads way.linked
  distinct := List.nodup_cons.2 ⟨new, way.distinct⟩
  live m member other := by
    rcases List.mem_cons.1 member with rfl | before
    · exact live
    · exact way.live m before other

/-- Behind its end, every symbol of a way leads on. -/
theorem Way.leads_on (way : st.Way id (n :: rest)) : ∀ m ∈ rest, ∃ next, st.Leads m next := by
  have linked := way.linked
  clear way
  induction rest generalizing n with
  | nil => simp
  | cons m rest ih =>
    obtain ⟨here, before⟩ := List.isChain_cons_cons.1 linked
    intro k member
    rcases List.mem_cons.1 member with rfl | member
    · exact ⟨n, here⟩
    · exact ih before k member

/-- Every symbol of a way leads to its end. -/
theorem Way.reaches (way : st.Way id (n :: rest)) :
    ∀ m ∈ n :: rest, Relation.ReflTransGen st.Leads m n := by
  have linked := way.linked
  clear way
  induction rest generalizing n with
  | nil =>
    intro m member
    rw [List.mem_singleton.1 member]
  | cons k rest ih =>
    obtain ⟨here, before⟩ := List.isChain_cons_cons.1 linked
    intro m member
    rcases List.mem_cons.1 member with rfl | member
    · exact .refl
    · exact (ih before m member).tail here

/-- There are not more symbols that lead on than slots. -/
theorem length_le_slots {way : List Nat} (distinct : way.Nodup)
    (leadOn : ∀ m ∈ way, ∃ next, st.Leads m next) : way.length ≤ st.slots.size := by
  have inside : way ⊆ List.range st.slots.size := fun m member => by
    obtain ⟨next, leads⟩ := leadOn m member
    exact List.mem_range.2 leads.lt_slots
  simpa using (distinct.subperm inside).length_le

/-! ### Following -/

/-- With as many steps as slots, following a way ends where no way leads on. -/
theorem chased_followWithin (steps : Nat) (way : st.Way id (n :: rest))
    (enough : st.slots.size < steps + (n :: rest).length) :
    ∃ earlier, st.Chased id (st.followWithin steps (n :: rest) n) earlier := by
  induction steps generalizing n rest with
  | zero =>
    -- A link from here would make the way longer than there are slots.
    refine ⟨rest, way, fun next leads => ?_⟩
    have leadOn : ∀ m ∈ n :: rest, ∃ next, st.Leads m next := by
      intro m member
      rcases List.mem_cons.1 member with rfl | member
      · exact ⟨next, leads⟩
      · exact way.leads_on m member
    have bound := length_le_slots way.distinct leadOn
    omega
  | succ steps ih =>
    rw [followWithin]
    cases link : (st.symbol? n).bind (·.target) with
    | none =>
      refine ⟨rest, way, fun next leads => ?_⟩
      rw [Leads, link] at leads
      cases leads
    | some next =>
      simp only
      split
      · next stops =>
        refine ⟨rest, way, fun next' leads => ?_⟩
        rw [Leads, link] at leads
        cases leads
        rw [Bool.or_eq_true, List.contains_iff_mem, Option.isNone_iff_eq_none] at stops
        exact stops.symm
      · next goes =>
        rw [Bool.or_eq_true, List.contains_iff_mem, Option.isNone_iff_eq_none, not_or] at goes
        refine ih (way.step link (Option.isSome_iff_ne_none.2 goes.2) goes.1) ?_
        rw [List.length_cons]
        omega

/-- Following goes along every way that goes no further, to its end. -/
theorem Chased.followWithin_eq {last : Nat} {earlier : List Nat}
    (chased : st.Chased id last earlier)
    (ahead : List Nat) (split : last :: earlier = ahead ++ n :: rest) {steps : Nat}
    (enough : ahead.length ≤ steps) : st.followWithin steps (n :: rest) n = last := by
  induction ahead using List.reverseRecOn generalizing n rest steps with
  | nil =>
    obtain ⟨rfl, rfl⟩ := List.cons.inj split
    cases steps with
    | zero => rfl
    | succ steps =>
      rw [followWithin]
      cases link : (st.symbol? last).bind (·.target) with
      | none => rfl
      | some next =>
        have stops : ((last :: earlier).contains next || (st.symbol? next).isNone) = true := by
          rw [Bool.or_eq_true, List.contains_iff_mem, Option.isNone_iff_eq_none]
          exact (chased.stops next link).symm
        simp only [stops, if_true]
  | append_singleton ahead next ih =>
    rw [List.append_assoc, List.singleton_append] at split
    obtain ⟨steps, rfl⟩ : ∃ k, steps = k + 1 := by
      rw [List.length_append, List.length_singleton] at enough
      exact ⟨steps - 1, by omega⟩
    have linked := chased.linked
    have distinct := chased.distinct
    have start := chased.start
    have live := chased.live next
    rw [split] at linked distinct start live
    have link : st.Leads n next := (List.isChain_cons_cons.1 (List.isChain_append.1 linked).2.1).1
    obtain ⟨new, _⟩ := List.nodup_cons.1 (List.nodup_append.1 distinct).2.1
    have first : id ∈ n :: rest := by
      rw [List.getLast?_append_of_ne_nil _ (by simp), List.getLast?_cons_cons] at start
      exact List.mem_of_getLast? start
    have some_ : (st.symbol? next).isSome = true :=
      live (by simp) fun same => new (same ▸ first)
    have goes : ((n :: rest).contains next || (st.symbol? next).isNone) = false := by
      rw [Bool.or_eq_false_iff, Option.isNone_eq_false_iff]
      exact ⟨by simpa using new, some_⟩
    rw [followWithin, show (st.symbol? n).bind (·.target) = some next from link]
    simp only [goes, Bool.false_eq_true, if_false]
    refine ih split ?_
    rw [List.length_append, List.length_singleton] at enough
    omega

/-- The end of a way that goes no further is what following gives, with any number of steps that is
not below the number of slots. -/
theorem Chased.eq_followWithin {last : Nat} {earlier : List Nat}
    (chased : st.Chased id last earlier)
    {steps : Nat} (enough : st.slots.size ≤ steps) : st.followWithin steps [id] id = last := by
  obtain ⟨ahead, split⟩ := List.getLast?_eq_some_iff.1 chased.start
  refine chased.followWithin_eq ahead split (Nat.le_trans ?_ enough)
  have size := congrArg List.length split
  have bound := length_le_slots (List.nodup_cons.1 chased.distinct).2 chased.leads_on
  rw [List.length_cons, List.length_append, List.length_singleton] at size
  omega

end

/-- Whatever a store holds, following from an id ends by itself: where it ends is reached along
links through live symbols, none of them twice, and from there no link leads to a live symbol that
was not met on the way. It takes no more steps than there are slots. Without a circle on the way,
following again from the end stays there. -/
theorem follow_chased (st : ScopeStore) (id : Nat) :
    (∃ earlier, st.Chased id (st.follow id) earlier) ∧
      (∀ steps, st.slots.size ≤ steps → st.followWithin steps [id] id = st.follow id) ∧
      ((∀ n, Relation.ReflTransGen st.Leads id n → ¬ Relation.TransGen st.Leads n n) →
        st.follow (st.follow id) = st.follow id) := by
  obtain ⟨earlier, chased⟩ : ∃ earlier, st.Chased id (st.follow id) earlier :=
    chased_followWithin st.slots.size (way_start st id) (by simp)
  refine ⟨⟨earlier, chased⟩, fun steps enough => chased.eq_followWithin enough, fun open_ => ?_⟩
  -- Without a circle the end leads at most into an emptied slot, so it is a way of its own.
  have alone : st.Chased (st.follow id) (st.follow id) [] := by
    refine ⟨way_start st _, fun next leads => (chased.stops next leads).imp_right fun met => ?_⟩
    have start : id ∈ st.follow id :: earlier := List.mem_of_getLast? chased.start
    have circle := Relation.TransGen.head' leads (chased.reaches next met)
    exact absurd circle (open_ _ (chased.reaches id start))
  exact alone.eq_followWithin (Nat.le_refl _)

/-- A circle with a way into it, and a way into a slot that was emptied. -/
def circled : List Operation :=
  let symbol (name : String) (file : Path) : Symbol :=
    { name, classification := .terminal, scope := 1, site := some ⟨file, 0, ⟨0, 1⟩⟩ }
  [.scopeFor (.of "g"), .define (symbol "A" (.of "g/a.g4")), .define (symbol "B" (.of "g/a.g4")),
    .define (symbol "C" (.of "g/a.g4")), .define (symbol "D" (.of "g/d.g4")),
    .define (symbol "E" (.of "g/a.g4")), .define (symbol "F" (.of "g/a.g4")), .forward 0 1,
    .forward 1 2, .forward 2 1, .forward 4 3, .forward 5 3, .removeFile 1 (.of "g/d.g4"),
    .forward 5 4]

/-- Into the circle, following goes once around, and again when it starts from where it ended; into
the emptied slot, it stops before, and stays there. -/
theorem follow_chased_circled :
    let st := performed circled
    (∃ earlier, st.Chased 0 2 earlier) ∧ st.follow 2 = 1 ∧ st.Leads 4 3 ∧ st.symbol? 3 = none ∧
      (∃ earlier, st.Chased 5 4 earlier) ∧ st.follow (st.follow 5) = 4 := by
  intro st
  have around : st.follow 0 = 2 := by decide +kernel
  have into : st.follow 5 = 4 := by decide +kernel
  -- Behind the circle every link leads to a lower slot.
  have falls : ∀ n < st.slots.size, 3 < n → ∀ next ∈ (st.symbol? n).bind (·.target),
      3 ≤ next ∧ next < n := by decide +kernel
  have emptied : ∀ next, ¬ st.Leads 3 next := by
    intro next leads
    rw [Leads, show st.symbol? 3 = none by decide +kernel] at leads
    cases leads
  have lower : ∀ n, 3 ≤ n → ∀ m, st.Leads n m → 3 ≤ m ∧ m < n := by
    intro n behind m leads
    rcases Nat.eq_or_lt_of_le behind with rfl | behind
    · exact absurd leads (emptied m)
    · exact falls n leads.lt_slots behind m leads
  have reached : ∀ n, Relation.ReflTransGen st.Leads 5 n → 3 ≤ n := by
    intro n way
    induction way with
    | refl => decide
    | tail _ leads behind => exact (lower _ behind _ leads).1
  have open_ : ∀ n, Relation.ReflTransGen st.Leads 5 n → ¬ Relation.TransGen st.Leads n n := by
    intro n way circle
    have below : ∀ m, Relation.TransGen st.Leads n m → 3 ≤ m ∧ m < n := by
      intro m circle
      induction circle with
      | single leads => exact lower n (reached n way) _ leads
      | tail _ leads before =>
        have := lower _ before.1 _ leads
        omega
    exact Nat.lt_irrefl n (below n circle).2
  refine ⟨around ▸ (follow_chased st 0).1, by decide +kernel, by decide +kernel,
    by decide +kernel, into ▸ (follow_chased st 5).1, ?_⟩
  rw [(follow_chased st 5).2.2 open_, into]

end GrammarIndex.ScopeStore

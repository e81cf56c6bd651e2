import GrammarIndex.Proofs.Refactoring.Preserved

/-!
Sorting the rules of any text.

The parser rules of a text stand one behind the other, however malformed the text is. So the text is
cut at their places into gaps and bodies, and filling the places puts other bodies between the same
gaps. The bodies that are filled in are those of the text, each one once, by name and those of one
name in their old order.
-/
namespace GrammarIndex.SortRules

open Grammar (parse tokenize items slot? slots_parse Between)

/-! ### Gaps and bodies -/

/-- What stands between the rules of a text from offset `cursor` on, and behind the last. -/
def gapsFrom (text : List Char) (cursor : Nat) : List Slot → List (List Char)
  | [] => [text.drop cursor]
  | s :: rest => slice text ⟨cursor, s.span.start⟩ :: gapsFrom text s.span.stop rest

/-- What stands around the rules of a text. -/
def gaps (text : List Char) (places : List Slot) : List (List Char) := gapsFrom text 0 places

/-- What stands in the places of the rules. -/
def bodies (text : List Char) (places : List Slot) : List (List Char) :=
  places.map fun s => slice text s.span

/-- Gaps and bodies in turns. -/
def interleave : (gaps bodies : List (List Char)) → List Char
  | gap :: gaps, body :: bodies => gap ++ body ++ interleave gaps bodies
  | gaps, [] => gaps.flatten
  | [], bodies => bodies.flatten

/-- Places one behind the other, from `cursor` to `stop`. -/
def Apart (cursor stop : Nat) : List Slot → Prop
  | [] => cursor ≤ stop
  | s :: rest => cursor ≤ s.span.start ∧ s.span.start ≤ s.span.stop ∧ Apart s.span.stop stop rest

variable {text : List Char} {cursor stop : Nat} {places : List Slot}

theorem Apart.le (apart : Apart cursor stop places) : cursor ≤ stop := by
  induction places generalizing cursor with
  | nil => exact apart
  | cons s rest ih =>
    obtain ⟨before, ordered, behind⟩ := apart
    have := ih behind
    omega

theorem Apart.mono {cursor' : Nat} (apart : Apart cursor stop places) (before : cursor' ≤ cursor) :
    Apart cursor' stop places := by
  cases places with
  | nil => exact Nat.le_trans before apart
  | cons s rest => exact ⟨Nat.le_trans before apart.1, apart.2⟩

/-- The rules among constructs that stand one behind the other do so. -/
theorem apart_of_between {ds : List Derivation} (between : Between cursor stop ds)
    (within : cursor ≤ stop) : Apart cursor stop (ds.filterMap slot?) := by
  induction ds generalizing cursor with
  | nil => exact within
  | cons d ds ih =>
    obtain ⟨before, lower⟩ := List.forall_mem_cons.1 between.lower
    obtain ⟨ordered, others⟩ := List.forall_mem_cons.1 between.ordered
    obtain ⟨inside, upper⟩ := List.forall_mem_cons.1 between.upper
    obtain ⟨behind, apart⟩ := List.pairwise_cons.1 between.apart
    have rest := ih ⟨behind, others, upper, apart⟩ inside
    rw [List.filterMap_cons, slot?]
    split
    · next gone =>
      exact rest.mono (Nat.le_trans before ordered)
    · next s place =>
      split at place
      · cases place
        exact ⟨before, ordered, rest⟩
      · cases place

/-- The rules of a text stand one behind the other. -/
theorem apart_slots (text : String) : Apart 0 text.length (slots (parse text).tree) := by
  obtain ⟨_, between, _⟩ := (Grammar.built_items text.length (tokenize text).1).nests
    (Grammar.laid_tokens text)
  rw [slots_parse]
  exact apart_of_between ⟨fun _ _ => Nat.zero_le _, between.ordered, between.upper, between.apart⟩
    (Nat.zero_le _)

theorem slice_append_drop {start : Nat} (before : cursor ≤ start) :
    slice text ⟨cursor, start⟩ ++ text.drop start = text.drop cursor := by
  have split := congrArg (List.drop cursor) (List.take_append_drop start text)
  rw [List.drop_append] at split
  rcases Nat.le_total start text.length with within | beyond
  · rw [List.length_take_of_le within, Nat.sub_eq_zero_of_le before, List.drop_zero] at split
    exact split
  · rw [List.drop_eq_nil_of_le beyond, List.drop_nil] at split
    rw [List.drop_eq_nil_of_le beyond]
    exact split

/-- Cutting a text into gaps and bodies loses nothing. -/
theorem interleave_gapsFrom (apart : Apart cursor text.length places) :
    interleave (gapsFrom text cursor places) (bodies text places) = text.drop cursor := by
  induction places generalizing cursor with
  | nil => simp [gapsFrom, bodies, interleave]
  | cons s rest ih =>
    obtain ⟨before, ordered, behind⟩ := apart
    have later := ih behind
    rw [bodies] at later
    rw [gapsFrom, bodies, List.map_cons, interleave, later, List.append_assoc,
      slice_append_drop ordered, slice_append_drop before]

/-- Filling the places puts the new bodies between the gaps: each place is where the one before it
ends or later, and within the text. -/
theorem fill_eq_interleave (apart : Apart cursor text.length places) {new : List (List Char)}
    (size : new.length = places.length) :
    fill cursor (text.drop cursor) (places.zip new) =
      interleave (gapsFrom text cursor places) new := by
  induction places generalizing cursor new with
  | nil =>
    rw [List.length_eq_zero_iff.1 size]
    simp [fill, gapsFrom, interleave]
  | cons s rest ih =>
    obtain ⟨body, new, rfl⟩ := List.exists_cons_of_length_eq_add_one size
    obtain ⟨before, ordered, behind⟩ := apart
    have within := behind.le
    have skip : min (s.span.start - cursor) (text.drop cursor).length = s.span.start - cursor := by
      rw [List.length_drop]
      omega
    have width : min (s.span.stop - (cursor + (s.span.start - cursor)))
        ((text.drop cursor).length - (s.span.start - cursor)) = s.span.stop - s.span.start := by
      rw [List.length_drop]
      omega
    have gap : (text.drop cursor).take (s.span.start - cursor) =
        slice text ⟨cursor, s.span.start⟩ := by
      rw [slice, List.drop_take]
    have place : cursor + (s.span.start - cursor) + (s.span.stop - s.span.start) = s.span.stop := by
      omega
    have left : cursor + (s.span.start - cursor + (s.span.stop - s.span.start)) = s.span.stop := by
      omega
    simp only [List.zip_cons_cons, fill, skip, width]
    rw [gap, place, List.drop_drop, left, ih behind (Nat.succ.inj size), gapsFrom, interleave]

/-! ### The order of the rules -/

theorem pairwise_of_isSorted {names : List String} (sorted : isSorted names = true) :
    names.Pairwise fun a b => upTo a b = true := by
  induction names with
  | nil => exact .nil
  | cons a names ih =>
    cases names with
    | nil => exact List.pairwise_singleton _ _
    | cons b names =>
      rw [isSorted, Bool.and_eq_true] at sorted
      have rest := ih sorted.2
      refine List.pairwise_cons.2 ⟨fun c member => ?_, rest⟩
      rcases List.mem_cons.1 member with rfl | later
      · exact sorted.1
      · exact upTo_trans a b c sorted.1 (List.rel_of_pairwise_cons rest later)

theorem isSorted_iff {names : List String} :
    isSorted names = true ↔ names.Pairwise fun a b => compare a b ≠ .gt := by
  have same : (fun a b => upTo a b = true) = fun a b : String => compare a b ≠ .gt := by
    funext a b
    rw [upTo, bne_iff_ne]
  rw [← same]
  exact ⟨pairwise_of_isSorted, isSorted_of_pairwise⟩

/-- The places of a list of names, each one once, in the order of the names; the places of one name
are in order. -/
structure StableOrder (names : List String) (order : List Nat) : Prop where
  perm : order.Perm (List.range names.length)
  sorted : order.Pairwise fun i j => ∃ a b, names[i]? = some a ∧ names[j]? = some b ∧
    (compare a b = .lt ∨ a = b ∧ i < j)

/-- What a stable sort decides between two members: their names, or their places if these are the
same. -/
theorem lt_or_of_zipIdxLE {α : Type} {name : α → String} {p q : α × Nat}
    (before : List.zipIdxLE (fun a b => upTo (name a) (name b)) p q = true) (distinct : p.2 ≠ q.2) :
    compare (name p.1) (name q.1) = .lt ∨ name p.1 = name q.1 ∧ p.2 < q.2 := by
  rw [List.zipIdxLE] at before
  split at before
  · next lower =>
    split at before
    · next upper =>
      have same : compare (name p.1) (name q.1) = .eq := by
        cases which : compare (name p.1) (name q.1) with
        | lt =>
          rw [upTo, Std.OrientedCmp.gt_of_lt which] at upper
          cases upper
        | eq => rfl
        | gt =>
          rw [upTo, which] at lower
          cases lower
      have place := of_decide_eq_true before
      exact .inr ⟨Std.LawfulEqCmp.compare_eq_iff_eq.1 same, by omega⟩
    · next upper =>
      refine .inl (Std.OrientedCmp.lt_of_gt ?_)
      simpa [upTo] using upper
  · cases before

/-- A stable sort by name moves the members of a list as their places are ordered. -/
theorem exists_stableOrder {α : Type} (name : α → String) (l : List α) :
    ∃ order, StableOrder (l.map name) order ∧
      (l.mergeSort fun a b => upTo (name a) (name b)).map some = order.map (l[·]?) := by
  let before := List.zipIdxLE fun a b => upTo (name a) (name b)
  obtain ⟨pairs, sort⟩ : ∃ pairs, l.zipIdx.mergeSort before = pairs := ⟨_, rfl⟩
  have perm : pairs.Perm l.zipIdx := by
    rw [← sort]
    exact List.mergeSort_perm _ _
  have trans : ∀ p q r, before p q = true → before q r = true → before p r = true :=
    List.zipIdxLE_trans fun _ _ _ first second => upTo_trans _ _ _ first second
  have total : ∀ p q, (before p q || before q p) = true :=
    List.zipIdxLE_total fun _ _ => upTo_total _ _
  have sorted : pairs.Pairwise fun p q => before p q = true := by
    rw [← sort]
    exact List.pairwise_mergeSort trans total _
  have listed : ∀ p ∈ pairs, l[p.2]? = some p.1 := fun p member =>
    List.mem_zipIdx_iff_getElem?.1 (perm.mem_iff.1 member)
  have places : (pairs.map Prod.snd).Perm (List.range l.length) := by
    have moved := perm.map Prod.snd
    rwa [List.zipIdx_map_snd, ← List.range_eq_range'] at moved
  have distinct : pairs.Pairwise fun p q => p.2 ≠ q.2 :=
    List.pairwise_map.1 (places.nodup_iff.2 List.nodup_range)
  refine ⟨pairs.map Prod.snd, ⟨by rwa [List.length_map], ?_⟩, ?_⟩
  · have both := sorted.and distinct
    refine List.pairwise_map.2 (both.imp_of_mem fun {p q} member member' both => ?_)
    refine ⟨name p.1, name q.1, ?_, ?_, lt_or_of_zipIdxLE both.1 both.2⟩
    · rw [List.getElem?_map, listed p member, Option.map_some]
    · rw [List.getElem?_map, listed q member', Option.map_some]
  · rw [← List.mergeSort_zipIdx, sort, List.map_map, List.map_map]
    exact List.map_congr_left fun p member => (listed p member).symm

/-! ### The sorted text -/

/-- The sorted text is the text with its bodies in another order. -/
theorem sorted?_eq_some {tree : SyntaxTree} (apart : Apart 0 text.length (slots tree))
    (unsorted : isSorted ((slots tree).map (·.name)) = false) :
    ∃ order, StableOrder ((slots tree).map (·.name)) order ∧
      sorted? tree text = some (interleave (gaps text (slots tree))
        (order.map fun i => (bodies text (slots tree)).getD i [])) := by
  obtain ⟨order, stable, moved⟩ := exists_stableOrder (·.name) (slots tree)
  let body (s : Option Slot) : List Char := (s.map fun s => slice text s.span).getD []
  have filled : ((slots tree).mergeSort fun a b => upTo a.name b.name).map
      (fun s => slice text s.span) = order.map fun i => (bodies text (slots tree)).getD i [] := by
    have same := congrArg (List.map body) moved
    rw [List.map_map, List.map_map] at same
    refine same.trans (List.map_congr_left fun i _ => ?_)
    rw [Function.comp_apply, bodies, List.getD_eq_getElem?_getD, List.getElem?_map]
  have size : (order.map fun i => (bodies text (slots tree)).getD i []).length =
      (slots tree).length := by
    rw [List.length_map, stable.perm.length_eq, List.length_range, List.length_map]
  refine ⟨order, stable, ?_⟩
  rw [sorted?]
  simp only
  rw [unsorted, if_neg Bool.false_ne_true]
  refine congrArg some ?_
  refine (congrArg (fun b => fill 0 text ((slots tree).zip b)) filled).trans ?_
  exact fill_eq_interleave apart size

/-- What is proposed for a file whose tree is that of its text. -/
theorem propose_eq {e : Engine} {p : Path} {state : FileState} {d : Document}
    (bound : e.index.file? p = some state) (held : e.document? p = some d)
    (current : state.parsed = parse d.text) (grammar : state.dialect.name = "antlr4") :
    propose e p = .ok (((sorted? (parse d.text).tree d.text.toList).map fun text =>
      Table.insert ∅ p (String.ofList text)).getD ∅) := by
  rw [propose, bound]
  simp only [grammar, held, current]
  cases sorted? (parse d.text).tree d.text.toList <;> rfl

/-- Sorting the parser rules loses no text, whatever errors there are: the text is cut at the places
of its parser rules into gaps and bodies; nothing is proposed exactly if the names of the rules do
not descend; and otherwise the same gaps with the bodies between them, in a stable order by name. -/
theorem sortRules_moves_bodies {e : Engine} {p : Path} {state : FileState} {d : Document}
    (bound : e.index.file? p = some state) (held : e.document? p = some d)
    (current : state.parsed = parse d.text) (grammar : state.dialect.name = "antlr4") :
    let places := slots (parse d.text).tree
    let names := places.map (·.name)
    let chars := d.text.toList
    interleave (gaps chars places) (bodies chars places) = chars ∧
      (propose e p = .ok ∅ ↔ names.Pairwise fun a b => compare a b ≠ .gt) ∧
      (¬ (names.Pairwise fun a b => compare a b ≠ .gt) → ∃ order, StableOrder names order ∧
        propose e p = .ok (Table.insert ∅ p (String.ofList (interleave (gaps chars places)
          (order.map fun i => (bodies chars places).getD i []))))) := by
  intro places names chars
  have apart : Apart 0 chars.length places := by
    rw [String.length_toList]
    exact apart_slots d.text
  have proposed := propose_eq bound held current grammar
  refine ⟨interleave_gapsFrom apart, ?_, fun descends => ?_⟩
  · rw [← isSorted_iff]
    cases sorted : isSorted names with
    | true =>
      have none_ : sorted? (parse d.text).tree chars = none := if_pos sorted
      rw [proposed, none_, Option.map_none, Option.getD_none]
      exact iff_of_true rfl rfl
    | false =>
      obtain ⟨order, _, some_⟩ := sorted?_eq_some apart sorted
      rw [proposed, some_, Option.map_some, Option.getD_some]
      refine iff_of_false (fun same => ?_) Bool.false_ne_true
      have read := congrArg (Table.get? · p) (Except.ok.inj same)
      rw [PathTable.get?_insert, if_pos rfl] at read
      cases read
  · rw [← isSorted_iff, Bool.not_eq_true] at descends
    obtain ⟨order, stable, some_⟩ := sorted?_eq_some apart descends
    exact ⟨order, stable, by rw [proposed, some_, Option.map_some, Option.getD_some]⟩

def unfinished : String := "c : x (\nb 'b'\n/* a */ a : y ;\nb : z"

/-- Rules without their parenthesis and their semicolon reach up to the next rule. -/
theorem sortRules_moves_bodies_unfinished :
    ∃ order, StableOrder ["c", "a", "b"] order ∧
      propose (boundTo unfinished) (.of "a.g4") = .ok (Table.insert ∅ (.of "a.g4")
        (String.ofList (interleave [[], [], ['\n'], []]
          (order.map fun i => ["c : x (\nb 'b'\n/* a */ ".toList, "a : y ;".toList,
            "b : z".toList].getD i [])))) := by
  have held : (boundTo unfinished).document? (.of "a.g4") =
      some ⟨.of "a.g4", unfinished, false⟩ := by decide +kernel
  have read : ((boundTo unfinished).index.file? (.of "a.g4")).map
      (fun state => (state.dialect.name, state.parsed)) = some ("antlr4", parse unfinished) := by
    decide +kernel
  obtain ⟨state, found, same⟩ := Option.map_eq_some_iff.1 read
  have places : slots (parse unfinished).tree =
      [⟨⟨0, 22⟩, "c"⟩, ⟨⟨22, 29⟩, "a"⟩, ⟨⟨30, 35⟩, "b"⟩] := by decide +kernel
  obtain ⟨_, _, moves⟩ := sortRules_moves_bodies found held (congrArg Prod.snd same)
    (congrArg Prod.fst same)
  rw [places] at moves
  have cut : gaps unfinished.toList [⟨⟨0, 22⟩, "c"⟩, ⟨⟨22, 29⟩, "a"⟩, ⟨⟨30, 35⟩, "b"⟩] =
      [[], [], ['\n'], []] ∧
      bodies unfinished.toList [⟨⟨0, 22⟩, "c"⟩, ⟨⟨22, 29⟩, "a"⟩, ⟨⟨30, 35⟩, "b"⟩] =
        ["c : x (\nb 'b'\n/* a */ ".toList, "a : y ;".toList, "b : z".toList] := by
    decide +kernel
  rw [cut.1, cut.2] at moves
  exact moves (by decide +kernel)

end GrammarIndex.SortRules

import GrammarIndex.Proofs.Engine.AtOnce
import GrammarIndex.Proofs.Engine.Occurrences
import GrammarIndex.Proofs.Grammar.Gaps
import Mathlib.Data.List.Nodup

/-!
What is highlighted.

Definitions and references are highlighted as what they name, other terminals as what their token
is, and comments as comments. With the index up to date this is told from the text alone, whatever
was bound before; the highlighted ranges stand one behind the other, and a part of the text shows
those that overlap it.
-/
namespace GrammarIndex

/-- Two ranges, one of which ends before the other starts. -/
def Span.Apart (s t : Span) : Prop := s.stop ≤ t.start ∨ t.stop ≤ s.start

namespace Grammar

/-- The class in which a terminal is highlighted: that of the name it defines or refers to, or else
that of its token. -/
def highlight? (tree : SyntaxTree) (n : Nat) : Option Classification :=
  (dialect.definition? tree ∅ n).or ((dialect.reference? tree ∅ n).or (dialect.tag tree n))

/-- What is highlighted of a text: its comments, and its terminals with a class. -/
def highlighted (text : String) : List ClassifiedSpan :=
  let parsed := parse text
  parsed.comments.map (fun c => ⟨c.span, .comment⟩) ++ parsed.tree.terminals.filterMap fun n =>
    (highlight? parsed.tree n).map fun c => ⟨parsed.tree.spanOf n, c⟩

/-- Comments and tokens lie apart, and none is empty. -/
theorem apart_tokenize (text : String) :
    let spans := (tokenize text).2.map (·.span) ++ (tokenize text).1.map (·.span)
    spans.Pairwise Span.Apart ∧ ∀ s ∈ spans, s.start < s.stop ∧ s.stop ≤ text.length := by
  intro spans
  obtain ⟨apart, each⟩ := ordered_marks text
  have perm : ((marks text).map (·.span)).Perm spans := by
    have sorted : (marks text).Perm
        ((tokenize text).1.map Token.mark ++ (tokenize text).2.map Comment.mark) :=
      sortOn_perm _ _
    refine (sorted.map _).trans ?_
    rw [List.map_append, List.map_map, List.map_map]
    exact List.perm_append_comm
  constructor
  · exact (perm.pairwise_iff fun {_ _} => Or.symm).1 (List.pairwise_map.2 (apart.imp Or.inl))
  · intro s member
    obtain ⟨m, listed, rfl⟩ := List.mem_map.1 (perm.mem_iff.2 member)
    exact ⟨(each m listed).1, (each m listed).2.1⟩

/-- What is highlighted are some of the comments and the tokens. -/
theorem sublist_highlighted (text : String) : ((highlighted text).map (·.span)).Sublist
    ((tokenize text).2.map (·.span) ++ (tokenize text).1.map (·.span)) := by
  have some_ : ∀ l : List Nat, ((l.filterMap fun n => (highlight? (parse text).tree n).map fun c =>
      (⟨(parse text).tree.spanOf n, c⟩ : ClassifiedSpan)).map (·.span)).Sublist
        (l.map (parse text).tree.spanOf) := by
    intro l
    induction l with
    | nil => exact .slnil
    | cons n l ih =>
      rw [List.filterMap_cons]
      cases highlight? (parse text).tree n with
      | none => exact ih.cons _
      | some c => exact ih.cons_cons _
  have comments : (parse text).comments = (tokenize text).2 := rfl
  rw [highlighted, List.map_append, List.map_map, comments]
  exact (List.Sublist.refl _).append ((some_ _).trans (sublist_terminals text))

theorem apart_highlighted (text : String) :
    (highlighted text).Pairwise fun c c' => c.span.Apart c'.span :=
  List.pairwise_map.1 ((apart_tokenize text).1.sublist (sublist_highlighted text))

theorem within_of_highlighted {text : String} {c : ClassifiedSpan} (member : c ∈ highlighted text) :
    c.span.start < c.span.stop ∧ c.span.stop ≤ text.length :=
  (apart_tokenize text).2 c.span ((sublist_highlighted text).mem (List.mem_map_of_mem member))

end Grammar

/-! ### Sorting -/

namespace ClassifiedSpan

/-- The order of highlighted ranges: by start, then by end. -/
def order (c c' : ClassifiedSpan) : Ordering :=
  (compare c.span.start c'.span.start).then (compare c.span.stop c'.span.stop)

instance : Std.TransCmp order :=
  inferInstanceAs (Std.TransCmp (compareLex (compareOn fun c : ClassifiedSpan => c.span.start)
    (compareOn fun c : ClassifiedSpan => c.span.stop)))

end ClassifiedSpan

/-- Where no two elements come at one place, sorting some of them is taking some of the sorted. -/
theorem mergeSort_filter_of_order {α : Type} {order : α → α → Ordering} [Std.TransCmp order]
    {l : List α} (distinct : ∀ a ∈ l, ∀ b ∈ l, order a b = .eq → a = b) (keep : α → Bool) :
    ((l.filter keep).mergeSort fun a b => order a b != .gt) =
      (l.mergeSort fun a b => order a b != .gt).filter keep := by
  have perm : ((l.filter keep).mergeSort fun a b => order a b != .gt).Perm
      ((l.mergeSort fun a b => order a b != .gt).filter keep) :=
    (List.mergeSort_perm _ _).trans ((List.mergeSort_perm l _).symm.filter keep)
  refine perm.eq_of_pairwise ?_ (pairwise_mergeSort_of_order order _)
    ((pairwise_mergeSort_of_order order l).sublist List.filter_sublist)
  intro a b member member' lower upper
  have inside : a ∈ l := (List.mem_filter.1 (List.mem_mergeSort.1 member)).1
  have inside' : b ∈ l := List.mem_mergeSort.1 (List.mem_filter.1 member').1
  refine distinct a inside b inside' ?_
  cases place : order a b with
  | eq => rfl
  | gt => exact absurd place lower
  | lt => exact absurd (Std.OrientedCmp.gt_of_lt place) upper

/-! ### The record -/

namespace FileState

/-- What the record of a file highlights. -/
def tagged (s : FileState) : List ClassifiedSpan :=
  s.record.tags.entries.map (fun e => ⟨s.parsed.tree.spanOf e.1, e.2⟩) ++
    s.record.comments.map fun e => ⟨e.1, e.2⟩

theorem classified_eq (s : FileState) (start stop : Nat) : s.classified start stop =
    (s.tagged.filter fun c => c.span.overlaps start stop).mergeSort fun c c' =>
      c.order c' != .gt :=
  rfl

end FileState

namespace Engine

section Fresh

variable {before e : Engine} (fresh : Fresh before e) {p : Path} {s : FileState}
  (found : e.index.file? p = some s) {text : String} (read : ReadFrom s text)

include fresh found read

/-- The record of a file tags its terminals as its text says. -/
theorem Fresh.get?_tags (n : Nat) : s.record.tags.get? n =
    if n ∈ (Grammar.parse text).tree.terminals then Grammar.highlight? (Grammar.parse text).tree n
    else none := by
  rw [(fresh.settled found).1.marked.tags, fresh.reference?_eq found read, Binding.tagFor,
    read.dialect, read.parsed, Grammar.highlight?]
  cases defines : Grammar.dialect.definition? (Grammar.parse text).tree ∅ n with
  | none => simp only [Option.none_or]
  | some c =>
    have silent : Grammar.dialect.reference? (Grammar.parse text).tree ∅ n = none :=
      Grammar.reference?_of_definition text (Option.isSome_iff_exists.2 ⟨c, defines⟩)
    simp only [silent, Option.none_or, Option.some_or]

/-- The record of a file highlights what is highlighted of its text. -/
theorem Fresh.perm_tagged : s.tagged.Perm (Grammar.highlighted text) := by
  have entries : s.record.tags.entries.Perm ((Grammar.parse text).tree.terminals.filterMap fun n =>
      (Grammar.highlight? (Grammar.parse text).tree n).map fun c => (n, c)) := by
    refine (List.perm_ext_iff_of_nodup (Table.nodup_entries _) ?_).2 fun ⟨n, c⟩ => ?_
    · refine List.Nodup.filterMap (fun n m e here here' => ?_) (Grammar.nodup_terminals_parse text)
      obtain ⟨_, _, rfl⟩ := Option.map_eq_some_iff.1 here
      obtain ⟨_, _, same⟩ := Option.map_eq_some_iff.1 here'
      exact (congrArg Prod.fst same).symm
    · rw [← Table.get?_eq_some_iff, fresh.get?_tags found read, List.mem_filterMap]
      constructor
      · intro tag
        split at tag
        · next terminal => exact ⟨n, terminal, by rw [tag]; rfl⟩
        · cases tag
      · rintro ⟨m, terminal, tag⟩
        obtain ⟨c', tag, same⟩ := Option.map_eq_some_iff.1 tag
        cases same
        rw [if_pos terminal, tag]
  have comments : s.record.comments.map (fun e => (⟨e.1, e.2⟩ : ClassifiedSpan)) =
      (Grammar.parse text).comments.map fun c => ⟨c.span, .comment⟩ := by
    rw [(fresh.settled found).1.marked.comments, read.parsed, Dialect.commentSpans, List.map_map]
    rfl
  rw [FileState.tagged, comments, read.parsed, Grammar.highlighted]
  refine List.perm_append_comm.trans (List.Perm.append_left _ ?_)
  refine (entries.map _).trans (.of_eq ?_)
  rw [List.map_filterMap]
  congr 1
  funext n
  rw [Option.map_map]
  rfl

theorem Fresh.apart_tagged : s.tagged.Pairwise fun c c' => c.span.Apart c'.span :=
  ((fresh.perm_tagged found read).pairwise_iff fun {_ _} => Or.symm).2
    (Grammar.apart_highlighted text)

theorem Fresh.within_of_tagged {c : ClassifiedSpan} (member : c ∈ s.tagged) :
    c.span.start < c.span.stop ∧ c.span.stop ≤ text.length :=
  Grammar.within_of_highlighted ((fresh.perm_tagged found read).mem_iff.1 member)

/-- No two highlighted ranges of a file come at one place. -/
theorem Fresh.distinct_tagged : ∀ c ∈ s.tagged, ∀ c' ∈ s.tagged, c.order c' = .eq → c = c' := by
  have symmetric : Std.Symm fun c c' : ClassifiedSpan => c.span.Apart c'.span :=
    ⟨fun _ _ => Or.symm⟩
  intro c member c' member' place
  by_contra other
  have apart := (fresh.apart_tagged found read).forall member member' other
  have filled := (fresh.within_of_tagged found read member).1
  have filled' := (fresh.within_of_tagged found read member').1
  simp only [ClassifiedSpan.order, Ordering.then_eq_eq, Nat.compare_eq_eq] at place
  rcases apart with before | behind <;> omega

/-- The whole text overlaps all that is highlighted. -/
theorem Fresh.filter_tagged :
    (s.tagged.filter fun c => c.span.overlaps 0 text.length) = s.tagged := by
  refine List.filter_eq_self.2 fun c member => ?_
  obtain ⟨filled, within⟩ := fresh.within_of_tagged found read member
  simp only [Span.overlaps, Bool.and_eq_true, decide_eq_true_eq]
  omega

/-- The whole text shows what is highlighted of it. -/
theorem Fresh.perm_classified :
    (s.classified 0 text.length).Perm (Grammar.highlighted text) := by
  rw [FileState.classified_eq, fresh.filter_tagged found read]
  exact (List.mergeSort_perm _ _).trans (fresh.perm_tagged found read)

/-- A part of a file shows those of all highlighted ranges that overlap it. -/
theorem Fresh.classified_eq_filter (start stop : Nat) : s.classified start stop =
    (s.classified 0 text.length).filter fun c => c.span.overlaps start stop := by
  rw [FileState.classified_eq, FileState.classified_eq, fresh.filter_tagged found read]
  exact mergeSort_filter_of_order (fresh.distinct_tagged found read) _

/-- The highlighted ranges of a file are listed as they stand in the text. -/
theorem Fresh.ordered_classified (start stop : Nat) : (s.classified start stop).Pairwise fun c c' =>
    c.span.start < c'.span.start ∧ c.span.stop ≤ c'.span.start := by
  rw [FileState.classified_eq]
  have apart := ((List.mergeSort_perm _ fun c c' : ClassifiedSpan => c.order c' != .gt).pairwise_iff
    fun {_ _} => Or.symm).2 ((fresh.apart_tagged found read).filter fun c =>
      c.span.overlaps start stop)
  refine ((pairwise_mergeSort_of_order ClassifiedSpan.order _).and apart).imp_of_mem ?_
  rintro c c' member member' ⟨sorted, apart⟩
  have tagged := (List.mem_filter.1 (List.mem_mergeSort.1 member)).1
  have tagged' := (List.mem_filter.1 (List.mem_mergeSort.1 member')).1
  have filled := (fresh.within_of_tagged found read tagged).1
  have filled' := (fresh.within_of_tagged found read tagged').1
  rcases apart with before | behind
  · omega
  · refine absurd ?_ sorted
    rw [ClassifiedSpan.order, Nat.compare_eq_gt.2 (by omega : c'.span.start < c.span.start)]
    rfl

end Fresh

/-- With the index up to date, whatever came before, the ranges that are highlighted in a file stand
one behind the other and are not empty. They are those of its comments and of the terminals that
define a name, whether it is bound or dropped, refer to one, or are keywords or literals, each once,
as the present text says, and as the record has its definitions and references. A part of the text
shows those that overlap it. -/
theorem highlights_exact (config : Config) (operations : List Operation) {p : Path} {s : FileState}
    (current : (after config operations).needsCompile = false)
    (found : (after config operations).index.file? p = some s) :
    let e := after config operations
    ∃ d all, e.document? p = some d ∧ e.classifyRange p 0 d.text.length = .ok all ∧
      all.Perm (Grammar.highlighted d.text) ∧
      all.Pairwise (fun c c' => c.span.start < c'.span.start ∧ c.span.stop ≤ c'.span.start) ∧
      (∀ c ∈ all, c.span.start < c.span.stop ∧ c.span.stop ≤ d.text.length) ∧
      (∀ start stop, e.classifyRange p start stop =
        .ok (all.filter fun c => c.span.overlaps start stop)) ∧
      let tree := (Grammar.parse d.text).tree
      (∀ n c, s.record.defs.get? n = some c →
        n ∈ tree.terminals ∧ Grammar.dialect.definition? tree ∅ n = some c) ∧
      ∀ n, s.record.refs.get? n =
        if n ∈ tree.terminals then Grammar.dialect.reference? tree ∅ n else none := by
  intro e
  have fresh := fresh_of_current (consistent_after config operations) current
  obtain ⟨settled, d, held, read⟩ := fresh.settled found
  have ranges : ∀ start stop, e.classifyRange p start stop = .ok (s.classified start stop) := by
    intro start stop
    rw [classifyRange, boundFile, show e.index.file? p = some s from found]
    rfl
  have perm := fresh.perm_classified found read
  refine ⟨d, _, held, ranges 0 d.text.length, perm, fresh.ordered_classified found read _ _,
    fun c member => Grammar.within_of_highlighted (perm.mem_iff.1 member), fun start stop => ?_,
    fun n c noted => ?_, fun n => ?_⟩
  · rw [ranges, fresh.classified_eq_filter found read]
  · obtain ⟨id, listed⟩ := settled.attached.recorded.defs n c noted
    obtain ⟨terminal, c', _, _, defines, noted', _⟩ :=
      settled.attached.recorded.described n id listed
    rw [noted] at noted'
    cases noted'
    rw [read.parsed] at terminal defines
    rw [read.dialect] at defines
    exact ⟨terminal, defines⟩
  · rw [settled.marked.refs, fresh.reference?_eq found read, read.parsed]

/-- A comment, a definition that comes twice, a keyword, a literal and a reference. -/
def coloured : List Operation :=
  [.openDocument (.of "a.g4") "// a\nfragment A : 'a' ; A : A ;", .compile]

/-- The definition that comes too late is highlighted as the first one is. -/
theorem highlights_exact_coloured : ∃ d all,
    (after {} coloured).document? (.of "a.g4") = some d ∧
      (after {} coloured).classifyRange (.of "a.g4") 0 d.text.length = .ok all ∧
      all.Perm [⟨⟨0, 4⟩, .comment⟩, ⟨⟨5, 13⟩, .keyword⟩, ⟨⟨14, 15⟩, .terminal⟩,
        ⟨⟨18, 21⟩, .literal⟩, ⟨⟨24, 25⟩, .terminal⟩, ⟨⟨28, 29⟩, .terminal⟩] ∧
      (after {} coloured).classifyRange (.of "a.g4") 20 24 =
        .ok (all.filter fun c => c.span.overlaps 20 24) := by
  have indexed : ((after {} coloured).index.file? (.of "a.g4")).isSome = true := by decide +kernel
  obtain ⟨s, found⟩ := Option.isSome_iff_exists.1 indexed
  obtain ⟨d, all, held, whole, exact_, _, _, parts, _⟩ :=
    highlights_exact {} coloured (by decide +kernel) found
  have text : ((after {} coloured).document? (.of "a.g4")).map (·.text) =
      some "// a\nfragment A : 'a' ; A : A ;" := by decide +kernel
  rw [held, Option.map_some, Option.some.injEq] at text
  have shown : Grammar.highlighted d.text = [⟨⟨0, 4⟩, .comment⟩, ⟨⟨5, 13⟩, .keyword⟩,
      ⟨⟨14, 15⟩, .terminal⟩, ⟨⟨18, 21⟩, .literal⟩, ⟨⟨24, 25⟩, .terminal⟩,
      ⟨⟨28, 29⟩, .terminal⟩] := by
    rw [text]
    decide +kernel
  exact ⟨d, all, held, whole, shown ▸ exact_, parts 20 24⟩

end Engine

end GrammarIndex

import GrammarIndex.Proofs.Grammar.Built
import GrammarIndex.Proofs.Tree

/-!
Trees that grow while a text is read.

A parser needs no derivation. It opens a construct when it comes to its first token, appends what it
reads below it, notes the error leaves down as they come, and gives the construct its range when it
closes it. A tree that grows in this order is the numbered derivation, and the error leaves are
those of the tree in ascending order.
-/
namespace GrammarIndex.Grammar

open GrammarIndex.Derivation

/-- What has been built so far: a tree, and its error leaves in the order of insertion. -/
structure Growth where
  tree : SyntaxTree
  errors : List Nat
  deriving DecidableEq, Repr

namespace Growth

/-- Nothing but the root. -/
def seed : Growth := ⟨.leaf .grammarSpec, []⟩

/-- Append a leaf below a node. An error leaf is noted down. -/
def leaf (g : Growth) (parent : Nat) (kind : NodeKind) (span : Span) : Growth where
  tree := g.tree.push parent kind span
  errors := if kind.isError then g.errors ++ [g.tree.size] else g.errors

/-- Open a construct below a node, empty at the place where the next token starts. -/
def opened (g : Growth) (parent : Nat) (name : RuleName) (start : Nat) : Growth :=
  { g with tree := g.tree.push parent (.rule name) (.point start) }

/-- Close a construct. It spans from its first to its last child; without children it keeps the
range that it was opened with. -/
def closed (g : Growth) (id : Nat) : Growth :=
  match (g.tree.childrenOf id).head?, (g.tree.childrenOf id).getLast? with
  | some first, some last =>
    let span : Span := ⟨(g.tree.spanOf first).start, (g.tree.spanOf last).stop⟩
    { g with tree := g.tree.setSpan id span }
  | _, _ => g

mutual

/-- Build what was read below a node, in the order of reading: a construct is opened, then comes all
that it holds, then it is closed. -/
def build (g : Growth) (parent : Nat) : Derivation → Growth
  | .node (.rule name) span children =>
    ((g.opened parent name span.start).buildAll g.tree.size children).closed g.tree.size
  | .node kind span _ => g.leaf parent kind span

def buildAll (g : Growth) (parent : Nat) : List Derivation → Growth
  | [] => g
  | d :: rest => (g.build parent d).buildAll parent rest

end

/-- What is built when a text has been read: all top-level constructs below the root, which spans
the whole text in the end. -/
def ofText (text : String) : Growth :=
  let g := seed.buildAll 0 (items text.length (tokenize text).1)
  { g with tree := g.tree.setSpan 0 ⟨0, text.length⟩ }

/-! ### Nodes in their places -/

section Laid

variable {t : SyntaxTree} {before after : List Node} {node : Node}

theorem toList_modify_of_laid (laid : t.nodes.toList = before ++ node :: after)
    (f : Node → Node) : (t.nodes.modify before.length f).toList = before ++ f node :: after := by
  rw [Array.toList_modify, laid, List.modify_eq_take_cons_drop (by simp)]
  simp

theorem size_of_laid (laid : t.nodes.toList = before ++ node :: after) :
    t.size = before.length + 1 + after.length := by
  rw [SyntaxTree.size, ← Array.length_toList, laid]
  simp
  omega

/-- A node that is appended is the last one, and the last child of its parent. -/
theorem toList_push_of_laid (laid : t.nodes.toList = before ++ node :: after) (kind : NodeKind)
    (span : Span) : (t.push before.length kind span).nodes.toList =
      before ++ { node with children := node.children ++ [t.size] } ::
        (after ++ [⟨kind, span, some before.length, []⟩]) := by
  simp only [SyntaxTree.push, Array.toList_push]
  rw [toList_modify_of_laid laid]
  simp [SyntaxTree.size]

theorem toList_setSpan_of_laid (laid : t.nodes.toList = before ++ node :: after) (span : Span) :
    (t.setSpan before.length span).nodes.toList = before ++ { node with span } :: after := by
  rw [SyntaxTree.setSpan]
  exact toList_modify_of_laid laid _

/-- A construct that is opened stands behind all nodes that were there, the last child of its
parent. -/
theorem opened_laid {g : Growth} (laid : g.tree.nodes.toList = before ++ node :: after)
    (name : RuleName) (start : Nat) : ∃ front,
      front = before ++ { node with children := node.children ++ [g.tree.size] } :: after ∧
      front.length = g.tree.size ∧
      (g.opened before.length name start).tree.nodes.toList =
        front ++ [⟨.rule name, .point start, some before.length, []⟩] := by
  have place : (before ++ { node with children := node.children ++ [g.tree.size] } ::
      after).length = g.tree.size := by
    rw [size_of_laid laid]
    simp
    omega
  refine ⟨_, rfl, place, ?_⟩
  rw [opened, toList_push_of_laid laid]
  simp

/-- Closing a construct gives it the extent of what it holds. -/
theorem toList_closed {g : Growth} {name : RuleName} {start : Nat} {parent : Option Nat}
    {numbers : List Nat} (ds : List Derivation)
    (laid : g.tree.nodes.toList =
      before ++ ⟨.rule name, .point start, parent, numbers⟩ :: after)
    (spans : numbers.map g.tree.spanOf = ds.map (·.span)) :
    (g.closed before.length).tree.nodes.toList =
      before ++ ⟨.rule name, extent start ds, parent, numbers⟩ :: after := by
  have children : g.tree.childrenOf before.length = numbers := by
    rw [SyntaxTree.childrenOf, node?_of_laid laid]
    rfl
  have first := congrArg List.head? spans
  have last := congrArg List.getLast? spans
  rw [List.head?_map, List.head?_map] at first
  rw [List.getLast?_map, List.getLast?_map] at last
  rw [closed, children, extent]
  cases head : ds.head? with
  | none =>
    rw [head, Option.map_none, Option.map_eq_none_iff] at first
    rw [first]
    exact laid
  | some d =>
    obtain ⟨d', tail⟩ : ∃ d', ds.getLast? = some d' := by
      cases ds with
      | nil => cases head
      | cons d ds => exact ⟨_, List.getLast?_cons⟩
    rw [head, Option.map_some] at first
    rw [tail, Option.map_some] at last
    obtain ⟨n, isFirst, start⟩ := Option.map_eq_some_iff.1 first
    obtain ⟨n', isLast, stop⟩ := Option.map_eq_some_iff.1 last
    rw [isFirst, isLast, tail]
    simp only [start, stop]
    exact toList_setSpan_of_laid laid _

theorem errors_closed (g : Growth) (id : Nat) : (g.closed id).errors = g.errors := by
  unfold closed
  split <;> rfl

end Laid

/-! ### Error leaves -/

/-- The numbers of the error leaves among nodes, the first of which has number `id`. -/
def errorsIn (id : Nat) (nodes : List Node) : List Nat :=
  ((nodes.zipIdx id).filter (·.1.kind.isError)).map (·.2)

theorem errorsIn_append (id : Nat) (nodes nodes' : List Node) :
    errorsIn id (nodes ++ nodes') = errorsIn id nodes ++ errorsIn (id + nodes.length) nodes' := by
  rw [errorsIn, List.zipIdx_append, List.filter_append, List.map_append]
  rfl

theorem errorsIn_cons (id : Nat) (node : Node) (nodes : List Node) :
    errorsIn id (node :: nodes) =
      (if node.kind.isError then [id] else []) ++ errorsIn (id + 1) nodes := by
  rw [errorsIn, List.zipIdx_cons, List.filter_cons]
  split <;> rfl

/-- The error leaves of a tree, listed by its nodes. -/
theorem errorsOf_eq (t : SyntaxTree) : errorsOf t = errorsIn 0 t.nodes.toList := by
  have places : List.range t.size = (t.nodes.toList.zipIdx 0).map (·.2) := by
    rw [List.zipIdx_map_snd, List.range_eq_range', Array.length_toList]
    rfl
  rw [errorsOf, places, List.filter_map, errorsIn]
  congr 1
  apply List.filter_congr
  intro e member
  have found := List.mem_zipIdx_iff_getElem?.1 member
  rw [Array.getElem?_toList] at found
  simp [SyntaxTree.kind?, SyntaxTree.node?, found]

/-! ### Building -/

/-- Constructs span from their first to their last child, and only they have children. -/
def Closed : Derivation → Prop
  | .node (.rule _) span children => span = extent span.start children
  | .node _ _ children => children = []

mutual

/-- Building below a node appends the numbered derivation, as its last child, and notes the error
leaves of it down. -/
theorem build_laid (d : Derivation) (fit : ∀ part ∈ d.parts, Closed part) {g : Growth}
    {before after : List Node} {node : Node}
    (laid : g.tree.nodes.toList = before ++ node :: after) :
    (g.build before.length d).tree.nodes.toList =
        before ++ { node with children := node.children ++ [g.tree.size] } ::
          (after ++ d.flatten (some before.length) g.tree.size) ∧
      (g.build before.length d).errors =
        g.errors ++ errorsIn g.tree.size (d.flatten (some before.length) g.tree.size) := by
  cases d with
  | node kind span children =>
    have here := fit _ (by rw [parts]; exact List.mem_cons_self)
    cases kind with
    | terminal token text =>
      obtain rfl : children = [] := here
      exact ⟨toList_push_of_laid laid _ span, (List.append_nil _).symm⟩
    | error text =>
      obtain rfl : children = [] := here
      exact ⟨toList_push_of_laid laid _ span, rfl⟩
    | rule name =>
      obtain ⟨front, isFront, place, opening⟩ := opened_laid laid name span.start
      have next : (g.opened before.length name span.start).tree.size = front.length + 1 :=
        size_of_laid opening
      obtain ⟨inside, errors⟩ := buildAll_laid children
        (fun p part => fit p (by rw [parts]; exact List.mem_cons_of_mem _ part)) opening
      rw [next] at inside errors
      rw [List.nil_append] at inside
      have spans := (@children_of_laid children _ (some front.length)
        (front ++ [⟨.rule name, .point span.start, some before.length, _⟩]) []
        (by simpa using inside)).2.1
      rw [List.length_append, List.length_singleton] at spans
      have closing := toList_closed children inside spans
      rw [← here, place] at closing
      rw [place] at errors
      rw [build, flatten]
      refine ⟨?_, ?_⟩
      · rw [closing, isFront]
        simp
      · rw [errors_closed, errors, errorsIn_cons]
        rfl

theorem buildAll_laid (ds : List Derivation) (fit : ∀ part ∈ partsAll ds, Closed part) {g : Growth}
    {before after : List Node} {node : Node}
    (laid : g.tree.nodes.toList = before ++ node :: after) :
    (g.buildAll before.length ds).tree.nodes.toList =
        before ++ { node with
          children := node.children ++ (flattenAll (some before.length) g.tree.size ds).1 } ::
          (after ++ (flattenAll (some before.length) g.tree.size ds).2) ∧
      (g.buildAll before.length ds).errors =
        g.errors ++ errorsIn g.tree.size (flattenAll (some before.length) g.tree.size ds).2 := by
  cases ds with
  | nil => simp [buildAll, flattenAll, laid, errorsIn]
  | cons d rest =>
    rw [partsAll] at fit
    obtain ⟨tree, errors⟩ := build_laid d (fun p part => fit p (List.mem_append_left _ part)) laid
    obtain ⟨trees, noted⟩ :=
      buildAll_laid rest (fun p part => fit p (List.mem_append_right _ part)) tree
    have size : (g.build before.length d).tree.size =
        g.tree.size + (d.flatten (some before.length) g.tree.size).length := by
      rw [size_of_laid tree, size_of_laid laid, List.length_append]
      omega
    rw [size] at trees noted
    rw [buildAll, flattenAll]
    refine ⟨?_, ?_⟩
    · rw [trees]
      simp
    · rw [noted, errors, errorsIn_append, List.append_assoc]

end

end Growth

/-! ### Reading -/

theorem partsAll_leaf (t : Token) : partsAll [leaf t] = [leaf t] := rfl

theorem partsAll_stray (t : Token) : partsAll [stray t] = [stray t] := rfl

theorem partsAll_missing (what : String) (offset : Nat) :
    partsAll [missing what offset] = [missing what offset] := rfl

theorem partsAll_construct (name : RuleName) (offset : Nat) (ds : List Derivation) :
    partsAll [construct name offset ds] = construct name offset ds :: partsAll ds := by
  simp [partsAll, construct, parts]

/-- Whatever readers build, constructs span what they hold. -/
theorem Built.closed {fits : RuleName → List Derivation → Prop} {stop : Nat}
    {ds : List Derivation} {left toks : List Token} (built : Built fits stop ds left toks) :
    ∀ d ∈ partsAll ds, Growth.Closed d := by
  induction built with
  | nil toks => exact fun d member => by cases member
  | leaf t rest =>
    rw [partsAll_leaf]
    intro d member
    rw [List.mem_singleton.1 member]
    unfold Grammar.leaf
    split <;> rfl
  | stray t rest =>
    rw [partsAll_stray]
    intro d member
    rw [List.mem_singleton.1 member]
    rfl
  | missing what toks =>
    rw [partsAll_missing]
    intro d member
    rw [List.mem_singleton.1 member]
    rfl
  | @construct name ds left toks _ _ ih =>
    rw [partsAll_construct]
    intro d member
    rcases List.mem_cons.1 member with rfl | member
    · cases head : ds.head? <;> cases last : ds.getLast? <;>
        simp [Grammar.construct, Growth.Closed, extent, head, last, Span.point]
    · exact ih d member
  | append _ _ first second =>
    rw [partsAll_append]
    intro d member
    exact (List.mem_append.1 member).elim (first d) (second d)

/-- Growing in the order of reading gives the tree of a text and its error leaves. -/
theorem Growth.ofText_eq (text : String) :
    Growth.ofText text = ⟨(parse text).tree, (parse text).errors⟩ := by
  have built := built_items text.length (tokenize text).1
  have root : Growth.seed.tree.nodes.toList =
      [] ++ [⟨.rule .grammarSpec, ⟨0, 0⟩, none, []⟩] := rfl
  obtain ⟨grown, noted⟩ := Growth.buildAll_laid _ built.closed root
  have spanned := Growth.toList_setSpan_of_laid grown ⟨0, text.length⟩
  have whole : (parse text).tree.nodes.toList =
      (derive text.length (tokenize text).1).flatten none 0 := List.toList_toArray
  rw [derive, flatten] at whole
  have nodes : (Growth.ofText text).tree.nodes.toList = (parse text).tree.nodes.toList := by
    rw [whole]
    exact spanned
  have tree : (Growth.ofText text).tree = (parse text).tree :=
    congrArg SyntaxTree.mk (Array.toList_inj.1 nodes)
  have errors : (Growth.ofText text).errors = (parse text).errors := by
    have listed : (parse text).errors = errorsOf (parse text).tree := rfl
    rw [listed, Growth.errorsOf_eq, whole, Growth.errorsIn_cons]
    exact noted
  rw [← tree, ← errors]

end GrammarIndex.Grammar

import SharpLint.Syntax.Kind
import SharpLint.Text.Basic

/-!
# Syntax Trees and Places in Them

A syntax tree keeps every token and comment of a source at its byte span. A
`Place` is a node together with the way to it from the root, so that parents
and siblings can be asked for; two places of one tree are the same node when
the ways to them are the same.

## Main definitions

* `Tree`: a node with its children.
* `Tree.WellFormed`: children stand in order, apart, and inside their parent.
* `Place`: a node and its ancestors.
* `Place.descendants`: the nodes below a place and itself, in source order.
* `Place.covering`: the smallest node that covers a span.
-/

namespace SharpLint

/-- A node of a syntax tree. -/
structure Tree where
  kind : Kind
  /-- The part that the node plays in its parent. -/
  label : Option Label := none
  span : Span
  /-- The text of a token; empty for a node with children. -/
  lexeme : String := ""
  children : List Tree := []
  deriving Repr, Inhabited

namespace Tree

/-- A token. -/
def ofToken (kind : Kind) (span : Span) (lexeme : String) : Tree :=
  { kind, span, lexeme }

/-- Whether the node stands outside the rules of the grammar. -/
def isExtra (tree : Tree) : Bool :=
  tree.kind.isExtra

/-- Children that stand in order, apart from each other, after byte `from`. -/
def Ordered («from» : Nat) : List Tree → Prop
  | [] => True
  | tree :: trees =>
    «from» ≤ tree.span.start ∧ tree.span.start ≤ tree.span.stop
      ∧ Ordered tree.span.stop trees

/-- Every child lies inside its parent, after the sibling before it. -/
inductive WellFormed : Tree → Prop
  | intro {tree : Tree}
      (proper : tree.span.start ≤ tree.span.stop)
      (ordered : Ordered tree.span.start tree.children)
      (inside : ∀ child ∈ tree.children, child.span.stop ≤ tree.span.stop)
      (below : ∀ child ∈ tree.children, WellFormed child) : WellFormed tree

mutual

/-- Whether the tree holds source that fits no rule. -/
def hasError : Tree → Bool
  | ⟨kind, _, _, _, children⟩ => kind == .error || anyError children

/-- Whether one of the trees holds source that fits no rule. -/
def anyError : List Tree → Bool
  | [] => false
  | tree :: trees => hasError tree || anyError trees

end

mutual

/-- The number of nodes of the tree. -/
def count : Tree → Nat
  | ⟨_, _, _, _, children⟩ => 1 + countAll children

/-- The number of nodes of the trees. -/
def countAll : List Tree → Nat
  | [] => 0
  | tree :: trees => count tree + countAll trees

end

end Tree

/-- A node of a tree with the way to it: each ancestor, nearest first, and the
    number of the child that leads on. -/
structure Place where
  node : Tree
  above : List (Tree × Nat) := []
  deriving Inhabited

namespace Place

/-- The root of a tree. -/
def root (tree : Tree) : Place :=
  ⟨tree, []⟩

/-- The numbers of the children on the way, the last step first. -/
def path (place : Place) : List Nat :=
  place.above.map Prod.snd

/-- Whether two places of one tree are the same node. -/
def same (a b : Place) : Bool :=
  a.path == b.path

/-- The kind of the node. -/
def kind (place : Place) : Kind := place.node.kind
/-- The span of the node. -/
def span (place : Place) : Span := place.node.span
/-- The byte at which the node starts. -/
def start (place : Place) : Nat := place.node.span.start
/-- The byte at which the node stops. -/
def stop (place : Place) : Nat := place.node.span.stop

/-- Whether the node is of kind `kind`. -/
def isA (place : Place) (kind : Kind) : Bool :=
  place.node.kind == kind

/-- The text of the token at the place. -/
def lexeme (place : Place) : String := place.node.lexeme

/-- The node that the place is a child of. -/
def parent? (place : Place) : Option Place :=
  match place.above with
  | [] => none
  | (tree, _) :: above => some ⟨tree, above⟩

/-- The ancestors of a node that is reached by `above`, nearest first. -/
def ancestorsFrom : List (Tree × Nat) → List Place
  | [] => []
  | (tree, _) :: above => ⟨tree, above⟩ :: ancestorsFrom above

/-- The ancestors of the place, nearest first. -/
def ancestors (place : Place) : List Place :=
  ancestorsFrom place.above

/-- The nearest ancestor whose kind satisfies `p`. -/
def ancestor? (place : Place) (p : Kind → Bool) : Option Place :=
  place.ancestors.find? fun ancestor => p ancestor.kind

/-- Child number `n` of the place. -/
def child? (place : Place) (n : Nat) : Option Place :=
  place.node.children[n]?.map fun tree => ⟨tree, (place.node, n) :: place.above⟩

/-- The children of the place, in order. -/
def children (place : Place) : List Place :=
  place.node.children.mapIdx fun n tree => ⟨tree, (place.node, n) :: place.above⟩

/-- The children that are not plain tokens. -/
def namedChildren (place : Place) : List Place :=
  place.children.filter fun child => child.kind.isNamed

/-- The children of kind `kind`. -/
def childrenOf (place : Place) (kind : Kind) : List Place :=
  place.namedChildren.filter (·.isA kind)

/-- The first child of kind `kind`. -/
def firstOf? (place : Place) (kind : Kind) : Option Place :=
  place.namedChildren.find? (·.isA kind)

/-- The first child with the given label. -/
def labelled? (place : Place) (label : Label) : Option Place :=
  place.children.find? fun child => child.node.label == some label

/-- Whether the place is the first child of `parent` with the given label. -/
def plays (place parent : Place) (label : Label) : Bool :=
  match parent.labelled? label with
  | some child => child.same place
  | none => false

/-- The sibling `step` places after this one. -/
def sibling? (place : Place) (number : Nat → Option Nat) : Option Place :=
  match place.above with
  | [] => none
  | (tree, n) :: above =>
    match number n with
    | none => none
    | some m => tree.children[m]?.map fun sibling => ⟨sibling, (tree, m) :: above⟩

/-- The sibling just after the place. -/
def next? (place : Place) : Option Place :=
  place.sibling? fun n => some (n + 1)

/-- The sibling just before the place. -/
def previous? (place : Place) : Option Place :=
  place.sibling? fun n => if n = 0 then none else some (n - 1)

/-- The siblings after the place, nearest first. -/
def following (place : Place) : List Place :=
  match place.above with
  | [] => []
  | (tree, n) :: above =>
    (tree.children.drop (n + 1)).mapIdx fun i sibling => ⟨sibling, (tree, n + 1 + i) :: above⟩

/-- The siblings before the place, nearest first. -/
def preceding (place : Place) : List Place :=
  match place.above with
  | [] => []
  | (tree, n) :: above =>
    ((tree.children.take n).mapIdx fun i sibling => (⟨sibling, (tree, i) :: above⟩ : Place)).reverse

mutual

/-- The nodes of `tree`, which is reached by `above`, in source order: a node
    before what is below it. -/
def nodesFrom (above : List (Tree × Nat)) : Tree → List Place
  | ⟨kind, label, span, lexeme, children⟩ =>
    let tree : Tree := ⟨kind, label, span, lexeme, children⟩
    ⟨tree, above⟩ :: nodesFromAll tree above 0 children

/-- The nodes of the children of `parent` from number `n` on. -/
def nodesFromAll (parent : Tree) (above : List (Tree × Nat)) (n : Nat) : List Tree → List Place
  | [] => []
  | tree :: trees => nodesFrom ((parent, n) :: above) tree ++ nodesFromAll parent above (n + 1) trees

end

/-- The place and all nodes below it, in source order. -/
def descendants (place : Place) : List Place :=
  nodesFrom place.above place.node

/-- The name of a declarator, parameter or declaration: what is labelled so,
    or else the first identifier. -/
def name? (place : Place) : Option Place :=
  (place.labelled? .name).or (place.firstOf? .identifier)

mutual

/-- The smallest node of `tree`, reached by `above`, that covers the span. -/
def coveringFrom (span : Span) (above : List (Tree × Nat)) : Tree → Place
  | ⟨kind, label, at', lexeme, children⟩ =>
    let tree : Tree := ⟨kind, label, at', lexeme, children⟩
    (coveringAmong span tree above 0 children).getD ⟨tree, above⟩

/-- The smallest node below one of the children of `parent`, from number `n`
    on, that covers the span: below the first child that reaches past its
    start and as far as its stop, if that child does not start after it. -/
def coveringAmong (span : Span) (parent : Tree) (above : List (Tree × Nat)) (n : Nat) :
    List Tree → Option Place
  | [] => none
  | tree :: trees =>
    if tree.span.stop < span.stop || tree.span.stop ≤ span.start then
      coveringAmong span parent above (n + 1) trees
    else if span.start < tree.span.start then none
    else some (coveringFrom span ((parent, n) :: above) tree)

end

/-- The smallest node at or below the place that covers the span. -/
def covering (place : Place) (span : Span) : Place :=
  coveringFrom span place.above place.node

/-- The node of kind `kind` that spans exactly `span`. -/
def at? (place : Place) (span : Span) (kind : Kind) : Option Place :=
  let smallest := place.covering span
  ((smallest :: smallest.ancestors).takeWhile fun node => node.span.within span).find?
    fun node => node.isA kind && node.span == span

end Place

end SharpLint

import SharpLint.Syntax.Grammar.Members
import SharpLint.Text.Lines

/-!
# Documents

A document is a source with its syntax tree. It never changes: a fix yields a
new source, which is parsed again.

## Main definitions

* `Document`: a source, its lines and its tree.
* `Document.parse`: the document of a source.
* `Document.hasErrors`: whether some of the source fits no form.
-/

namespace SharpLint

/-- A source with its syntax tree. -/
structure Document where
  source : Text
  lines : LineTable
  tree : Tree
  deriving Inhabited

namespace Document

/-- A bound on the number of phrases in progress while a source of `size`
    characters is read. -/
def depthBound (size : Nat) : Nat :=
  16 * size + 64

/-- The tree over the nodes of a whole source. -/
def rootOver (source : Text) (trees : List Tree) : Tree :=
  let stop := source.size
  { kind := .compilationUnit
    span := ⟨(trees.head?.map fun tree => tree.span.start).getD stop, stop⟩
    children := trees }

/-- The nodes of the whole source, if all of it fits the grammar. -/
def read? (grammar : Grammar) (source : Text) : Option (List Tree) :=
  let limit := List.length source + 1
  let (extras, start) := Gap.skip .free limit (.ofText source)
  match grammar.read limit (depthBound limit) .unit start with
  | some (trees, _) => some (extras ++ trees)
  | none => none

/-- The nodes of a source that does not fit the grammar: all of it is one
    error. -/
def broken (source : Text) : List Tree :=
  [{ kind := .error, span := ⟨0, source.size⟩ }]

/-- The tree of a source. Where the source fits no form, the bodies of
    functions are read as errors, and else all of it is. -/
def treeOf (source : Text) : Tree :=
  let trees := (read? Grammar.csharp source).or (read? Grammar.tolerant source)
  rootOver source (trees.getD (broken source))

/-- The document of a source. -/
def parse (source : Text) : Document :=
  ⟨source, .ofText source, treeOf source⟩

/-- Whether some of the source fits no form. -/
def hasErrors (document : Document) : Bool :=
  document.tree.hasError

/-- The root of the tree. -/
def root (document : Document) : Place :=
  .root document.tree

/-- The text of a node. -/
def textOf (document : Document) (place : Place) : Text :=
  document.source.slice place.span

end Document

end SharpLint

import SharpLint.Syntax.Cursor

/-!
# Forms

A form describes a stretch of source: a token, a choice, a repetition. Forms
are tried in order and the first that fits is taken, so a form reads at most
one way. Reading yields the nodes of the stretch with the comments and
directives behind its tokens; a node gives those behind its last token to its
parent, so that no node ends with them.

A form may call a phrase, which a grammar turns into a form again; the number
of calls in progress is bounded, so that reading ends on every text.

## Main definitions

* `Phrase`: the named parts of the language.
* `Form`: the descriptions.
* `Form.read`: reads a stretch of the given form, if the source has one.
* `Grammar`: the form of every phrase.
* `Grammar.read`: reads a phrase.
-/

namespace SharpLint

/-- The stretches of source that one conditional directive may hold. -/
inductive Section
  | items
  | members
  | statements
  | enumMembers
  deriving DecidableEq, Repr

/-- The named parts of the language. -/
inductive Phrase
  | unit
  | part (section_ : Section)
  | conditional (section_ : Section)
  | alternative (section_ : Section)
  | condition
  | attributeList
  | parameterList
  | argumentList
  | bracketedArgumentList
  | declarationList
  | functionBody
  | block
  | statement
  | type
  /-- A type without array ranks. -/
  | elementType
  | typeArguments
  | variableDeclaration
  | tuplePattern
  /-- An expression whose operators bind at least as tightly as `level`; a
      `bare` one ends before a lambda arrow. -/
  | operand (bare : Bool) (level : Nat)
  | unary (bare : Bool)
  | initializer
  | interpolated
  | queryBody
  | pattern
  | plainPattern
  | designations
  /-- Brackets with anything balanced between them. -/
  | group
  /-- Anything in which braces are balanced. -/
  | debris
  deriving DecidableEq, Repr

/-- What a stretch of source looks like. -/
inductive Form
  | nothing
  /-- One token and the gap behind it. -/
  | token (kind : Kind) (lexeme : Lexeme) (gap : Gap)
  /-- Goes on only where the form fits, and reads nothing. -/
  | ahead (form : Form)
  /-- Goes on only where the form does not fit, and reads nothing. -/
  | unless (form : Form)
  /-- Goes on only where no gap stands before the cursor. -/
  | glued
  | seq (first second : Form)
  | alt (first second : Form)
  | many (form : Form)
  /-- Makes a node of what the form reads. -/
  | node (kind : Kind) (form : Form)
  /-- Says which part the node that the form reads plays in its parent. -/
  | label (part : Label) (form : Form)
  | call (phrase : Phrase)
  /-- Reads `base`, then `step` as often as it fits. What was read so far
      becomes the first child of the node that a step yields. -/
  | grow (base step : Form)
  deriving Repr

namespace Form

/-- The nodes read and the cursor behind them. -/
abbrev Reading := Option (List Tree × Cursor)

/-- The trees up to the last one that is no comment or directive, and the
    comments and directives behind it. -/
def splitExtras : List Tree → List Tree × List Tree
  | [] => ([], [])
  | tree :: trees =>
    match splitExtras trees with
    | ([], extras) => if tree.isExtra then ([], tree :: extras) else ([tree], extras)
    | (inner, extras) => (tree :: inner, extras)

/-- One node over the trees, followed by the comments and directives that end
    them. Without a tree there is no node. -/
def enclose (kind : Kind) (trees : List Tree) : Option (List Tree) :=
  match splitExtras trees with
  | ([], _) => none
  | (first :: inner, extras) =>
    let last := (first :: inner).getLastD first
    some ({ kind, span := ⟨first.span.start, last.span.stop⟩, children := first :: inner } :: extras)

/-- The trees, the first with the given label. -/
def relabel (label : Label) : List Tree → List Tree
  | [] => []
  | tree :: trees => { tree with label := some label } :: trees

/-- The part that what was read first plays in a node grown over it. -/
def grownLabel : Kind → Option Label
  | .memberAccessExpression => some .expression
  | .assignmentExpression | .binaryExpression | .isExpression | .asExpression => some .left
  | .arrayType | .nullableType | .pointerType => some .type
  | _ => none

/-- Makes `base` the first child of the first of the `grown` trees. -/
def adopt (base grown : List Tree) : List Tree :=
  match base, grown with
  | first :: rest, grownOn :: extras =>
    let labelled := { first with label := grownLabel grownOn.kind }
    { grownOn with
      span := ⟨first.span.start, grownOn.span.stop⟩
      children := labelled :: rest ++ grownOn.children } :: extras
  | _, _ => base

/-- Reads with `step` at most `limit` times. -/
def iterate (step : Cursor → Reading) : Nat → Cursor → List Tree × Cursor
  | 0, cursor => ([], cursor)
  | limit + 1, cursor =>
    match step cursor with
    | none => ([], cursor)
    | some (trees, after) =>
      let (more, cursor) := iterate step limit after
      (trees ++ more, cursor)

/-- Lets `base` grow with `step` at most `limit` times. -/
def growFrom (step : Cursor → Reading) : Nat → List Tree → Cursor → List Tree × Cursor
  | 0, base, cursor => (base, cursor)
  | limit + 1, base, cursor =>
    match step cursor with
    | none => (base, cursor)
    | some (grown, after) => growFrom step limit (adopt base grown) after

/-- Reads a stretch of the form. `call` reads phrases, and nothing is repeated
    more than `limit` times. -/
def read (call : Phrase → Cursor → Reading) (limit : Nat) : Form → Cursor → Reading
  | nothing, cursor => some ([], cursor)
  | token kind lexeme gap, cursor =>
    match lexeme.length cursor.rest with
    | 0 => none
    | n =>
      let (tree, after) := cursor.take kind n
      let (extras, next) := gap.skip limit { after with stop := after.offset }
      some (tree :: extras, next)
  | ahead form, cursor =>
    match read call limit form cursor with
    | some _ => some ([], cursor)
    | none => none
  | .unless form, cursor =>
    match read call limit form cursor with
    | some _ => none
    | none => some ([], cursor)
  | glued, cursor => if cursor.offset = cursor.stop then some ([], cursor) else none
  | seq first second, cursor =>
    match read call limit first cursor with
    | none => none
    | some (trees, middle) =>
      match read call limit second middle with
      | none => none
      | some (more, after) => some (trees ++ more, after)
  | alt first second, cursor =>
    match read call limit first cursor with
    | some reading => some reading
    | none => read call limit second cursor
  | many form, cursor => some (iterate (read call limit form) limit cursor)
  | node kind form, cursor =>
    match read call limit form cursor with
    | none => none
    | some (trees, after) => (enclose kind trees).map fun trees => (trees, after)
  | label part form, cursor =>
    match read call limit form cursor with
    | none => none
    | some (trees, after) => some (relabel part trees, after)
  | .call phrase, cursor => call phrase cursor
  | grow base step, cursor =>
    match read call limit base cursor with
    | none => none
    | some (trees, after) => some (growFrom (read call limit step) limit trees after)

/-- One form after the other. -/
def all (forms : List Form) : Form :=
  forms.foldr seq nothing

/-- The first form that fits. -/
def any (forms : List Form) : Form :=
  match forms.reverse with
  | [] => .unless nothing
  | last :: before => before.foldl (fun rest form => alt form rest) last

/-- The form or nothing. -/
def opt (form : Form) : Form :=
  alt form nothing

/-- The form once or more, with `mark` between. -/
def sepBy (form mark : Form) : Form :=
  seq form (many (seq mark form))

end Form

/-- The form of every phrase. -/
abbrev Grammar := Phrase → Form

/-- Reads a phrase, with at most `depth` phrases in progress. -/
def Grammar.read (grammar : Grammar) (limit : Nat) : Nat → Phrase → Cursor → Form.Reading
  | 0, _, _ => none
  | depth + 1, phrase, cursor =>
    Form.read (Grammar.read grammar limit depth) limit (grammar phrase) cursor

end SharpLint

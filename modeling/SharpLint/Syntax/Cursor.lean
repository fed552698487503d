import SharpLint.Syntax.Lexeme
import SharpLint.Syntax.Tree
import SharpLint.Text.Blank

/-!
# Cursors and Gaps

A cursor is a place between two tokens of a source. Between tokens stand
blanks, which leave no trace in the tree, and comments and directives, which
become nodes of their own wherever they stand.

## Main definitions

* `Cursor`: how far a source is read.
* `Cursor.advance`: moves over characters.
* `Gap`: what may stand between a token and the next.
* `Gap.skip`: moves over a gap, and gives the nodes found there.
-/

namespace SharpLint

/-- A place in a source, with what follows it. -/
structure Cursor where
  /-- The byte offset of the place. -/
  offset : Nat
  rest : Text
  /-- The byte offset at which the last token stopped. -/
  stop : Nat
  deriving Repr

namespace Cursor

/-- The cursor at the start of a text. -/
def ofText (text : Text) : Cursor :=
  ⟨0, text, 0⟩

/-- The cursor `n` characters on. -/
def advance (n : Nat) (cursor : Cursor) : Cursor :=
  { cursor with
    offset := cursor.offset + Text.size (cursor.rest.take n)
    rest := cursor.rest.drop n }

/-- A leaf of the next `n` characters, and the cursor behind it. -/
def take (kind : Kind) (n : Nat) (cursor : Cursor) : Tree × Cursor :=
  let after := cursor.advance n
  (.ofToken kind ⟨cursor.offset, after.offset⟩ (String.ofList (cursor.rest.take n)), after)

end Cursor

namespace Gap

/-- The characters that may stand between tokens. -/
def isBlank (c : Char) : Bool :=
  let n := c.toNat
  (9 ≤ n && n ≤ 13) || n == 0x20 || n == 0xA0 || n == 0xFEFF || n == 0x3000

/-- The number of characters up to and with the end of a block comment. -/
def blockCommentRest : Text → Option Nat
  | '*' :: '/' :: _ => some 2
  | _ :: rest => (blockCommentRest rest).map (· + 1)
  | [] => none

/-- The number of characters of the comment at the head of the text. -/
def commentLength : Text → Nat
  | '/' :: '/' :: rest => Lexeme.run (fun c => c != '\n' && c != '\r') rest + 2
  | '/' :: '*' :: rest => ((blockCommentRest rest).map (· + 2)).getD 0
  | _ => 0

/-- The directives that may stand anywhere, each on a line of its own. -/
def directives : List (Text × Kind) :=
  [("region", Kind.preprocRegion), ("endregion", .preprocEndregion), ("line", .preprocLine),
    ("pragma", .preprocPragma), ("nullable", .preprocNullable), ("error", .preprocError),
    ("warning", .preprocWarning), ("define", .preprocDefine), ("undef", .preprocUndef)].map
    fun (name, kind) => (name.toList, kind)

/-- The number of characters of the line at the head of the text, its line
    feed included; zero where the text has no line feed. -/
def lineLength (text : Text) : Nat :=
  let n := Lexeme.run (· != '\n') text
  if Lexeme.headIs (· == '\n') (text.drop n) then n + 1 else 0

/-- The kind and the number of characters of the directive at the head of the
    text. -/
def directive? : Text → Option (Kind × Nat)
  | '#' :: rest =>
    let blanks := Lexeme.run Text.isPadding rest
    let body := rest.drop blanks
    match directives.find? fun entry => (Lexeme.word entry.1).length body != 0 with
    | none => none
    | some (_, kind) =>
      match lineLength body with
      | 0 => none
      | n => some (kind, 1 + blanks + n)
  | _ => none

/-- The identifiers and the comment on a line of at most `fuel` characters
    that starts at byte `offset`. -/
def wordsFrom : Nat → Nat → Text → List Tree
  | 0, _, _ => []
  | _, _, [] => []
  | fuel + 1, offset, c :: rest =>
    let text := c :: rest
    let comment := commentLength text
    let n := if comment = 0 then Lexeme.identifierLength text else comment
    if n = 0 then wordsFrom fuel (offset + c.utf8Size) rest
    else
      let word := text.take n
      let stop := offset + Text.size word
      let kind := if comment = 0 then Kind.identifier else .comment
      .ofToken kind ⟨offset, stop⟩ (String.ofList word) :: wordsFrom fuel stop (text.drop n)

/-- The nodes inside a directive: `#pragma warning disable` and `restore` are
    followed by the names of the warnings. -/
def directiveChildren (kind : Kind) (offset : Nat) (text : Text) : List Tree :=
  if kind = .preprocPragma then
    match wordsFrom text.length offset text with
    | _ :: warning :: _ :: words => if warning.lexeme = "warning" then words else []
    | _ => []
  else []

end Gap

/-- What may stand between a token and the next one. -/
inductive Gap
  /-- Blanks, comments and directives. -/
  | free
  /-- Blanks and comments, within the line. -/
  | line
  /-- Nothing at all. -/
  | none
  deriving DecidableEq, Repr

namespace Gap

/-- The node of a comment or directive at the cursor. -/
def extra? (gap : Gap) (cursor : Cursor) : Option (Tree × Cursor) :=
  match commentLength cursor.rest with
  | 0 =>
    if gap = .free then
      (directive? cursor.rest).map fun (kind, n) =>
        let (tree, after) := cursor.take kind n
        ({ tree with children := directiveChildren kind cursor.offset (cursor.rest.take n) }, after)
    else .none
  | n => some (cursor.take .comment n)

/-- Whether the character is a blank of the gap. -/
def holds (gap : Gap) (c : Char) : Bool :=
  match gap with
  | .free => isBlank c
  | .line => isBlank c && c != '\n'
  | .none => false

/-- Moves over a gap of at most `fuel` nodes, and gives them. -/
def skip (gap : Gap) : Nat → Cursor → List Tree × Cursor
  | 0, cursor => ([], cursor)
  | fuel + 1, cursor =>
    if gap = .none then ([], cursor)
    else
      let cursor := cursor.advance (Lexeme.run gap.holds cursor.rest)
      match gap.extra? cursor with
      | .none => ([], cursor)
      | some (tree, after) =>
        let (trees, cursor) := skip gap fuel after
        (tree :: trees, cursor)

end Gap

end SharpLint

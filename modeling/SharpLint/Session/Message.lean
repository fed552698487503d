import SharpLint.Lint.Issue
import SharpLint.Session.Address

/-!
# Messages Between an Editor and the Linter

## Main definitions

* `EditorPosition`, `EditorRange`: places in a document as editors count.
* `EditorRange.touches`: whether two ranges share a place, ends included.
* `Diagnostic`: an issue as it is shown in an editor.
* `CodeAction`: a fix as it is offered in an editor.
* `Message`: what an editor sends.
* `Notice`, `Result`: what it gets.
-/

namespace SharpLint

/-- A place in a document: line and column from zero, the column in UTF-16
    code units. -/
structure EditorPosition where
  line : Nat
  character : Nat
  deriving DecidableEq, Repr, Inhabited

/-- Whether one place comes before another, or is the same. -/
def EditorPosition.le (a b : EditorPosition) : Bool :=
  a.line < b.line || (a.line == b.line && a.character ≤ b.character)

/-- A range between two places. -/
structure EditorRange where
  start : EditorPosition
  stop : EditorPosition
  deriving DecidableEq, Repr, Inhabited

/-- Whether two ranges share a place, ends included. -/
def EditorRange.touches (a b : EditorRange) : Bool :=
  a.start.le b.stop && b.start.le a.stop

/-- An issue as it is shown in an editor. -/
structure Diagnostic where
  range : EditorRange
  rule : Rule
  message : String
  deriving DecidableEq, Repr

/-- A fix as it is offered in an editor: the text in one range is replaced. -/
structure CodeAction where
  title : String
  /-- The issue that the fix repairs. -/
  diagnostic : Diagnostic
  address : Address
  range : EditorRange
  text : Text
  deriving DecidableEq, Repr

/-- What an editor sends. -/
inductive Message
  /-- The session begins, in a folder if there is one. -/
  | start (root : Option Address)
  | started
  | opened (address : Address) (text : Text) (version : Int)
  /-- The document changed to each of the texts in turn. -/
  | changed (address : Address) (texts : List Text) (version : Int)
  | saved (address : Address) (text : Option Text)
  | closed (address : Address)
  /-- What can be done about the issues in a range? -/
  | codeActions (address : Address) (range : EditorRange)
  /-- The session ends. -/
  | shutdown
  deriving DecidableEq, Repr

/-- Whether the editor waits for a result. -/
def Message.isRequest : Message → Bool
  | .start _ | .codeActions .. | .shutdown => true
  | _ => false

/-- What is sent to an editor unasked. -/
inductive Notice
  /-- A line for its log. -/
  | log (text : String)
  /-- The issues of a document, of one version of it where that is known. -/
  | diagnostics (address : Address) (diagnostics : List Diagnostic) (version : Option Int)
  deriving DecidableEq, Repr

/-- The result of a request. -/
inductive Result
  /-- What the linter can do. -/
  | capabilities
  /-- What can be done; none for a document that is not known. -/
  | actions (actions : Option (List CodeAction))
  | done
  /-- The request came when it may not. -/
  | refused
  deriving DecidableEq, Repr

/-- All that an editor gets for one message. -/
structure Reply where
  /-- The result, if the message was a request. -/
  result : Option Result := none
  notices : List Notice := []
  deriving DecidableEq, Repr

end SharpLint

import SharpLint.Config.Store
import SharpLint.Edit.Minimal
import SharpLint.Lint.Analysis
import SharpLint.Session.Message

/-!
# Editor Sessions

A session keeps the text of each document that the editor has opened or sent;
for other documents it reads the file on disk. Whenever a text may have
changed, the issues of the document are sent anew.

## Main definitions

* `Session`: the state of a session.
* `Session.start`: the state before the first message.
* `Session.textOf?`: the text of a document.
* `Session.handle`: the answer to a message, and the state after it.
-/

namespace SharpLint

/-- The state of a session. -/
structure Session where
  disk : Disk
  config : Config
  /-- The texts that the editor has sent, by their addresses. -/
  texts : List (Address × Text) := []
  /-- Whether the session has ended. -/
  isOver : Bool := false

namespace Session

/-- The state before the first message. -/
def start (disk : Disk) : Session where
  disk
  config := Config.loadOrDefault disk "."

/-- The text of a document: the one that the editor sent last, or what is in
    the file. -/
def textOf? (session : Session) (address : Address) : Option Text :=
  match session.texts.lookup address with
  | some text => some text
  | none =>
    address.filePath?.bind fun path => (session.disk.read (session.disk.locate path)).toOption

/-- The session without the text of a document. -/
def forget (session : Session) (address : Address) : Session :=
  { session with texts := session.texts.filter fun entry => entry.1 != address }

/-- The session with a new text of a document. -/
def remember (session : Session) (address : Address) (text : Text) : Session :=
  { session with texts := (address, text) :: (session.forget address).texts }

/-- The place of a byte offset in a document. -/
def position (document : Document) (offset : Nat) : EditorPosition :=
  let place := (document.source.editorPosition? document.lines offset).getD (0, 0)
  ⟨place.1, place.2⟩

/-- The range of a span of a document. -/
def range (document : Document) (span : Span) : EditorRange :=
  ⟨position document span.start, position document span.stop⟩

/-- An issue of a document as it is shown. -/
def diagnostic (document : Document) (issue : Issue) : Diagnostic :=
  ⟨range document issue.span, issue.rule, issue.message⟩

/-- The notice of the issues of a document; none if its text is not known. -/
def publish (session : Session) (address : Address) (version : Option Int) : List Notice :=
  match session.textOf? address with
  | none => []
  | some text =>
    let document := Document.parse text
    [.diagnostics address ((analyzeDocument session.config document).map (diagnostic document))
      version]

/-- The fix of an issue as it is offered, if it lies in the range that was
    asked about. -/
def action? (document : Document) (address : Address) (asked : EditorRange) (issue : Issue) :
    Option CodeAction :=
  match issue.fix with
  | none => none
  | some fix =>
    let shown := diagnostic document issue
    if shown.range.touches asked then
      match fix.apply document.source with
      | .error _ => none
      | .ok fixed =>
        let edit := Edit.minimal document.source fixed
        some ⟨fix.title, shown, address, range document edit.span, edit.text⟩
    else none

/-- The fixes that are offered in a range of a document; none if its text is
    not known. -/
def actions (session : Session) (address : Address) (asked : EditorRange) :
    Option (List CodeAction) :=
  (session.textOf? address).map fun text =>
    let document := Document.parse text
    (analyzeDocument session.config document).filterMap (action? document address asked)

/-- The session in its folder, whose configuration holds from now on. -/
def enter (session : Session) (root : Option Address) : Session :=
  match root.bind Address.filePath? with
  | some folder => { session with config := Config.loadOrDefault session.disk folder }
  | none => session

/-- The answer to a message, and the state after it. A session that has ended
    refuses requests and passes over everything else. -/
def handle (session : Session) (message : Message) : Session × Reply :=
  if session.isOver then
    (session, { result := if message.isRequest then some .refused else none })
  else
    match message with
    | .start root => (session.enter root, { result := some .capabilities })
    | .started => (session, { notices := [.log "dslint LSP server initialized"] })
    | .opened address text version =>
      let session := session.remember address text
      (session, { notices := session.publish address (some version) })
    | .changed address texts version =>
      let session := match texts.getLast? with
        | some text => session.remember address text
        | none => session
      (session, { notices := session.publish address (some version) })
    | .saved address text =>
      let session := match text with
        | some text => session.remember address text
        | none => session
      (session, { notices := session.publish address none })
    | .closed address =>
      (session.forget address, { notices := [.diagnostics address [] none] })
    | .codeActions address asked =>
      (session, { result := some (.actions (session.actions address asked)) })
    | .shutdown => ({ session with isOver := true }, { result := some .done })

end Session

end SharpLint

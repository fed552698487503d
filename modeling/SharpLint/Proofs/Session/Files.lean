import SharpLint.Proofs.Files.Utf8
import SharpLint.Proofs.Lint.Reports
import SharpLint.Proofs.Session.Actions

/-!
# Sessions and Reports on Files

For a document that is not open, a session reads the file. So does a report,
but it sets a byte order mark apart first, and the session does not: it analyses
the whole content of the file. Both tell an issue by its rule, its message and
where it begins, and a report's line and column lead to the place that the
session gives. So they tell the same of a file without a mark; of a file with
one, the session tells what is found in a text that begins with the mark, whose
first line is longer by one column.

## Main definitions

* `Told`: what is told about an issue.
* `Location.editorStart`: the place at which a reported location starts, as
  editors count.

## Theorems

* `Document.editorStart_location`: The reported location of a span leads to the
  place of its start.
* `Session.unopened_tells_content`: A session tells what is found in the content
  of a file, which is what the report tells if the file has no mark.
-/

namespace SharpLint

open Text

/-- What is told about an issue: its rule, its message and where it begins. -/
structure Told where
  rule : Rule
  message : String
  start : EditorPosition
  deriving DecidableEq

/-- What a diagnostic tells. -/
def Diagnostic.told (diagnostic : Diagnostic) : Told :=
  ⟨diagnostic.rule, diagnostic.message, diagnostic.range.start⟩

/-- The place at which a reported location of a text starts, as editors count:
    the line from zero, the column in the code units of what stands before it on
    that line. -/
def Location.editorStart (location : Location) (text : Text) : EditorPosition :=
  let line := (splitLines text)[location.line - 1]?.getD []
  ⟨location.line - 1, units16 (line.take (location.column - 1))⟩

/-- What a reported issue of a text tells. -/
def Issue.told (text : Text) (issue : Issue) : Told :=
  ⟨issue.rule, issue.message, issue.location.editorStart text⟩

/-! ### Places and locations -/

/-- The reported location of a span leads to the place of its start. -/
theorem Document.editorStart_location {document : Document}
    (hlines : document.lines = .ofText document.source) {span : Span}
    (hcut : document.source.CutsAt span.start) :
    (document.location span).editorStart document.source
      = Session.position document span.start := by
  obtain ⟨a, b, hsource, hstart⟩ := hcut
  obtain ⟨lines, lead, tail, rest, hsplit, hlength, hjoin, -, hbreak⟩ := exists_lines_cut a b
  obtain ⟨before, hlast, hbefore⟩ := exists_joinLines_concat lines lead
  have ha : a = before ++ lead := hjoin.symm.trans hlast
  have hplace := Session.position_cut (ha ▸ hsource) hlines hbreak hbefore
  rw [← ha, hstart] at hplace
  -- The report counts the characters before the start, on the same line.
  have hline : document.lines.line span.start = a.count '\n' := by
    rw [hlines, hsource, ← hstart, LineTable.line_cut]
  have hbeforeOnLine : document.source.beforeOnLine? document.lines span.start = some lead := by
    have hcut := beforeOnLine?_cut b hbreak hbefore
    rwa [← ha, hstart, ← hsource, ← hlines] at hcut
  have hreported : document.source.position? document.lines span.start
      = some (a.count '\n' + 1, lead.length + 1) := by
    rw [position?, column?, hbeforeOnLine, hline]
    rfl
  have hshown : (splitLines document.source)[a.count '\n']? = some (lead ++ tail) := by
    rw [hsource, hsplit, ← hlength, List.getElem?_append_right (Nat.le_refl _), Nat.sub_self]
    rfl
  rw [hplace, Location.editorStart, Document.location]
  simp only [hreported, Option.getD_some, Nat.add_sub_cancel, hshown, List.take_left']

/-- The issue for an unread field is located at its span. -/
theorem location_unreadFieldIssue? {document : Document} {type declarator : Place} {issue : Issue}
    (h : unreadFieldIssue? document type declarator = some issue) :
    issue.location = document.location issue.span := by
  obtain ⟨declaration, name, symbol, message, -, -, -, -, -, rfl⟩ := exists_of_unreadFieldIssue? h
  rfl

/-- A reported issue is located at its span, which begins between two
    characters. -/
theorem located_of_mem_analyze {config : Config} {document : Document} (hsound : document.Sound)
    {issue : Issue} (hissue : issue ∈ analyzeDocument config document) :
    issue.location = document.location issue.span
      ∧ document.source.CutsAt issue.span.start := by
  obtain ⟨⟨node, hnode, hspan⟩, -⟩ := exists_span_of_mem_analyze hsound hissue
  refine ⟨?_, hspan ▸ (hnode.laidOut hsound).startCut⟩
  -- Both checks make their issues at a span of the document.
  have hlocated : ∀ found ∈ check config document,
      found.location = document.location found.span := by
    intro found hfound
    rcases mem_check hfound with hfound | hfound
    · obtain ⟨constructor, -, hfound⟩ := List.mem_filterMap.1 hfound
      split at hfound
      · rw [Option.some.injEq] at hfound
        subst hfound
        rfl
      · exact absurd hfound (by simp only [reduceCtorEq, not_false_eq_true])
    · obtain ⟨type, -, hfound⟩ := List.mem_flatMap.1 hfound
      obtain ⟨declarator, -, hfound⟩ := List.mem_filterMap.1 hfound
      exact location_unreadFieldIssue? hfound
  rw [analyzeDocument] at hissue
  split at hissue
  · exact hlocated issue hissue
  · -- A fix is attached to an issue afterwards, which does not move it.
    obtain ⟨found, hfound, rfl⟩ := List.mem_map.1 hissue
    exact hlocated found hfound

/-- A session and a report tell the same about the issues of a text. -/
theorem told_diagnostics (config : Config) (text : Text) :
    ((analyze config text).map (Session.diagnostic (.parse text))).map Diagnostic.told
      = (analyze config text).map (Issue.told text) := by
  rw [List.map_map]
  refine List.map_congr_left fun issue hissue => ?_
  have hsound := Document.parse_sound text
  obtain ⟨hlocation, hcut⟩ := located_of_mem_analyze hsound hissue
  have hplace := Document.editorStart_location hsound.lines hcut
  rw [Function.comp_apply, Diagnostic.told, Issue.told, hlocation, Told.mk.injEq]
  exact ⟨rfl, rfl, hplace.symm⟩

/-! ### Files that are not open -/

namespace Session

variable {session : Session} {address : Address} {path target source : String} {bytes : ByteArray}

/-- The text of a document that is not open is the content of its file. -/
theorem textOf?_unopened (hlookup : session.texts.lookup address = none)
    (haddress : address.filePath? = some path)
    (hfile : session.disk.find (session.disk.locate path) = .file bytes) :
    session.textOf? address = (Utf8.decode bytes.toList).toOption := by
  rw [textOf?, hlookup, haddress]
  simp only [Option.bind_some, Disk.read, Disk.bytes, hfile]
  cases Utf8.decode bytes.toList <;> rfl

/-- What a session tells of a document whose text it has. -/
theorem publish_eq {text : Text} (htext : session.textOf? address = some text)
    (version : Option Int) : session.publish address version
      = [.diagnostics address ((analyze session.config text).map (diagnostic (.parse text)))
          version] := by
  rw [publish, htext]
  rfl

/-- An action shows an issue of the document. -/
theorem actions_eq {text : Text} (htext : session.textOf? address = some text)
    (asked : EditorRange) : ∃ actions, session.actions address asked = some actions
      ∧ ∀ action ∈ actions,
        action.diagnostic ∈ (analyze session.config text).map (diagnostic (.parse text)) := by
  refine ⟨(analyze session.config text).filterMap (action? (.parse text) address asked), by
    rw [Session.actions, htext]; rfl, fun action haction => ?_⟩
  obtain ⟨issue, hissue, hsome⟩ := List.mem_filterMap.1 haction
  obtain ⟨-, hdiagnostic, -⟩ := action?_makes_fix (Document.parse_sound text) hsome
  rw [hdiagnostic]
  exact List.mem_map_of_mem hissue

/-- The issues that a report has of a file. -/
theorem issuesAt_file {disk : Disk} (config : Config)
    (hfile : disk.find (disk.locate source) = .file bytes) :
    (disk.issuesAt config source).toOption = (Utf8.decode bytes.toList).toOption.map
      fun content => analyze config (SourceFile.ofContent content).text := by
  rw [Disk.issuesAt, Disk.sourceAt, Disk.readSource, Disk.bytes, hfile]
  simp only
  cases Utf8.decode bytes.toList <;> rfl

/-- Of a file that is not open, a session tells what is found in its content,
    and a report has what is found in its text, which is the content without the
    mark. So both tell the same of a file that has no mark, and neither tells
    anything of one that is no text. -/
theorem unopened_tells_content (hlive : session.isOver = false)
    (hlookup : session.texts.lookup address = none) (haddress : address.filePath? = some path)
    (hfile : session.disk.find (session.disk.locate path) = .file bytes)
    (hsource : source ∈ session.disk.sources session.config target)
    (hsame : session.disk.locate source = session.disk.locate path) :
    let report := session.disk.analyzeProject session.config false target
    match Utf8.decode bytes.toList with
    | .error _ =>
      session.handle (.saved address none) = (session, {})
        ∧ (∀ asked, session.handle (.codeActions address asked)
          = (session, { result := some (.actions none) }))
        ∧ report.issuesOf source = [] ∧ 0 < report.failed
    | .ok content =>
      let file := SourceFile.ofContent content
      let diagnostics := (analyze session.config content).map (diagnostic (.parse content))
      session.handle (.saved address none)
          = (session, { notices := [.diagnostics address diagnostics none] })
        ∧ (∀ asked, ∃ actions, session.handle (.codeActions address asked)
            = (session, { result := some (.actions (some actions)) })
          ∧ ∀ action ∈ actions, action.diagnostic ∈ diagnostics)
        ∧ diagnostics.map Diagnostic.told
          = (analyze session.config content).map (Issue.told content)
        ∧ report.issuesOf source = analyze session.config file.text
        ∧ content = file.content file.text
        ∧ (file.hasMark = false →
          diagnostics.map Diagnostic.told = (report.issuesOf source).map (Issue.told file.text)) := by
  have htext := textOf?_unopened hlookup haddress hfile
  have hissues := issuesAt_file session.config (hsame ▸ hfile)
  have hreport := session.disk.issuesOf_analyzeProject session.config hsource false
  rw [hissues] at hreport
  have hsaved : session.handle (.saved address none)
      = (session, { notices := session.publish address none }) := by
    rw [handle, hlive]
    rfl
  have hasked (asked : EditorRange) : session.handle (.codeActions address asked)
      = (session, { result := some (.actions (session.actions address asked)) }) := by
    rw [handle, hlive]
    rfl
  cases hdecode : Utf8.decode bytes.toList with
  | error fault =>
      rw [hdecode] at htext hissues hreport
      -- What is no text is not published, gives no actions, and counts as failed.
      refine ⟨by rw [hsaved, publish, htext]; rfl, fun asked => by
        rw [hasked, Session.actions, htext]; rfl, hreport, ?_⟩
      refine session.disk.failed_analyzeProject_pos session.config hsource ?_ false
      cases hat : session.disk.issuesAt session.config source with
      | error _ => rfl
      | ok issues =>
          rw [hat] at hissues
          exact absurd hissues (by simp only [Except.toOption, Option.map_none, reduceCtorEq,
            not_false_eq_true])
  | ok content =>
      rw [hdecode] at htext hreport
      have htold := told_diagnostics session.config content
      refine ⟨by rw [hsaved, publish_eq htext], fun asked => ?_, htold, hreport,
        (SourceFile.content_ofContent content).symm, fun hmark => ?_⟩
      · -- The session is asked about the content, with the mark if there is one.
        obtain ⟨actions, hactions, hshown⟩ := actions_eq htext asked
        exact ⟨actions, by rw [hasked, hactions], hshown⟩
      · -- Without a mark the content is the text, so both are told alike.
        have hcontent : (SourceFile.ofContent content).text = content := by
          have hback := SourceFile.content_ofContent content
          rwa [SourceFile.content, hmark, if_neg Bool.false_ne_true] at hback
        rw [hreport, htold]
        simp only [Except.toOption, Option.map_some, Option.getD_some, hcontent]

/-- A type with an unread field. -/
def plainSource : Text :=
  "class C \x7b private int _x; C(int x) \x7b _x = x; \x7d \x7d".toList

/-- A session on a disk with one file, in which nothing is open. -/
def fileSession (content : Text) : Session where
  disk := { files := [(["A.cs"], Utf8.encode content)] }
  config := {}

set_option maxRecDepth 100000 in
/-- The session and the report place the field of a file without a mark alike. -/
theorem unopened_tells_content_plain :
    let session := fileSession plainSource
    session.isOver = false ∧ session.texts.lookup "file:///A.cs" = none
      ∧ Address.filePath? "file:///A.cs" = some "/A.cs"
      ∧ session.disk.find (session.disk.locate "/A.cs") = .file (Utf8.encode plainSource)
      ∧ "A.cs" ∈ session.disk.sources session.config "A.cs"
      ∧ session.disk.locate "A.cs" = session.disk.locate "/A.cs"
      ∧ ∃ diagnostics, session.handle (.saved "file:///A.cs" none)
          = (session, { notices := [.diagnostics "file:///A.cs" diagnostics none] })
        ∧ diagnostics.map Diagnostic.told = [⟨.unreadField,
          "Private field '_x' is assigned in a constructor but its value is never read", ⟨0, 22⟩⟩]
        ∧ diagnostics.map Diagnostic.told
          = ((session.disk.analyzeProject session.config false "A.cs").issuesOf "A.cs").map
            (Issue.told plainSource) := by
  have haddress : Address.filePath? "file:///A.cs" = some "/A.cs" := by decide +kernel
  have hsources : (fileSession plainSource).disk.sources {} "A.cs" = ["A.cs"] := rfl
  have hmem : "A.cs" ∈ (fileSession plainSource).disk.sources {} "A.cs" := by
    rw [hsources]
    exact List.mem_singleton_self _
  have htells := @unopened_tells_content (fileSession plainSource) "file:///A.cs" "/A.cs" "A.cs"
    "A.cs" (Utf8.encode plainSource) rfl rfl haddress rfl hmem rfl
  rw [Utf8.decode_encode] at htells
  obtain ⟨hsaved, -, htold, -, -, hagree⟩ := htells
  refine ⟨rfl, rfl, haddress, rfl, hmem, rfl, _, hsaved, htold.trans ?_, hagree ?_⟩
  · decide +kernel
  · decide

/-- The file begins with a byte order mark. -/
def markedSource : Text :=
  SourceFile.mark :: plainSource

set_option maxRecDepth 100000 in
/-- The session places the field one column behind the place that the report has
    in the text without the mark. -/
theorem mark_shifts_columns :
    let session := fileSession markedSource
    session.isOver = false ∧ session.texts.lookup "file:///A.cs" = none
      ∧ Address.filePath? "file:///A.cs" = some "/A.cs"
      ∧ session.disk.find (session.disk.locate "/A.cs") = .file (Utf8.encode markedSource)
      ∧ SourceFile.ofContent markedSource = ⟨plainSource, true⟩
      ∧ ∃ diagnostics, session.handle (.saved "file:///A.cs" none)
          = (session, { notices := [.diagnostics "file:///A.cs" diagnostics none] })
        ∧ diagnostics.map (·.told.start) = [⟨0, 23⟩]
        ∧ ((session.disk.analyzeProject session.config false "A.cs").issuesOf "A.cs").map
            (fun issue => (issue.told plainSource).start) = [⟨0, 22⟩] := by
  have haddress : Address.filePath? "file:///A.cs" = some "/A.cs" := by decide +kernel
  have htext : (fileSession markedSource).textOf? "file:///A.cs" = some markedSource := by
    rw [textOf?_unopened rfl haddress rfl, Utf8.decode_encode]
    rfl
  have hsources : (fileSession markedSource).disk.sources {} "A.cs" = ["A.cs"] := rfl
  have hmem : "A.cs" ∈ (fileSession markedSource).disk.sources {} "A.cs" := by
    rw [hsources]
    exact List.mem_singleton_self _
  -- The report decodes the file as content, where a mark is no part of the text.
  have hreport := (fileSession markedSource).disk.issuesOf_analyzeProject {} hmem false
  rw [issuesAt_file {} rfl, Utf8.decode_encode] at hreport
  refine ⟨rfl, rfl, haddress, rfl, rfl, _, congrArg
    (fun notices => (fileSession markedSource, ({ notices } : Reply))) (publish_eq htext none),
    ?_, ?_⟩
  · decide +kernel
  · rw [show (fileSession markedSource).config = {} from rfl, hreport]
    decide +kernel

end Session

end SharpLint

import SharpLint.Proofs.Edit.Minimal
import SharpLint.Proofs.Lint.Applicable
import SharpLint.Proofs.Session.Places

/-!
# Code Actions Make Their Fixes

A code action offers a fix as one edit in the words of an editor: the fix is
applied to the text, the result is told from the text by a minimal edit, and
the span of that edit by lines and columns. Making the edit in the editor
yields what applying the fix does. An action shows the issue that it repairs;
the diagnostic of an issue tells its rule and its span, and these its fix.

## Main definitions

* `EditorRange.FitsWords`: the numbers of a range fit 32 bits.

## Theorems

* `exists_span_of_mem_analyze`: An issue is at a node.
* `fix_eq_of_diagnostic_eq`: Issues with one diagnostic have one fix.
* `Session.action?_makes_fix`: What the edit of an action makes.
* `Session.actions_make_fixes`: Every action makes the fix of its issue.
-/

namespace SharpLint

open Text Place

/-! ### Issues and their diagnostics -/

/-- An issue is reported without a fix, at a node of the document. -/
theorem exists_span_of_mem_check {config : Config} {document : Document} (hsound : document.Sound)
    {issue : Issue} (hissue : issue ∈ check config document) :
    issue.fix = none ∧ ∃ node, document.Has node ∧ issue.span = node.span := by
  rcases mem_check hissue with hissue | hissue
  · obtain ⟨constructor, hconstructor, hissue⟩ := List.mem_filterMap.1 hissue
    rw [List.mem_filter, isA_iff] at hconstructor
    have hhas : document.Has constructor := mem_descendants.1 hconstructor.1
    split at hissue
    · next length list _ hlist =>
      rw [Option.some.injEq] at hissue
      subst hissue
      obtain ⟨⟨n, hn⟩, -⟩ := hhas.ownParameterList hsound hconstructor.2 hlist
      exact ⟨rfl, list, hhas.child hn, rfl⟩
    · exact absurd hissue (by simp only [reduceCtorEq, not_false_eq_true])
  · obtain ⟨type, htype, hissue⟩ := List.mem_flatMap.1 hissue
    rw [List.mem_filter] at htype
    obtain ⟨declarator, hdeclarator, hissue⟩ := List.mem_filterMap.1 hissue
    obtain ⟨name, -, hname, -, hspan, -, -, hnone⟩ := unreadFieldIssue?_eq_some hissue
    obtain ⟨field, declaration, h⟩ :=
      exists_declaresField (mem_descendants.1 htype.1) htype.2 hdeclarator hname
    exact ⟨hnone, name, h.hasName, hspan⟩

/-- An issue is at a node of the document, and its rule and its span tell its
    fix. -/
theorem exists_span_of_mem_analyze {config : Config} {document : Document} (hsound : document.Sound)
    {issue : Issue} (hissue : issue ∈ analyzeDocument config document) :
    (∃ node, document.Has node ∧ issue.span = node.span)
      ∧ issue.fix = if document.hasErrors then none
        else (fixFor config document issue.rule.id issue.span).toOption := by
  rw [analyzeDocument] at hissue
  split at hissue
  · next herrors =>
    obtain ⟨hnone, hspan⟩ := exists_span_of_mem_check hsound hissue
    exact ⟨hspan, by rw [hnone, if_pos herrors]⟩
  · next herrors =>
    obtain ⟨found, hfound, rfl⟩ := List.mem_map.1 hissue
    obtain ⟨-, hspan⟩ := exists_span_of_mem_check hsound hfound
    exact ⟨hspan, by rw [if_neg herrors]; rfl⟩

/-- Issues with one diagnostic have one fix. -/
theorem fix_eq_of_diagnostic_eq {config : Config} {document : Document} (hsound : document.Sound)
    {a b : Issue} (ha : a ∈ analyzeDocument config document)
    (hb : b ∈ analyzeDocument config document)
    (h : Session.diagnostic document a = Session.diagnostic document b) : a.fix = b.fix := by
  obtain ⟨⟨p, hp, hpSpan⟩, haFix⟩ := exists_span_of_mem_analyze hsound ha
  obtain ⟨⟨q, hq, hqSpan⟩, hbFix⟩ := exists_span_of_mem_analyze hsound hb
  simp only [Session.diagnostic, Session.range, Diagnostic.mk.injEq, EditorRange.mk.injEq,
    hpSpan, hqSpan] at h
  obtain ⟨⟨hstart, hstop⟩, hrule, -⟩ := h
  have hpLaid := hp.laidOut hsound
  have hqLaid := hq.laidOut hsound
  -- A place tells its offset, so both are at one span.
  have hstarts : p.start = q.start :=
    Session.position_inj hsound.lines hpLaid.startCut hqLaid.startCut hstart
  have hstops : p.stop = q.stop :=
    Session.position_inj hsound.lines hpLaid.stopCut hqLaid.stopCut hstop
  have hspan : a.span = b.span := by
    rw [hpSpan, hqSpan, show p.span = ⟨p.start, p.stop⟩ from rfl, hstarts, hstops]
    rfl
  rw [haFix, hbFix, hrule, hspan]

/-! ### Actions -/

/-- The numbers of both places fit 32 bits, in which they are sent. -/
def EditorRange.FitsWords (range : EditorRange) : Prop :=
  ∀ n ∈ [range.start.line, range.start.character, range.stop.line, range.stop.character],
    n < UInt32.size

namespace Session

variable {document : Document} {address : Address} {asked : EditorRange}

/-- The edit of an action makes the fix of the issue that the action shows. -/
theorem action?_makes_fix (hsound : document.Sound) {issue : Issue} {action : CodeAction}
    (h : action? document address asked issue = some action) :
    action.address = address ∧ action.diagnostic = diagnostic document issue
      ∧ ∃ fix after, issue.fix = some fix ∧ action.title = fix.title
        ∧ fix.apply document.source = .ok after
        ∧ document.source.replaceRange? action.range action.text = some after
        ∧ (units16 document.source < UInt32.size → action.range.FitsWords) := by
  rw [action?] at h
  split at h
  · exact absurd h (by simp only [reduceCtorEq, not_false_eq_true])
  next fix hfix =>
  simp only at h
  split at h
  rotate_left
  · exact absurd h (by simp only [reduceCtorEq, not_false_eq_true])
  split at h
  · exact absurd h (by simp only [reduceCtorEq, not_false_eq_true])
  next after happly =>
  rw [Option.some.injEq] at h
  subst h
  -- The edit that is sent replaces what is between the common ends of the two texts.
  obtain ⟨before, middle, behind, hold, hnew, hspan⟩ := Edit.exists_minimal document.source after
  refine ⟨rfl, rfl, fix, after, hfix, rfl, happly, ?_, fun hsmall => ?_⟩
  · rw [replaceRange?_range hold hsound.lines hspan, ← hnew]
  · have hstart := position_bound (hold.trans (List.append_assoc _ middle behind)) hsound.lines
    have hstop := position_bound hold hsound.lines
    rw [hspan]
    intro n hn
    simp only [range, List.mem_cons, List.not_mem_nil, or_false] at hn
    omega

/-- Every action that a session offers makes the fix of its issue: replacing the
    range of the action in the text that the session has of the document yields
    the text after the fix, for the issue whose diagnostic the action shows. -/
theorem actions_make_fixes (session : Session) (address : Address) (asked : EditorRange)
    {text : Text} (htext : session.textOf? address = some text)
    (hsmall : units16 text < UInt32.size) :
    (session.isOver = false → ∃ actions, (session.handle (.codeActions address asked)).2.result
        = some (.actions (some actions)))
      ∧ ∀ actions, (session.handle (.codeActions address asked)).2.result
          = some (.actions (some actions)) → ∀ action ∈ actions,
        action.address = address ∧ action.range.FitsWords
        ∧ (∃ issue ∈ analyze session.config text,
          action.diagnostic = diagnostic (.parse text) issue)
        ∧ ∀ issue ∈ analyze session.config text,
          action.diagnostic = diagnostic (.parse text) issue →
          ∃ fix after, issue.fix = some fix ∧ action.title = fix.title
            ∧ fix.apply text = .ok after
            ∧ text.replaceRange? action.range action.text = some after := by
  have hoffered : session.actions address asked = some ((analyze session.config text).filterMap
      (action? (.parse text) address asked)) := by
    rw [Session.actions, htext]
    rfl
  rw [handle]
  split
  · next hover =>
    -- A session that is over refuses the request.
    refine ⟨fun hopen => absurd hover (by rw [hopen]; exact Bool.false_ne_true),
      fun actions h => ?_⟩
    exact absurd h (by simp only [Message.isRequest, if_true, Option.some.injEq, reduceCtorEq,
      not_false_eq_true])
  refine ⟨fun _ => ⟨_, by rw [hoffered]⟩, fun actions h action haction => ?_⟩
  simp only [hoffered, Option.some.injEq, Result.actions.injEq] at h
  subst h
  obtain ⟨shown, hshown, hsome⟩ := List.mem_filterMap.1 haction
  have hsound := Document.parse_sound text
  obtain ⟨haddress, hdiagnostic, fix, after, hfix, htitle, happly, hreplace, hfits⟩ :=
    action?_makes_fix hsound hsome
  refine ⟨haddress, hfits hsmall, ⟨shown, hshown, hdiagnostic⟩, fun issue hissue hsame => ?_⟩
  -- The issue may be another one than the action was made for, but shows the same.
  have hsameFix := fix_eq_of_diagnostic_eq hsound hissue hshown (hsame.symm.trans hdiagnostic)
  exact ⟨fix, after, hsameFix.trans hfix, htitle, happly, hreplace⟩

/-- A document with a character of two code units before its unread field. -/
def pairSource : Text :=
  "/*😀*/ class C \x7b private int _x; C(int x) \x7b _x = x; \x7d \x7d".toList

/-- A session that holds the document. -/
def pairSession : Session where
  disk := {}
  config := {}
  texts := [("file:///c.cs", pairSource)]

/-- The action for the field of the document. -/
def pairAction : CodeAction where
  title := "Remove unread field and related parameter/assignment"
  diagnostic := ⟨⟨⟨0, 29⟩, ⟨0, 31⟩⟩, .unreadField,
    "Private field '_x' is assigned in a constructor but its value is never read"⟩
  address := "file:///c.cs"
  range := ⟨⟨0, 17⟩, ⟨0, 51⟩⟩
  text := "C() \x7b".toList

set_option maxRecDepth 100000 in
/-- The action counts two columns for the character, and makes its fix. -/
theorem actions_make_fixes_behind_pair :
    (pairSession.handle (.codeActions "file:///c.cs" ⟨⟨0, 30⟩, ⟨0, 30⟩⟩)).2.result
        = some (.actions (some [pairAction]))
      ∧ ∃ issue ∈ analyze {} pairSource, ∃ fix after, issue.fix = some fix
        ∧ fix.apply pairSource = .ok after
        ∧ pairSource.replaceRange? pairAction.range pairAction.text = some after := by
  have hresult : (pairSession.handle (.codeActions "file:///c.cs" ⟨⟨0, 30⟩, ⟨0, 30⟩⟩)).2.result
      = some (.actions (some [pairAction])) := by
    decide +kernel
  obtain ⟨-, -, ⟨issue, hissue, hshown⟩, hmakes⟩ :=
    (actions_make_fixes pairSession "file:///c.cs" ⟨⟨0, 30⟩, ⟨0, 30⟩⟩ rfl (by decide)).2
      [pairAction] hresult pairAction (List.mem_singleton_self _)
  obtain ⟨fix, after, hfix, -, happly, hreplace⟩ := hmakes issue hissue hshown
  exact ⟨hresult, issue, hissue, fix, after, hfix, happly, hreplace⟩

end Session

end SharpLint

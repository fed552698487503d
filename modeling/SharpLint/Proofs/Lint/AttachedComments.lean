import SharpLint.Proofs.Lint.Reported

/-!
# Comments That Go with a Field

A field that stands alone on its lines goes with these lines, and the comments
directly above go with it. They are found upwards, sibling by sibling: each is
on lines of its own that end where the lines of the one below start, and the
first sibling that is not such a comment ends the run.

Whether the field stands alone is told by the span of its own lines: it starts
before the field. A field that nothing is before, not even a space, starts where
its line starts, so it counts as one that shares its lines, and its comments
stay.

## Main definitions

* `Document.lineStart`: where the line of an offset starts.
* `Document.Attached`: a comment is directly above a node.
* `Document.RunTop`: a node is the topmost of the run of comments above another.
* `Document.standsAlone`: whether a node shares its lines with blanks only.
* `Place.declaredFields`: the declarators of a field declaration.

## Theorems

* `Document.Has.exists_runTop`, `Document.RunTop.unique`: Each node has one topmost
  comment, which may be itself.
* `commentsStart_runTop`: The loop over the siblings ends at the topmost comment.
* `removeField_takes_comments`: Where the removal of a field starts and stops.
-/

namespace SharpLint

open Place Text

/-! ### Lines of their own -/

/-- Where the line of an offset starts. -/
def Document.lineStart (document : Document) (offset : Nat) : Nat :=
  document.lines.start (document.lines.line offset)

/-- Whether nothing but blanks is before a node on its first line. -/
def Document.leadsLine (document : Document) (node : Place) : Bool :=
  Text.isBlank (document.source.slice ⟨document.lineStart node.start, node.start⟩)

/-- Whether nothing but blanks is behind a node on its last line. -/
def Document.endsLine (document : Document) (node : Place) : Bool :=
  Text.isBlank (document.source.slice
    ⟨node.stop, (document.source.lineRange document.lines (document.lines.line node.stop)).stop⟩)

/-- Whether a node shares its lines with blanks only. -/
def Document.standsAlone (document : Document) (node : Place) : Bool :=
  document.leadsLine node && document.endsLine node

/-- The lines of a node, from the start of the first to the start of the one
    behind the last. -/
def Document.linesOf (document : Document) (node : Place) : Span :=
  ⟨document.lineStart node.start, document.lines.start (document.lines.line node.stop + 1)⟩

theorem statementRemoval_of_standsAlone {document : Document} {node : Place}
    (h : document.standsAlone node = true) :
    statementRemoval document node = document.linesOf node := by
  rw [statementRemoval]
  exact if_pos h

/-- The line of a node starts on that line. -/
theorem Document.Has.line_lineStart {document : Document} {node : Place}
    (h : document.Has node) (hsound : document.Sound) :
    document.lines.line (document.lineStart node.start) = document.lines.line node.start := by
  obtain ⟨before, lead, mid, line, after, hsurrounds⟩ := h.exists_surrounds hsound
  have hsource : document.source = before ++ (lead ++ mid ++ line ++ after) := by
    rw [hsurrounds.source]
    simp only [List.append_assoc]
  have hnode : document.source = before ++ lead ++ (mid ++ line ++ after) := by
    rw [hsurrounds.source]
    simp only [List.append_assoc]
  -- Between the start of the line and the node there is no line feed to count.
  calc document.lines.line (document.lineStart node.start)
      = document.lines.line (size before) := by rw [lineStart, hsurrounds.lineStart hsound]
    _ = before.count '\n' := by rw [hsound.lines, hsource, LineTable.line_cut]
    _ = (before ++ lead).count '\n' := by
        rw [List.count_append, List.count_eq_zero.2 hsurrounds.lead, Nat.add_zero]
    _ = document.lines.line node.start := by
        rw [hsound.lines, ← hsurrounds.start, hnode, LineTable.line_cut]

/-! ### Runs of comments -/

/-- A comment is directly above a node: it is the sibling before, starts on a
    line of its own and ends on the line before the node. -/
structure Document.Attached (document : Document) (comment node : Place) : Prop where
  previous : node.previous? = some comment
  isComment : comment.isA .comment = true
  leadsLine : document.leadsLine comment = true
  above : document.lines.line comment.stop + 1 = document.lines.line node.start

/-- The topmost comment of the unbroken run above a node, or the node itself if
    there is no comment directly above it. -/
inductive Document.RunTop (document : Document) : Place → Place → Prop
  /-- Nothing is directly above the node. -/
  | here {node : Place} : (∀ comment, ¬document.Attached comment node) → document.RunTop node node
  /-- The run goes on above a comment. -/
  | above {top comment node : Place} :
      document.Attached comment node → document.RunTop top comment → document.RunTop top node

theorem Document.Attached.unique {document : Document} {first second node : Place}
    (hfirst : document.Attached first node) (hsecond : document.Attached second node) :
    first = second :=
  Option.some.inj (hfirst.previous.symm.trans hsecond.previous)

/-- A node has one topmost comment. -/
theorem Document.RunTop.unique {document : Document} {first second node : Place}
    (hfirst : document.RunTop first node) (hsecond : document.RunTop second node) :
    first = second := by
  induction hfirst with
  | here hnone =>
      cases hsecond with
      | here => rfl
      | above hattached => exact absurd hattached (hnone _)
  | above hattached _ ih =>
      cases hsecond with
      | here hnone => exact absurd hattached (hnone _)
      | above hattached' hsecond => exact ih (hattached.unique hattached' ▸ hsecond)

/-- There is no sibling before the first child. -/
theorem previous?_zero {parent child : Place} (h : parent.child? 0 = some child) :
    child.previous? = none := by
  rw [previous?, sibling?, (child?_eq_some.1 h).2]
  rfl

theorem previous?_succ {parent child : Place} {n : Nat} (h : parent.child? (n + 1) = some child) :
    child.previous? = parent.child? n := by
  rw [previous?, sibling?, (child?_eq_some.1 h).2]
  rfl

/-- The loop over the siblings, which starts at the line of a node, ends at the
    line of the topmost comment above it. -/
theorem commentsStart_runTop {document : Document} (hsound : document.Sound) {parent node : Place}
    (hparent : document.Has parent) {n : Nat} (hnode : parent.child? n = some node) :
    ∃ top, document.RunTop top node
      ∧ commentsStart document (document.lineStart node.start) node.preceding
        = document.lineStart top.start := by
  -- The induction is on the number of siblings before the node, as the loop is.
  induction n generalizing node with
  | zero =>
      refine ⟨node, .here fun comment hattached => ?_, by rw [preceding_zero hnode, commentsStart]⟩
      have hprevious := hattached.previous
      rw [previous?_zero hnode] at hprevious
      exact absurd hprevious (by simp only [reduceCtorEq, not_false_eq_true])
  | succ n ih =>
      obtain ⟨sibling, hsibling, hpreceding⟩ := preceding_succ hnode
      have hprevious : node.previous? = some sibling := (previous?_succ hnode).trans hsibling
      have hline := (hparent.child hnode).line_lineStart hsound
      -- The loop goes on above a comment directly above the node, and else ends here.
      by_cases hattached : document.Attached sibling node
      · obtain ⟨top, hrun, hstart⟩ := ih hsibling
        refine ⟨top, .above hattached hrun, ?_⟩
        have hcondition : (Text.isBlank (document.source.slice
            ⟨document.lineStart sibling.start, sibling.start⟩)
            && document.lines.line sibling.stop + 1
              == document.lines.line (document.lineStart node.start)) = true := by
          rw [hline, hattached.above, beq_self_eq_true, Bool.and_true]
          exact hattached.leadsLine
        rw [hpreceding, commentsStart, if_pos hattached.isComment]
        exact (if_pos hcondition).trans hstart
      · refine ⟨node, .here fun comment h => hattached ?_, ?_⟩
        · exact Option.some.inj (h.previous.symm.trans hprevious) ▸ h
        · rw [hpreceding, commentsStart]
          split
          · next hcomment =>
            refine if_neg fun hcondition => hattached ?_
            rw [Bool.and_eq_true, beq_iff_eq, hline] at hcondition
            exact ⟨hprevious, hcomment, hcondition.1, hcondition.2⟩
          · rfl

/-- A node of the document has a topmost comment. -/
theorem Document.Has.exists_runTop {document : Document} {parent node : Place}
    (hparent : document.Has parent) (hsound : document.Sound) {n : Nat}
    (hnode : parent.child? n = some node) : ∃ top, document.RunTop top node :=
  let ⟨top, hrun, _⟩ := commentsStart_runTop hsound hparent hnode
  ⟨top, hrun⟩

/-! ### Removals -/

/-- Where the removal of a member that stands alone starts and stops. -/
theorem memberRemoval_of_standsAlone {document : Document} (hsound : document.Sound)
    {parent member : Place} (hparent : document.Has parent) {n : Nat}
    (hmember : parent.child? n = some member) (halone : document.standsAlone member = true) :
    ∃ top, document.RunTop top member
      ∧ memberRemoval document member =
        ⟨if document.lineStart member.start = member.start then member.start
          else document.lineStart top.start, (document.linesOf member).stop⟩ := by
  obtain ⟨top, hrun, hstart⟩ := commentsStart_runTop hsound hparent hmember
  refine ⟨top, hrun, ?_⟩
  rw [memberRemoval, statementRemoval_of_standsAlone halone]
  -- A member in the first column is removed from its own start, not from that of its comments.
  by_cases hcolumn : document.lineStart member.start = member.start
  · rw [if_pos hcolumn]
    refine (if_pos hcolumn).trans ?_
    rw [Document.linesOf, hcolumn]
  · rw [if_neg hcolumn, ← hstart]
    exact if_neg hcolumn

/-- The declarators of a field declaration. -/
def Place.declaredFields (field : Place) : List Place :=
  match field.firstOf? .variableDeclaration with
  | some declaration => declaration.childrenOf .variableDeclarator
  | none => []

/-- A field that is the only one in its declaration and stands alone on its
    lines is removed with these lines and, unless it starts its line, with all
    comments directly above it. -/
theorem removeField_takes_comments (source : Text) (anchor : Span) (fix : Fix)
    (hfix : removeField (.parse source) anchor = .ok fix) :
    ∃ field top, (Document.parse source).fieldAt? anchor = some field
      ∧ (Document.parse source).RunTop top field
      ∧ (field.declaredFields.length ≤ 1 → (Document.parse source).standsAlone field = true →
        Edit.remove
          ⟨if (Document.parse source).lineStart field.start = field.start then field.start
            else (Document.parse source).lineStart top.start,
            ((Document.parse source).linesOf field).stop⟩ ∈ fix.edits) := by
  have hsound := Document.parse_sound source
  obtain ⟨plan, hplan⟩ := exists_plan hfix
  obtain ⟨parent, n, hparent, hfield⟩ := hplan.exists_parent
  obtain ⟨top, hrun⟩ := hparent.exists_runTop hsound hfield
  refine ⟨plan.field, top, hplan.fieldAt?, hrun, fun hsole halone => ?_⟩
  obtain ⟨top', hrun', hremoval⟩ := memberRemoval_of_standsAlone hsound hparent hfield halone
  obtain rfl := hrun.unique hrun'
  rw [← hremoval]
  -- The only declarator goes with the declaration, which is removed as a member.
  refine hplan.mem_fix.2 (RemovalPlan.mem_edits.2 (.inr (.inr ?_)))
  rw [declaredFields, hplan.firstOf?_field hsound] at hsole
  rw [Document.declaratorEdits_of_sole (Nat.not_lt.2 hsole), List.mem_singleton]

/-- A field with two comments above it, all of them indented. -/
def indentedSource : Text :=
  "class C\n\x7b\n  // The x,\n  /* as it\n     is. */\n  int _x;\n  C(int x) \x7b _x = x; \x7d\n\x7d\n".toList

/-- Whether the removal at a span leads to a field that has its declaration and
    its lines for itself and does not start its line. -/
def removesIndented (document : Document) (anchor : Span) : Bool :=
  (removeField document anchor).toOption.isSome && (document.fieldAt? anchor).any fun field =>
    field.declaredFields.length ≤ 1 && document.standsAlone field
      && document.lineStart field.start != field.start

set_option maxRecDepth 100000 in
theorem removeField_takes_comments_indented :
    ∃ fix, removeField (.parse indentedSource) ⟨51, 53⟩ = .ok fix
      ∧ ∃ field top, (Document.parse indentedSource).fieldAt? ⟨51, 53⟩ = some field
        ∧ (Document.parse indentedSource).RunTop top field
        ∧ Edit.remove ⟨(Document.parse indentedSource).lineStart top.start,
          ((Document.parse indentedSource).linesOf field).stop⟩ ∈ fix.edits := by
  have hremoves : removesIndented (.parse indentedSource) ⟨51, 53⟩ = true := by decide +kernel
  rw [removesIndented, Bool.and_eq_true] at hremoves
  obtain ⟨fix, hfix⟩ := Option.isSome_iff_exists.1 hremoves.1
  obtain ⟨field, top, hfield, hrun, hedit⟩ :=
    removeField_takes_comments indentedSource ⟨51, 53⟩ fix (eq_ok_of_toOption hfix)
  have hindented := hremoves.2
  rw [hfield, Option.any_some, Bool.and_eq_true, Bool.and_eq_true, decide_eq_true_eq,
    bne_iff_ne] at hindented
  obtain ⟨⟨hsole, halone⟩, hcolumn⟩ := hindented
  refine ⟨fix, eq_ok_of_toOption hfix, field, top, hfield, hrun, ?_⟩
  simpa only [if_neg hcolumn] using hedit hsole halone

/-- A field that starts its line, with a comment above it. -/
def flushSource : Text :=
  "class C\n\x7b\n// The x.\nint _x;\nC(int x) \x7b _x = x; \x7d\n\x7d\n".toList

/-- Whether a field has its declaration and its lines for itself and one comment
    directly above it, and no edit takes the field from the line of the comment
    on. -/
def leavesComment (document : Document) (fix : Fix) (field comment : Place) : Bool :=
  field.declaredFields.length ≤ 1 && document.standsAlone field
    && comment.isA .comment && document.leadsLine comment
    && document.lines.line comment.stop + 1 == document.lines.line field.start
    && (comment.previous?.all fun sibling => !sibling.isA .comment)
    && fix.edits.all fun edit =>
      !(field.span.within edit.span && edit.span.start == document.lineStart comment.start)

/-- What such a comment is: the topmost above the field, and left behind. -/
theorem of_leavesComment {document : Document} {fix : Fix} {field comment : Place}
    (hprevious : field.previous? = some comment)
    (h : leavesComment document fix field comment = true) :
    field.declaredFields.length ≤ 1 ∧ document.standsAlone field = true
      ∧ document.RunTop comment field
      ∧ ¬∃ edit ∈ fix.edits, field.span.within edit.span = true
        ∧ edit.span.start = document.lineStart comment.start := by
  -- The test is a conjunction; its last two parts say the comment is topmost and survives.
  simp only [leavesComment, Bool.and_eq_true, decide_eq_true_eq, beq_iff_eq] at h
  obtain ⟨⟨⟨⟨⟨⟨hsole, halone⟩, hcomment⟩, hleads⟩, habove⟩, htop⟩, hedits⟩ := h
  refine ⟨hsole, halone, .above ⟨hprevious, hcomment, hleads, habove⟩ (.here ?_), ?_⟩
  · intro sibling hattached
    rw [hattached.previous, Option.all_some, hattached.isComment] at htop
    exact absurd htop (by decide)
  · rintro ⟨edit, hedit, hwithin, hstart⟩
    have hkept := List.all_eq_true.1 hedits edit hedit
    rw [hwithin, hstart, beq_self_eq_true] at hkept
    exact absurd hkept (by decide)

set_option maxRecDepth 100000 in
/-- The comment above a field that starts its line stays behind. -/
theorem comment_stays_behind :
    ¬∀ (source : Text) (anchor : Span) (fix : Fix) (field top : Place),
      (Document.parse source).hasErrors = false → removeField (.parse source) anchor = .ok fix →
      (Document.parse source).fieldAt? anchor = some field → field.declaredFields.length ≤ 1 →
      (Document.parse source).standsAlone field = true →
      (Document.parse source).RunTop top field →
      ∃ edit ∈ fix.edits, field.span.within edit.span = true
        ∧ edit.span.start = (Document.parse source).lineStart top.start := by
  intro h
  have herrors : (Document.parse flushSource).hasErrors = false := by decide +kernel
  have hleaves : ((removeField (.parse flushSource) ⟨24, 26⟩).toOption.any fun fix =>
      ((Document.parse flushSource).fieldAt? ⟨24, 26⟩).any fun field =>
        field.previous?.any (leavesComment (.parse flushSource) fix field)) = true := by
    decide +kernel
  obtain ⟨fix, hfix, hleaves⟩ := (Option.any_eq_true _ _).1 hleaves
  obtain ⟨field, hfield, hleaves⟩ := (Option.any_eq_true _ _).1 hleaves
  obtain ⟨comment, hprevious, hleaves⟩ := (Option.any_eq_true _ _).1 hleaves
  obtain ⟨hsole, halone, hrun, hkept⟩ := of_leavesComment hprevious hleaves
  exact hkept (h flushSource ⟨24, 26⟩ fix field comment herrors (eq_ok_of_toOption hfix) hfield
    hsole halone hrun)

end SharpLint

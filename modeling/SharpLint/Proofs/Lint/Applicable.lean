import SharpLint.Lint.Analysis
import SharpLint.Proofs.Lint.Apart
import SharpLint.Proofs.Lint.Fields
import SharpLint.Proofs.Lint.References
import SharpLint.Proofs.Lint.Wrapping

/-!
# Every Issue Has a Fix that Applies

A document without errors offers a fix for each of its issues, but for an
unread field that something writes outside its constructors. The issue names
the node that the fixer looks for, and the fixer finds that node again; the
edits it plans lie apart and on cuts of the source, so none is refused and all
can be spliced in.

## Main definitions

* `Document.Readable`: the stretches around a node that fixers read exist.
* `Document.EndsOn`: the line on which a node ends, cut there.
* `Document.WrittenByDead`: nothing but dead statements writes to a field.

## Theorems

* `Document.Has.readable`: The stretches that fixers read exist.
* `exists_stands`: An issue for an unread field leads to a plan.
* `analyze_offers_fixes`: Every issue has a fix that applies.
-/

namespace SharpLint

open Text Place

/-! ### Stretches of source -/

/-- The stretches of source that fixers read around a node can be cut out. -/
structure Document.Readable (document : Document) (node : Place) : Prop where
  /-- The text of the node, read of comments. -/
  own : (document.source.slice? node.span).isSome = true
  /-- What stands before the node on its line. -/
  before : (document.source.slice?
    ⟨document.lines.start (document.lines.line node.start), node.start⟩).isSome = true
  /-- The last line of the node. -/
  line : (document.source.slice? ⟨document.lines.start (document.lines.line node.stop),
    document.lines.stop (document.lines.line node.stop)⟩).isSome = true
  /-- What stands behind the node on its last line, read of what is removed. -/
  after : node.kind = .expressionStatement ∨ node.kind = .fieldDeclaration →
    (document.source.slice? ⟨node.stop, (document.source.lineRange document.lines
      (document.lines.line node.stop)).stop⟩).isSome = true

/-- The line on which a node ends, cut where the node ends. -/
structure Document.EndsOn (document : Document) (node : Place) (before lead line after : Text) :
    Prop where
  source : document.source = before ++ lead ++ line ++ after
  leadUnbroken : '\n' ∉ lead
  lineUnbroken : '\n' ∉ line
  opens : AtLineStart before
  breaksOff : BreaksOff after
  stop : node.stop = size (before ++ lead)
  number : document.lines.line node.stop = (before ++ lead).count '\n'

namespace Document

variable {document : Document} {node : Place} {before lead line after : Text}

theorem Has.exists_endsOn (hnode : document.Has node) (hsound : document.Sound) :
    ∃ before lead line after, document.EndsOn node before lead line after := by
  obtain ⟨before, lead, mid, line, after, h⟩ := hnode.exists_surrounds hsound
  obtain ⟨before', lead', hmid, hlead, hbefore⟩ := exists_lastLine (before ++ lead ++ mid)
  exact ⟨before', lead', line, after, by rw [h.source, hmid], hlead, h.line, hbefore, h.breaksOff,
    by rw [← h.stop, hmid], by rw [h.lastLine hsound, hmid]⟩

namespace EndsOn

theorem lines (h : document.EndsOn node before lead line after) (hsound : document.Sound) :
    document.lines = .ofText (before ++ lead ++ line ++ after) := by
  rw [hsound.lines, h.source]

/-- The line can be cut out. -/
theorem slice_line (h : document.EndsOn node before lead line after) (hsound : document.Sound) :
    document.source.slice? ⟨document.lines.start (document.lines.line node.stop),
      document.lines.stop (document.lines.line node.stop)⟩ = some (lead ++ line) := by
  have hstart : document.lines.start (document.lines.line node.stop) = size before := by
    rw [h.number, h.lines hsound, List.append_assoc (before ++ lead)]
    exact LineTable.start_cut _ h.leadUnbroken h.opens
  have hstop : document.lines.stop (document.lines.line node.stop)
      = size (before ++ lead ++ line) := by
    rw [h.number, h.lines hsound]
    exact LineTable.stop_cut h.lineUnbroken h.breaksOff
  refine slice?_eq_some_iff.2 ⟨before, after, ?_, hstart.symm, ?_⟩
  · rw [h.source]
    simp only [List.append_assoc]
  · rw [hstart, hstop]
    simp only [size_append, Nat.add_assoc]

/-- A statement or a field does not end with a carriage return, for it ends with
    ink. -/
theorem lead_ne_return (h : document.EndsOn node before lead line after) (hsound : document.Sound)
    (hwalled : document.Walled) (hnode : document.Has node)
    (hkind : node.kind = .expressionStatement ∨ node.kind = .fieldDeclaration) (more : Text) :
    lead ≠ more ++ ['\r'] := by
  intro hmore
  obtain ⟨last, hlast, -, hlastStop⟩ := hnode.ends hsound hwalled
    (by rcases hkind with hkind | hkind <;> rw [hkind] <;> rfl)
  obtain ⟨text, ⟨x, y, hxy, hx⟩, hsize, -, init, c, rfl, hink⟩ := hlast.solid
  rw [h.source, List.append_assoc] at hxy
  obtain ⟨heq, -⟩ := append_inj_of_size hxy (by rw [size_append x, hx, hsize, hlastStop, h.stop])
  rw [hmore, ← List.append_assoc, ← List.append_assoc, List.append_singleton_inj] at heq
  rw [← heq.2] at hink
  exact absurd hink (by decide)

/-- What stands behind a statement or a field on its line can be cut out. -/
theorem slice_behind (h : document.EndsOn node before lead line after) (hsound : document.Sound)
    (hwalled : document.Walled) (hnode : document.Has node)
    (hkind : node.kind = .expressionStatement ∨ node.kind = .fieldDeclaration) :
    (document.source.slice? ⟨node.stop, (document.source.lineRange document.lines
      (document.lines.line node.stop)).stop⟩).isSome = true := by
  obtain ⟨stop, hrange, hcases⟩ := lineRange_cut h.leadUnbroken h.lineUnbroken h.opens h.breaksOff
  rw [← h.lines hsound, ← h.source, ← h.number] at hrange
  have hslice {kept rest : Text} (hline : line = kept ++ rest)
      (hkept : stop = size (before ++ lead ++ kept)) :
      (document.source.slice? ⟨node.stop, stop⟩).isSome = true := by
    refine Option.isSome_iff_exists.2 ⟨kept, slice?_eq_some_iff.2
      ⟨before ++ lead, rest ++ after, ?_, h.stop.symm, ?_⟩⟩
    · rw [h.source, hline]
      simp only [List.append_assoc]
    · rw [hkept, h.stop, ← size_append]
  rw [hrange]
  rcases hcases with hcase | ⟨more, hmore, hcase⟩
  · exact hslice (List.append_nil line).symm hcase
  · rcases List.eq_nil_or_concat line with hnil | ⟨kept, c, hconcat⟩
    · rw [hnil, List.append_nil] at hmore
      exact absurd hmore (h.lead_ne_return hsound hwalled hnode hkind more)
    · -- The carriage return stands behind the node.
      rw [List.concat_eq_append] at hconcat
      rw [hconcat, ← List.append_assoc, List.append_singleton_inj] at hmore
      exact hslice hconcat (by rw [hcase, ← hmore.1, List.append_assoc])

end EndsOn

theorem Has.readable (hnode : document.Has node) (hsound : document.Sound)
    (hwalled : document.Walled) : document.Readable node := by
  obtain ⟨before, lead, line, after, h⟩ := hnode.exists_endsOn hsound
  refine ⟨?_, ?_, ?_, h.slice_behind hsound hwalled hnode⟩
  · have hlaid := hnode.laidOut hsound
    obtain ⟨part, hpart⟩ : ∃ part, document.source.slice? node.span = some part :=
      CutsAt.slice? hlaid.startCut hlaid.stopCut hlaid.proper
    exact Option.isSome_iff_exists.2 ⟨part, hpart⟩
  · obtain ⟨before, lead, mid, line, after, h⟩ := hnode.exists_surrounds hsound
    rw [h.lineStart hsound, h.slice_lead]
    rfl
  · rw [h.slice_line hsound]
    rfl

end Document

/-! ### Unread fields -/

/-- Nothing but dead statements writes to the field whose name is at the
    span. -/
def Document.WrittenByDead (document : Document) (anchor : Span) : Prop :=
  ∀ type ∈ document.root.descendants, type.kind.isTypeDeclaration = true →
    ∀ declarator ∈ type.fieldDeclarators, ∀ name ∈ declarator.name?, name.span = anchor →
      ∀ field ∈ name.resolve?, (FieldUsage.collect type field).otherWrites = []

instance (document : Document) (anchor : Span) : Decidable (document.WrittenByDead anchor) :=
  inferInstanceAs (Decidable (∀ type ∈ document.root.descendants, type.kind.isTypeDeclaration = true →
    ∀ declarator ∈ type.fieldDeclarators, ∀ name ∈ declarator.name?, name.span = anchor →
      ∀ field ∈ name.resolve?, (FieldUsage.collect type field).otherWrites = []))

/-- An issue for an unread field leads to a plan, unless something else writes
    to the field. -/
theorem exists_stands {document : Document} (hsound : document.Sound) {type declarator : Place}
    (htype : document.Has type) (htypeKind : type.kind.isTypeDeclaration = true)
    (hdeclarator : declarator ∈ type.fieldDeclarators) {issue : Issue}
    (hissue : unreadFieldIssue? document type declarator = some issue)
    (hwritten : document.WrittenByDead issue.span) :
    ∃ plan : RemovalPlan, plan.Stands document issue.span := by
  obtain ⟨name, symbol, hname, hresolve, hspan, -, hunread, -⟩ := unreadFieldIssue?_eq_some hissue
  obtain ⟨field, declaration, h⟩ := exists_declaresField htype htypeKind hdeclarator hname
  obtain ⟨-, hparents⟩ := h.parents
  -- The span of the issue is that of the name, so the plan is found from it.
  have hat := h.at? hsound (kind_of_resolve? hresolve)
  rw [← hspan] at hat
  rw [FieldUsage.isUnread, Bool.and_eq_true, Bool.not_eq_true', List.isEmpty_iff] at hunread
  refine ⟨⟨name, declarator, declaration, field, type, symbol⟩, hat, hparents.1, hparents.2.1,
    hparents.2.2.1, hparents.2.2.2, hresolve, by rw [h.symbol_eq hresolve]; rfl, ?_, hunread.2,
    hwritten type (mem_descendants.2 htype) htypeKind declarator hdeclarator name hname hspan.symm
      symbol hresolve⟩
  -- Without writes the field would not be unread, and no issue would be raised.
  intro hnil
  have hwrites := hunread.1
  rw [show (FieldUsage.collect type symbol).constructorWrites = [] from hnil] at hwrites
  exact absurd hwrites (by decide)

/-- A plan leads to a fix that fits the source. -/
theorem RemovalPlan.Stands.fits {plan : RemovalPlan} {document : Document} {anchor : Span}
    (h : plan.Stands document anchor) (hsound : document.Sound) (hwalled : document.Walled) :
    ∃ fix, removeField document anchor = .ok fix ∧ fix.Fits document.source := by
  have hforward : ∀ edit ∈ plan.edits document, edit.span.start ≤ edit.span.stop :=
    fun edit hedit => (h.fitsIn hsound hwalled hedit).forward
  obtain ⟨-, hfits⟩ := Fix.ofEdits_fits Fixer.removeField.title Fixer.removeField.key
    (h.pairwise_edits hsound hwalled) fun edit hedit => h.fitsIn hsound hwalled hedit
  exact ⟨_, h.fix_eq (Edit.overlapping_of_inChain
    (Edit.inChain_inOrder (h.pairwise_edits hsound hwalled) hforward)), hfits⟩

/-- A removal fits the source. -/
theorem RemovalPlan.Leads.fits {plan : RemovalPlan} {document : Document} {anchor : Span} {fix : Fix}
    (h : plan.Leads document anchor fix) (hsound : document.Sound) (hwalled : document.Walled) :
    fix.Fits document.source := by
  have hperm : fix.edits.Perm (plan.edits document) := by
    rw [h.edits]
    exact sortBy_perm Edit.precedes _
  have hfits : ∀ edit ∈ fix.edits, edit.FitsIn document.source := fun edit hedit =>
    h.fitsIn hsound hwalled (hperm.mem_iff.1 hedit)
  exact ⟨Edit.inChain_of_overlapping h.apart fun edit hedit => (hfits edit hedit).forward, hfits⟩

/-! ### Issues -/

/-- What the rules report in a document. -/
theorem mem_check {config : Config} {document : Document} {issue : Issue}
    (h : issue ∈ check config document) :
    issue ∈ constructorLengthIssues config.style.maxLineLength document
      ∨ issue ∈ unreadFieldIssues document := by
  obtain ⟨rule, -, hissue⟩ := List.mem_flatMap.1 ((sortBy_perm _ _).mem_iff.1 h)
  cases rule with
  | constructorLength => exact .inl hissue
  | unreadField => exact .inr hissue

/-- Every issue has a fix that applies, unless it is for a field that something
    else writes to. -/
theorem exists_fix_of_mem_check {config : Config} {document : Document} (hsound : document.Sound)
    (hwalled : document.Walled) {issue : Issue} (hissue : issue ∈ check config document)
    (hwritten : issue.rule = .unreadField → document.WrittenByDead issue.span) :
    ∃ fix, fixFor config document issue.rule.id issue.span = .ok fix
      ∧ ∃ text, fix.apply document.source = .ok text := by
  -- A long constructor can always be wrapped; an unread field has a plan that stands.
  rcases mem_check hissue with hissue | hissue
  · obtain ⟨hrule, -, fix, hfix, hfits, -⟩ :=
      wrapParameters_of_issue hsound hwalled hissue config.style.indentSize
    rw [hrule]
    exact ⟨fix, hfix, hfits.applies⟩
  · obtain ⟨type, htype, hissue⟩ := List.mem_flatMap.1 hissue
    rw [List.mem_filter] at htype
    obtain ⟨declarator, hdeclarator, hissue⟩ := List.mem_filterMap.1 hissue
    obtain ⟨_, _, -, -, -, hrule, -⟩ := unreadFieldIssue?_eq_some hissue
    obtain ⟨plan, hplan⟩ := exists_stands hsound (mem_descendants.1 htype.1) htype.2 hdeclarator
      hissue (hwritten hrule)
    rw [hrule]
    obtain ⟨fix, hfix, hfits⟩ := hplan.fits hsound hwalled
    exact ⟨fix, hfix, hfits.applies⟩

/-- A source without errors offers a fix for every issue, and the fix applies to
    it, unless the issue is for a field that something writes to outside the
    dead statements of constructors. No stretch of source that the fixers read
    is out of range. -/
theorem analyze_offers_fixes (config : Config) (source : Text)
    (hfits : (Document.parse source).hasErrors = false) :
    (∀ issue ∈ analyze config source,
      (issue.rule = .unreadField → (Document.parse source).WrittenByDead issue.span) →
      ∃ fix, fixFor config (.parse source) issue.rule.id issue.span = .ok fix
        ∧ issue.fix = some fix ∧ ∃ text, fix.apply source = .ok text)
      ∧ ∀ node ∈ (Document.parse source).root.descendants,
        (Document.parse source).Readable node := by
  have hsound := Document.parse_sound source
  have hwalled := Document.parse_walled source
  refine ⟨fun issue hissue hwritten => ?_,
    fun node hnode => Document.Has.readable (mem_descendants.1 hnode) hsound hwalled⟩
  simp only [analyze, analyzeDocument, hfits, Bool.false_eq_true, if_false, List.mem_map] at hissue
  obtain ⟨found, hfound, rfl⟩ := hissue
  obtain ⟨fix, hfix, happlies⟩ := exists_fix_of_mem_check hsound hwalled hfound hwritten
  refine ⟨fix, hfix, ?_, happlies⟩
  simp only [Issue.withFix, hfix]
  rfl

set_option maxRecDepth 100000 in
theorem analyze_offers_fixes_for_unread :
    (∃ issue ∈ analyze {} unreadSource, issue.rule = .unreadField
        ∧ (Document.parse unreadSource).WrittenByDead issue.span)
      ∧ ∀ issue ∈ analyze {} unreadSource,
        (issue.rule = .unreadField → (Document.parse unreadSource).WrittenByDead issue.span) →
        ∃ fix, fixFor {} (.parse unreadSource) issue.rule.id issue.span = .ok fix
          ∧ issue.fix = some fix ∧ ∃ text, fix.apply unreadSource = .ok text :=
  ⟨by decide +kernel, (analyze_offers_fixes {} unreadSource (by decide +kernel)).1⟩

end SharpLint

import SharpLint.Files.SourceFile
import SharpLint.Proofs.Lint.Rounds

/-!
# How Fixed Sources Begin

What is fixed stands in the body of a type, behind a bracket, so each fix keeps
the first character of its source. Tidying may take the blanks of the first
line, but never the line. So a byte order mark at the start of a fixed source
was there before.

## Theorems

* `Document.Has.exists_brace`: A member stands behind the bracket of its body.
* `start_pos_of_mem_offers`: No fix on offer begins at the start of its source.
* `head?_tidy`: What a tidied text begins with.
* `head?_fixSource`: A fixed source begins with no new mark.
* `SourceFile.ofContent_fixed`: A fixed source is read as it is written.
-/

namespace SharpLint

open Text Place

variable {document : Document}

/-! ### Behind the bracket of a body -/

/-- A member stands behind the bracket that opens the body of its type. -/
theorem Document.Has.exists_brace {body member : Place} {n : Nat} (hbody : document.Has body)
    (hsound : document.Sound) (hkind : body.kind = .declarationList)
    (hmember : body.child? n = some member) (hisMember : member.kind.isMember = true) :
    ∃ brace, document.Piece brace ∧ brace.stop ≤ member.start := by
  obtain ⟨brace, closing, k, hbrace, -, -, -, hfit⟩ :=
    hbody.exists_brackets hsound (by rw [hkind]; rfl)
  rw [hkind] at hfit
  simp only [Kind.bracketsFit, Bool.and_eq_true, beq_iff_eq] at hfit
  have hlexeme : brace.node.lexeme ≠ "" := by
    intro hempty
    rw [hempty, String.toList_empty] at hfit
    exact absurd hfit.1 (List.cons_ne_nil _ _).symm
  -- What has children is no token, and a node begins with a child of ink.
  have hbodyLexeme : body.node.lexeme = "" := by
    refine Classical.byContradiction fun hne => ?_
    rcases (hbody.shaped hsound).leaf hne with hpragma | hleaf
    · rw [Place.kind, hpragma] at hkind
      exact absurd hkind (by decide)
    · have hmem := mem_of_child? hbrace
      rw [hleaf] at hmem
      exact List.not_mem_nil hmem
  have hmayOpen : brace.node.kind.mayOpen = true := by
    have hbodyKind : body.node.kind = .declarationList := hkind
    obtain ⟨first, rest, hchildren, hopens⟩ := (hbody.shaped hsound).opens hbodyLexeme
      (by rw [hbodyKind]; decide) (by rw [hbodyKind]; decide)
    have hfirst := (child?_eq_some.1 hbrace).1
    rw [hchildren, List.getElem?_cons_zero, Option.some.injEq] at hfirst
    rwa [← hfirst]
  refine ⟨brace, Document.piece_of_isCode hsound (hbody.child hbrace) ⟨hlexeme, hmayOpen⟩,
    hbody.child_order hsound hbrace hmember (Nat.pos_of_ne_zero ?_)⟩
  -- The brace is a token, and the member is none.
  rintro rfl
  rw [hbrace, Option.some.injEq] at hmember
  exact hlexeme ((hbody.child hbrace).lexeme_of_isComposite hsound
    (Kind.isComposite_of_isMember (hmember ▸ hisMember)))

theorem Document.Piece.stop_pos {piece : Place} (h : document.Piece piece) : 0 < piece.stop :=
  Nat.lt_of_le_of_lt (Nat.zero_le _) h.start_lt_stop

/-! ### Fixes on offer -/

namespace RemovalPlan

variable {plan : RemovalPlan} {anchor : Span}

/-- A constructor with a dead statement stands behind a brace. -/
theorem Stands.exists_brace_of_write (h : plan.Stands document anchor) (hsound : document.Sound)
    {write : ConstructorWrites} (hwrite : write ∈ plan.writes) :
    ∃ brace, document.Piece brace ∧ brace.stop ≤ write.constructor.start := by
  obtain ⟨-, hkind, -, n, body, hbody, hbodyKind, m, hm⟩ :=
    h.hasType.1.constructor (mem_writes hwrite).1
  exact (h.hasType.1.child hbody).exists_brace hsound hbodyKind hm (by rw [hkind]; rfl)

/-- The field of a plan for an issue stands behind a brace. -/
theorem Stands.exists_brace_of_field (h : plan.Stands document anchor) (hsound : document.Sound)
    {issue : Issue} (hissue : issue ∈ unreadFieldIssues document) (hanchor : issue.span = anchor) :
    ∃ brace, document.Piece brace ∧ brace.stop ≤ plan.field.start := by
  obtain ⟨type, htype, hissue⟩ := List.mem_flatMap.1 hissue
  rw [List.mem_filter] at htype
  obtain ⟨declarator, hdeclarator, hissue⟩ := List.mem_filterMap.1 hissue
  obtain ⟨name, symbol, hname, hresolve, hspan, -⟩ := unreadFieldIssue?_eq_some hissue
  obtain ⟨field, declaration, hfield⟩ :=
    exists_declaresField (mem_descendants.1 htype.1) htype.2 hdeclarator hname
  rw [← hanchor, hspan] at h
  obtain ⟨hplan, -⟩ := hfield.eq_plan hsound (kind_of_resolve? hresolve) h
  obtain ⟨body, m, n, hbody, hkind, hn⟩ := hfield.inType
  rw [hplan]
  exact (hfield.hasType.child hbody).exists_brace hsound hkind hn (by rw [hfield.isField]; rfl)

/-- The edits of a plan for an issue begin behind a brace. -/
theorem Stands.start_pos (h : plan.Stands document anchor) (hsound : document.Sound)
    {issue : Issue} (hissue : issue ∈ unreadFieldIssues document) (hanchor : issue.span = anchor)
    {edit : Edit} (hedit : edit ∈ plan.edits document) : 0 < edit.span.start := by
  -- The edit is for a dead statement, for parameters or for the declaration.
  rcases mem_edits.1 hedit with ⟨write, hwrite, dead, hdead, rfl⟩
    | ⟨write, hwrite, list, hlist, hedit⟩ | hedit
  · obtain ⟨brace, hbrace, hle⟩ := h.exists_brace_of_write hsound hwrite
    obtain ⟨hconstructor, hkind⟩ := h.hasConstructor hwrite
    have hpos := hbrace.stop_pos
    obtain ⟨n, body, hn, hcases, -⟩ := Document.mem_deadStatements (dead_of_mem hwrite hdead)
    have hbodySpan := hconstructor.child_span hsound hn
    rcases hcases with ⟨hbody, -, hstatement⟩ | ⟨hbody, hblock, hstatement, m, hm⟩
    · rw [deadStatementEdit, if_pos hbody, hstatement]
      change 0 < body.start
      omega
    · have hstatementSpan := (hconstructor.child hn).child_span hsound hm
      have hhas := (hconstructor.child hn).child hm
      have hbehind : brace.stop ≤ dead.statement.start := by omega
      rw [deadStatementEdit, if_neg (by rw [hbody]; decide)]
      exact Nat.lt_of_lt_of_le hpos (hbrace.before hhas hsound
        (hbrace.of_statementRemoval hsound hhas
          (hbrace.not_above hsound hstatementSpan.2.1 (.inr hbehind)))
        (statementRemoval_spec hsound hhas).2.le hstatementSpan.2.1 hbehind)
  · obtain ⟨brace, hbrace, hle⟩ := h.exists_brace_of_write hsound hwrite
    obtain ⟨-, -, n, hn⟩ := h.hasList hsound hwrite hlist
    have hlistSpan := (h.hasConstructor hwrite).1.child_span hsound hn
    obtain ⟨-, -, hfrom, -⟩ := h.parameterEdit_spec hsound hwrite hlist hedit
    have hpos := hbrace.stop_pos
    omega
  · obtain ⟨brace, hbrace, hle⟩ := h.exists_brace_of_field hsound hissue hanchor
    obtain ⟨hhas, hkind, n, hn⟩ := h.hasField
    by_cases hmany : 1 < (plan.declaration.childrenOf .variableDeclarator).length
    · obtain ⟨-, -, hfrom, -⟩ := h.declaratorEdit_spec hsound hmany hedit
      have hdeclaration := hhas.child_span hsound hn
      have hpos := hbrace.stop_pos
      omega
    · rw [Document.declaratorEdits_of_sole hmany, List.mem_singleton] at hedit
      subst hedit
      obtain ⟨parent, m, hparent, hm⟩ := h.exists_parent
      have habove : ¬Below brace plan.field := hbrace.not_above_member (by rw [hkind]; rfl)
      exact Nat.lt_of_lt_of_le hbrace.stop_pos (hbrace.before hhas hsound
        (hbrace.of_memberRemoval hsound hparent (fun hbelow => habove (.step hbelow hm)) hm
          (by rw [hkind]; rfl))
        (memberRemoval_spec hsound hparent hm).2.1 (hparent.child_span hsound hm).2.1 hle)

end RemovalPlan

variable {config : Config} {source : Text}

/-- No fix on offer begins at the start of its source: the brackets of a list
    or of a body are before it. -/
theorem start_pos_of_mem_offers {fix : Fix} (h : fix ∈ offers config source) {edit : Edit}
    (hedit : edit ∈ fix.edits) : 0 < edit.span.start := by
  have hsound := Document.parse_sound source
  obtain ⟨issue, hissue, hfix⟩ := mem_offers.1 h
  rcases made_of_mem_analyze hissue hfix with ⟨-, found, -, hmade⟩ | ⟨found, hfound, plan, hplan⟩
  · obtain ⟨-, list, indent, hlist, hkind, hperm⟩ := edits_of_wrapParameters hmade
    obtain ⟨-, hfits⟩ := wrapEdits_fit hsound (Document.parse_walled source) hlist hkind indent
    exact Nat.zero_lt_of_lt (hfits edit (hperm.mem_iff.1 hedit)).2
  · exact hplan.start_pos hsound hfound rfl (hplan.mem_fix.1 hedit)

/-! ### The first character -/

/-- Edits behind the first character keep it. -/
theorem Edit.Splices.head? {text new : Text} {edits : List Edit} (h : Splices 0 text edits new)
    (hpos : ∀ edit ∈ edits, 0 < edit.span.start) : new.head? = text.head? := by
  cases h with
  | nil => rfl
  | @cons _ _ _ kept old rest new text edits hstart hstop tail =>
      have hkept : 0 < 0 + size kept := hstart ▸ hpos _ List.mem_cons_self
      cases kept with
      | nil => exact absurd hkept (Nat.lt_irrefl 0)
      | cons c kept => rfl

/-- The first character of a written line is that of the line, or a carriage
    return. -/
theorem TidyLine.head?_written {touched : Bool} {raw : Text} {c : Char}
    (h : (ofRaw touched raw).written.head? = some c) (hreturn : c ≠ '\r') :
    raw.head? = some c := by
  obtain ⟨ret, hraw, hwritten, -, hret⟩ := ofRaw_spec touched raw
  obtain ⟨pad, hpad⟩ : ∃ pad, (ofRaw touched raw).body = (ofRaw touched raw).cleaned ++ pad := by
    rw [cleaned]
    split
    · obtain ⟨pad, hbody, -⟩ := exists_dropPaddingEnd (ofRaw touched raw).body
      exact ⟨pad, hbody⟩
    · exact ⟨[], (List.append_nil _).symm⟩
  rw [hwritten] at h
  rw [hraw, hpad]
  generalize (ofRaw touched raw).cleaned = cleaned at h
  cases cleaned with
  | nil =>
      rcases hret with rfl | ⟨rfl, -⟩
      · exact absurd (Option.some.inj h).symm hreturn
      · exact absurd h (by simp only [List.append_nil, List.head?_nil, reduceCtorEq, not_false_eq_true])
  | cons d cleaned => exact h

/-- The first character of joined lines is that of the first line, or a line
    feed. -/
theorem Text.head?_joinLines {line : Text} {lines : List Text} {c : Char} (hfeed : c ≠ '\n')
    (h : (joinLines (line :: lines)).head? = some c) : line.head? = some c := by
  cases lines with
  | nil => exact h
  | cons next lines =>
      rw [joinLines_cons (List.cons_ne_nil _ _)] at h
      cases line with
      | nil => exact absurd (Option.some.inj h).symm hfeed
      | cons d line => exact h

/-- A tidied text begins as before, or with a line end: its first line is
    kept. -/
theorem head?_tidy {text : Text} {touched : List Span} {c : Char} (hfeed : c ≠ '\n')
    (hreturn : c ≠ '\r') (h : (tidy text touched).head? = some c) : text.head? = some c := by
  obtain ⟨line, lines, hlines⟩ := List.exists_cons_of_ne_nil (splitLines_ne_nil text)
  have hjoined := joinLines_splitLines text
  rw [hlines] at hjoined
  simp only [tidy, hlines, List.mapIdx_cons, tidyLines, Bool.and_false, Bool.false_and,
    Bool.false_eq_true, if_false] at h
  have hline := TidyLine.head?_written (head?_joinLines hfeed h) hreturn
  rw [← hjoined]
  obtain ⟨d, rest, rfl⟩ : ∃ d rest, line = d :: rest := by
    cases line with
    | nil => exact absurd hline (by simp only [List.head?_nil, reduceCtorEq, not_false_eq_true])
    | cons d rest => exact ⟨d, rest, rfl⟩
  rw [← hline]
  cases lines <;> rfl

/-- A round brings no first character but a line end. -/
theorem head?_round {c : Char} (hfeed : c ≠ '\n') (hreturn : c ≠ '\r')
    (h : (Batch.run source (offers config source)).1.head? = some c) : source.head? = some c := by
  obtain ⟨taken, htaken⟩ :=
    Batch.collects_ofFixes fun fix (hfix : fix ∈ offers config source) => fits_of_mem_offers hfix
  obtain ⟨spliced, touched, hspliced, hrun⟩ := Batch.run_eq htaken
  rw [hrun] at h
  rw [← hspliced.head? fun edit hedit => ?_]
  · exact head?_tidy hfeed hreturn h
  · obtain ⟨fix, hfix, hedit⟩ := htaken.mem_edits.1 hedit
    exact start_pos_of_mem_offers (htaken.sublist.subset hfix) hedit

theorem head?_fixRounds {c : Char} (hfeed : c ≠ '\n') (hreturn : c ≠ '\r') (passes applied : Nat)
    (h : (fixRounds config passes source applied).1.head? = some c) : source.head? = some c := by
  induction passes generalizing source applied with
  | zero => exact h
  | succ passes ih =>
      rw [fixRounds_succ] at h
      split at h
      · exact h
      · split at h
        · exact h
        · exact head?_round hfeed hreturn (ih _ h)

/-- A fixed source begins with a mark only if the source does. -/
theorem head?_fixSource (config : Config) (source : Text)
    (h : (fixSource config source).1.head? = some SourceFile.mark) :
    source.head? = some SourceFile.mark :=
  head?_fixRounds (by decide) (by decide) _ 0 h

/-! ### Marks -/

namespace SourceFile

/-- What is set apart of a content is put back before a text that brings no mark
    of its own. -/
theorem ofContent_content {file : SourceFile} {text : Text}
    (h : file.hasMark = false → text.head? ≠ some mark) :
    ofContent (file.content text) = ⟨text, file.hasMark⟩ := by
  cases hmark : file.hasMark with
  | true =>
      rw [content, hmark, if_pos rfl, ofContent, if_pos rfl]
  | false =>
      rw [content, hmark, if_neg Bool.false_ne_true]
      cases text with
      | nil => rfl
      | cons c text => rw [ofContent, if_neg fun hc => h hmark (congrArg some hc)]

/-- A text without a mark set apart begins with none. -/
theorem head?_of_hasMark_eq_false {whole : Text} (h : (ofContent whole).hasMark = false) :
    (ofContent whole).text.head? ≠ some mark := by
  cases whole with
  | nil => exact fun hnone => absurd hnone (by simp only [ofContent, List.head?_nil, reduceCtorEq,
      not_false_eq_true])
  | cons c whole =>
      rw [ofContent] at h ⊢
      split at h
      · exact absurd h.symm Bool.false_ne_true
      · next hc => rw [if_neg hc, List.head?_cons]; exact fun hmark => hc (Option.some.inj hmark)

/-- A fixed source is read back as it is written, with its mark or without. -/
theorem ofContent_fixed (config : Config) {file : SourceFile} {whole : Text}
    (h : file = ofContent whole) :
    ofContent (file.content (fixSource config file.text).1)
      = ⟨(fixSource config file.text).1, file.hasMark⟩ := by
  refine ofContent_content fun hmark hhead => ?_
  subst h
  exact head?_of_hasMark_eq_false hmark (head?_fixSource config _ hhead)

end SourceFile

end SharpLint

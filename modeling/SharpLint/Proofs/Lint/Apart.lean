import SharpLint.Proofs.Edit.Splice
import SharpLint.Proofs.Lint.Plan
import SharpLint.Proofs.Syntax.Closing

/-!
# Edits of a Removal Lie Apart

No two edits of a removal have a byte in common. Between two nodes there is
nothing that both edits reach for: a removal stops at the first ink, and over
the blanks between two statements it ends either before the first line feed or
behind it, where the other one may begin. The edits of one constructor stay in
its span, and the removal of the field stays out of it.

## Main definitions

* `Text.StartsLine`: an offset at which a line starts.
* `Document.Begins`, `Document.Ends`: a piece stands at the end of a node.

## Theorems

* `pairwise_removalsFromList`: Removals from a list come in order.
* `statementRemoval_apart`: Removals of statements come in order.
* `RemovalPlan.Stands.within_constructor`: The edits of a constructor stay in it.
* `RemovalPlan.Stands.pairwise_edits`: The edits of a removal lie apart.
-/

namespace SharpLint

open Text Place

/-! ### Lists -/

/-- Each span stops where the next ones start, or before. -/
abbrev Chained (spans : List Span) : Prop :=
  spans.Pairwise fun a b => a.stop ≤ b.start

theorem pairwise_leadingRemovals {entries : List (Span × Bool)}
    (hpairs : entries.Pairwise fun a b => a.1.stop ≤ b.1.start)
    (hproper : ∀ entry ∈ entries, entry.1.start ≤ entry.1.stop) :
    Chained (leadingRemovals entries) := by
  induction entries with
  | nil => exact List.Pairwise.nil
  | cons entry entries ih =>
      obtain ⟨item, flag⟩ := entry
      cases entries with
      | nil => exact List.Pairwise.nil
      | cons entry' entries =>
          obtain ⟨next, flag'⟩ := entry'
          have hfurther := ih hpairs.tail fun entry hmem => hproper entry (List.mem_cons_of_mem _ hmem)
          simp only [leadingRemovals]
          split
          · refine List.Pairwise.cons (fun span hspan => ?_) hfurther
            -- A later removal starts with a later item.
            obtain ⟨n, other, -, -, hother, -, rfl⟩ := mem_leadingRemovals hspan
            rcases List.mem_cons.1 (List.mem_of_getElem? hother) with heq | hmem
            · rw [Prod.mk.injEq] at heq
              exact Nat.le_of_eq (congrArg Span.start heq.1).symm
            · have horder := List.rel_of_pairwise_cons hpairs.tail hmem
              have hnext := hproper (next, flag') (List.mem_cons_of_mem _ List.mem_cons_self)
              exact Nat.le_trans hnext horder
          · exact hfurther

/-- Removals from a list come in order. -/
theorem pairwise_removalsFromList {items : List Span} (hpairs : Chained items)
    (hproper : ∀ item ∈ items, item.start ≤ item.stop) (removed : List Bool) :
    Chained (removalsFromList items removed) := by
  have hleading (kept : Nat) : Chained (leadingRemovals ((items.zip removed).take (kept + 1))) := by
    have hsublist := List.take_sublist (kept + 1) (items.zip removed)
    refine pairwise_leadingRemovals (List.Pairwise.sublist hsublist ?_) fun entry hmem => ?_
    · rw [List.pairwise_iff_getElem]
      intro i j hi hj hij
      rw [List.length_zip] at hi hj
      rw [List.getElem_zip, List.getElem_zip]
      exact List.pairwise_iff_getElem.1 hpairs i j (Nat.lt_of_lt_of_le hi (Nat.min_le_left _ _))
        (Nat.lt_of_lt_of_le hj (Nat.min_le_left _ _)) hij
    · exact hproper entry.1 (List.of_mem_zip (hsublist.subset hmem)).1
  unfold removalsFromList
  split
  · split
    · exact List.pairwise_singleton _ _
    · next kept last _ _ =>
      simp only
      split
      · next item hitem =>
        split
        · refine List.pairwise_append.2 ⟨hleading kept, List.pairwise_singleton _ _,
            fun span hspan last' hlast' => ?_⟩
          rw [List.mem_singleton] at hlast'
          subst hlast'
          -- The item behind a removed one is not behind the last one kept.
          obtain ⟨n, -, next, flag, -, hnext, rfl⟩ := mem_leadingRemovals hspan
          rw [List.getElem?_take] at hnext
          split at hnext
          · next hlt =>
            have hget : items[n + 1]? = some next := (List.getElem?_zip_eq_some.1 hnext).1
            obtain ⟨hn, hnextEq⟩ := List.getElem?_eq_some_iff.1 hget
            obtain ⟨hkept, hitemEq⟩ := List.getElem?_eq_some_iff.1 hitem
            have hitemProper := hproper item (List.mem_of_getElem? hitem)
            have hnextProper := hproper next (List.mem_of_getElem? hget)
            change next.start ≤ item.stop
            rcases Nat.eq_or_lt_of_le (Nat.le_of_lt_succ hlt) with heq | hlt
            · subst heq
              rw [hitemEq] at hnextEq
              rw [← hnextEq]
              exact hitemProper
            · have horder := List.pairwise_iff_getElem.1 hpairs (n + 1) kept hn hkept hlt
              rw [hnextEq, hitemEq] at horder
              exact Nat.le_trans hnextProper (Nat.le_trans horder hitemProper)
          · exact absurd hnext (by simp only [reduceCtorEq, not_false_eq_true])
        · exact hleading kept
      · exact hleading kept
    · exact List.Pairwise.nil
  · exact List.Pairwise.nil

/-! ### Lines -/

/-- A line starts at the byte offset. -/
def Text.StartsLine (text : Text) (offset : Nat) : Prop :=
  ∃ before after, text = before ++ after ∧ AtLineStart before ∧ size before = offset

/-- The next line behind a place starts behind the first line feed there. -/
theorem Text.StartsLine.size_lt {before line after : Text} {offset : Nat}
    (h : StartsLine (before ++ line ++ after) offset) (hline : '\n' ∉ line)
    (hlt : size before < offset) : size (before ++ line) < offset := by
  obtain ⟨before', after', htext, hstart, rfl⟩ := h
  rw [List.append_assoc] at htext
  rcases List.append_eq_append_iff.1 htext with ⟨m, rfl, hrest⟩ | ⟨m, rfl, -⟩
  · -- What is between ends with a line feed, so it is longer than the line.
    obtain ⟨more, rfl⟩ : ∃ more, m = more ++ ['\n'] := by
      rcases List.eq_nil_or_concat m with rfl | ⟨more, c, rfl⟩
      · rw [List.append_nil] at hlt
        exact absurd hlt (Nat.lt_irrefl _)
      · rw [List.concat_eq_append] at hstart ⊢
        rcases hstart with hnil | ⟨more', heq⟩
        · exact absurd hnil (by simp only [List.append_eq_nil_iff, List.cons_ne_self, and_false,
            not_false_eq_true])
        · rw [← List.append_assoc, List.append_singleton_inj] at heq
          exact ⟨more, by rw [heq.2]⟩
    rcases List.append_eq_append_iff.1 hrest with ⟨k, hk, -⟩ | ⟨k, rfl, -⟩
    · rcases List.eq_nil_or_concat k with rfl | ⟨k', c, rfl⟩
      · rw [List.append_nil] at hk
        exact absurd (hk ▸ List.mem_append_right _ List.mem_cons_self) hline
      · rw [List.concat_eq_append, ← List.append_assoc, List.append_singleton_inj] at hk
        rw [hk.1]
        simp only [size_append, size_cons]
        have hc := Char.utf8Size_pos '\n'
        omega
    · exact absurd (List.mem_append_left _ (List.mem_append_right _ List.mem_cons_self)) hline
  · rw [size_append] at hlt
    omega

/-- A removal begins with the statement, or with a line. -/
theorem statementRemoval_start {document : Document} (hsound : document.Sound) {node : Place}
    (hnode : document.Has node) :
    (statementRemoval document node).start = node.start
      ∨ document.source.StartsLine (statementRemoval document node).start := by
  obtain ⟨before, lead, mid, line, after, h⟩ := hnode.exists_surrounds hsound
  rcases h.statementRemoval_cases hsound with ⟨-, -, heq⟩ | ⟨padding, rest, -, -, heq⟩
  · refine .inr (heq ▸ ⟨before, lead ++ mid ++ line ++ after, ?_, h.atLineStart, rfl⟩)
    rw [h.source]
    simp only [List.append_assoc]
  · rw [heq]
    exact .inl rfl

/-- A removal ends no later than where the next line starts. -/
theorem statementRemoval_stop_le {document : Document} (hsound : document.Sound) {node : Place}
    (hnode : document.Has node) {offset : Nat} (hline : document.source.StartsLine offset)
    (hlt : node.stop < offset) : (statementRemoval document node).stop ≤ offset := by
  obtain ⟨before, lead, mid, line, after, h⟩ := hnode.exists_surrounds hsound
  rw [h.source] at hline
  rw [← h.stop] at hlt
  have hnext := hline.size_lt h.line hlt
  rcases h.statementRemoval_cases hsound with ⟨-, -, heq⟩ | ⟨padding, rest, hrest, -, heq⟩
  all_goals rw [heq]
  · -- The removal takes one line feed at most, and the offset is behind that.
    have hbreak : size (after.take 1) ≤ 1 := by
      rcases h.breaksOff with rfl | ⟨more, rfl⟩
      · exact Nat.zero_le 1
      · exact Nat.le_refl 1
    rw [size_append _ (after.take 1)]
    change size (before ++ lead ++ mid ++ line) + size (after.take 1) ≤ offset
    omega
  · rw [size_append, h.stop, hrest, size_append] at hnext
    change node.stop + size padding ≤ offset
    omega

/-! ### Nodes -/

namespace Document

variable {document : Document} {p q node : Place}

/-- A piece stands where the node begins. -/
def Begins (document : Document) (node : Place) : Prop :=
  ∃ first, document.Piece first ∧ Below node first ∧ first.start = node.start

/-- A piece stands where the node ends. -/
def Ends (document : Document) (node : Place) : Prop :=
  ∃ last, document.Piece last ∧ Below node last ∧ last.stop = node.stop

theorem piece_of_isCode (hsound : document.Sound) (hp : document.Has p) (hcode : p.node.IsCode) :
    document.Piece p := by
  have hkind := hcode.kind
  simp only [Kind.mayOpen, Bool.and_eq_true, Bool.not_eq_true'] at hkind
  exact piece_of_token hsound hp hcode.text hkind.1.1 hkind.1.2

/-- A child that is code begins with a piece. -/
theorem Has.begins (hp : document.Has p) (hsound : document.Sound) (hwalled : document.Walled)
    {n : Nat} (hchild : p.child? n = some node) (hkind : node.kind.mayOpen = true) :
    document.Begins node := by
  obtain ⟨first, hbelow, hcode, hstart⟩ := hp.exists_opening hsound hwalled hchild hkind
  exact ⟨first, piece_of_isCode hsound ((hp.child hchild).below hbelow) hcode, hbelow, hstart⟩

/-- A statement or member ends with a piece. -/
theorem Has.ends (hnode : document.Has node) (hsound : document.Sound) (hwalled : document.Walled)
    (hkind : node.kind.isClosed = true) : document.Ends node := by
  obtain ⟨last, hbelow, hcode, hstop⟩ := hnode.exists_closing hsound hwalled hkind
  exact ⟨last, piece_of_isCode hsound (hnode.below hbelow) hcode, hbelow, hstop⟩

/-- A removal that meets no piece but those of its node ends before a piece
    behind the node. -/
theorem Piece.behind (h : document.Piece q) (hnode : document.Has node) (hsound : document.Sound)
    {removal : Span} (hmeets : q.span.Meets removal → Below node q)
    (hstart : removal.start ≤ node.start) (hproper : node.start < node.stop)
    (hle : node.stop ≤ q.start) : removal.stop ≤ q.start := by
  have hq := h.start_lt_stop
  refine Nat.le_of_not_lt fun hlt => ?_
  have hbelow := hmeets ⟨hlt, show removal.start < q.stop by omega⟩
  have hinside := hnode.inside hsound hbelow
  omega

/-- A removal that meets no piece but those of its node begins behind a piece
    before the node. -/
theorem Piece.before (h : document.Piece q) (hnode : document.Has node) (hsound : document.Sound)
    {removal : Span} (hmeets : q.span.Meets removal → Below node q)
    (hstop : node.stop ≤ removal.stop) (hproper : node.start < node.stop)
    (hle : q.stop ≤ node.start) : q.stop ≤ removal.start := by
  have hq := h.start_lt_stop
  refine Nat.le_of_not_lt fun hlt => ?_
  have hbelow := hmeets ⟨show q.start < removal.stop by omega, hlt⟩
  have hinside := hnode.inside hsound hbelow
  omega

/-- A piece that lies apart from a node is not above it. -/
theorem Piece.not_above (h : document.Piece q) (hsound : document.Sound)
    (hproper : node.start < node.stop) (hapart : node.stop ≤ q.start ∨ q.stop ≤ node.start) :
    ¬Below q node := by
  intro hbelow
  have hinside := h.has.inside hsound hbelow
  omega

/-- No line starts where a piece stops. -/
theorem Piece.stop_ne (h : document.Piece q) {offset : Nat}
    (hline : document.source.StartsLine offset) : q.stop ≠ offset := by
  rintro rfl
  obtain ⟨text, ⟨before, after, hsource, hbefore⟩, hsize, -, pre, c, rfl, hink⟩ := h.solid
  obtain ⟨before', after', hsource', hstart, hsize'⟩ := hline
  rw [hsource] at hsource'
  obtain ⟨hlines, -⟩ := append_inj_of_size hsource' (by
    rw [size_append, hbefore, hsize, hsize'])
  rcases hstart with rfl | ⟨more, rfl⟩
  · exact absurd hlines (by simp only [List.append_eq_nil_iff, List.cons_ne_self, and_false,
      not_false_eq_true])
  · rw [← List.append_assoc, List.append_singleton_inj] at hlines
    rw [hlines.2] at hink
    exact absurd hink (by decide)

/-- Removals of statements come in the order of the statements. -/
theorem statementRemoval_apart (hsound : document.Sound) {a b : Place} (ha : document.Has a)
    (hb : document.Has b) (haProper : a.start < a.stop) (hbProper : b.start < b.stop)
    (hends : document.Ends a) (hbegins : document.Begins b) (hle : a.stop ≤ b.start) :
    (statementRemoval document a).stop ≤ (statementRemoval document b).start := by
  obtain ⟨last, hlast, -, hlastStop⟩ := hends
  obtain ⟨first, hfirst, -, hfirstStart⟩ := hbegins
  obtain ⟨haBefore, -⟩ := statementRemoval_spec hsound ha
  obtain ⟨-, hbAfter⟩ := statementRemoval_spec hsound hb
  rcases statementRemoval_start hsound hb with hstart | hline
  · rw [hstart, ← hfirstStart]
    have hbehind : a.stop ≤ first.start := by omega
    exact hfirst.behind ha hsound
      (hfirst.of_statementRemoval hsound ha (hfirst.not_above hsound haProper (.inl hbehind)))
      haBefore.le haProper hbehind
  · -- The line of `b` starts behind `a`, whose removal does not cross it.
    have hbefore : last.stop ≤ b.start := by omega
    have hstop := hlast.before hb hsound
      (hlast.of_statementRemoval hsound hb (hlast.not_above hsound hbProper (.inr hbefore)))
      hbAfter.le hbProper hbefore
    refine statementRemoval_stop_le hsound ha hline ?_
    have hne := hlast.stop_ne hline
    omega

/-- The removal of a statement in a block stays between the braces. -/
theorem Has.statementRemoval_within (hp : document.Has p) (hsound : document.Sound)
    (hwalled : document.Walled) (hkind : p.kind = .block) {n : Nat} (hchild : p.child? n = some node)
    (hcomposite : node.kind.isComposite = true) :
    p.start ≤ (statementRemoval document node).start
      ∧ (statementRemoval document node).stop ≤ p.stop := by
  obtain ⟨opening, closing, k, hopening, hclosing, hopeningCode, hclosingCode, hstart, hstop⟩ :=
    hp.braces hsound hwalled hkind
  have hne {m : Nat} {brace : Place} (hbrace : p.child? m = some brace) (hcode : brace.node.IsCode) :
      n ≠ m := by
    rintro rfl
    rw [hchild, Option.some.injEq] at hbrace
    subst hbrace
    exact hcode.text ((hp.child hchild).lexeme_of_isComposite hsound hcomposite)
  have hspan := hp.child_span hsound hchild
  have hclosingSpan := hp.child_span hsound hclosing
  have hopeningSpan := hp.child_span hsound hopening
  have hbefore := hp.child_order hsound hopening hchild
    (Nat.pos_of_ne_zero (hne hopening hopeningCode))
  have hafter : node.stop ≤ closing.start := by
    rcases Nat.lt_or_gt_of_ne (hne hclosing hclosingCode) with hlt | hlt
    · exact hp.child_order hsound hchild hclosing hlt
    · have := hp.child_order hsound hclosing hchild hlt
      omega
  have hnode := hp.child hchild
  obtain ⟨hblankBefore, hblankAfter⟩ := statementRemoval_spec hsound hnode
  have hfirst := piece_of_isCode hsound (hp.child hopening) hopeningCode
  have hlast := piece_of_isCode hsound (hp.child hclosing) hclosingCode
  -- Neither brace is in the removal, since both are pieces of the block.
  have hle := hfirst.before hnode hsound
    (hfirst.of_statementRemoval hsound hnode (hfirst.not_above hsound hspan.2.1 (.inr hbefore)))
    hblankAfter.le hspan.2.1 hbefore
  have hle' := hlast.behind hnode hsound
    (hlast.of_statementRemoval hsound hnode (hlast.not_above hsound hspan.2.1 (.inl hafter)))
    hblankBefore.le hspan.2.1 hafter
  omega

end Document

/-- Removals from the children of one kind come in order. -/
theorem Document.Has.pairwise_removalsFromChildren {document : Document} {p : Place}
    (hp : document.Has p) (hsound : document.Sound) (kind : Kind) (removed : List Bool) :
    Chained (removalsFromList ((p.childrenOf kind).map Place.span) removed) := by
  obtain ⟨hproper, hpairs⟩ := hp.spans_childrenOf hsound kind
  exact pairwise_removalsFromList hpairs (fun item hitem => Nat.le_of_lt (hproper item hitem)) _

/-! ### Dead statements -/

/-- The dead statements of a constructor are its body alone, or come in order
    in a block. -/
theorem pairwise_deadStatements {document : Document} (hsound : document.Sound)
    {constructor : Place} (hconstructor : document.Has constructor) (field : Symbol) :
    (deadStatements constructor field).Pairwise fun a b =>
      a.isBody = false ∧ b.isBody = false ∧ a.statement.stop ≤ b.statement.start := by
  unfold deadStatements
  split
  · exact List.Pairwise.nil
  · next body hbody =>
    obtain ⟨⟨n, hn⟩, -⟩ := mem_namedChildren.1 (List.mem_of_find?_eq_some hbody)
    split
    · split
      · split
        · exact List.pairwise_singleton _ _
        · exact List.Pairwise.nil
      · exact List.Pairwise.nil
    · -- The statements of a block are children of it, so they come in order.
      rw [List.pairwise_filterMap]
      refine List.Pairwise.imp (fun {a b} hab dead hdead other hother => ?_)
        ((hconstructor.child hn).pairwise_childrenOf hsound .expressionStatement)
      split at hdead
      · split at hdead
        · split at hother
          · split at hother
            · rw [Option.some.injEq] at hdead hother
              rw [← hdead, ← hother]
              exact ⟨rfl, rfl, hab⟩
            · exact absurd hother (by simp only [reduceCtorEq, not_false_eq_true])
          · exact absurd hother (by simp only [reduceCtorEq, not_false_eq_true])
        · exact absurd hdead (by simp only [reduceCtorEq, not_false_eq_true])
      · exact absurd hdead (by simp only [reduceCtorEq, not_false_eq_true])

/-- The edit fits the source and lies in the span of the node. -/
structure Edit.Within (edit : Edit) (document : Document) (node : Place) : Prop where
  fits : edit.FitsIn document.source
  start : node.start ≤ edit.span.start
  stop : edit.span.stop ≤ node.stop

theorem Edit.Within.apart {a b : Edit} {document : Document} {p q : Place} (ha : a.Within document p)
    (hb : b.Within document q) (h : p.stop ≤ q.start ∨ q.stop ≤ p.start) : Edit.Apart a b :=
  h.imp (fun hle => Nat.le_trans ha.stop (Nat.le_trans hle hb.start))
    fun hle => Nat.le_trans hb.stop (Nat.le_trans hle ha.start)

theorem Edit.Within.widen {edit : Edit} {document : Document} {p q : Place}
    (h : edit.Within document p) (hp : document.Has q) (hsound : document.Sound) (hbelow : Below q p) :
    edit.Within document q :=
  have hinside := hp.inside hsound hbelow
  ⟨h.fits, Nat.le_trans hinside.1 h.start, Nat.le_trans h.stop hinside.2⟩

namespace RemovalPlan.Stands

variable {plan : RemovalPlan} {document : Document} {anchor : Span} {write : ConstructorWrites}

/-! ### Edits of one constructor -/

/-- The edit of a dead statement stays in the block, or reaches from an arrow to
    the end of the constructor. -/
theorem deadStatementEdit_within (h : plan.Stands document anchor) (hsound : document.Sound)
    (hwalled : document.Walled) (hwrite : write ∈ plan.writes) {dead : DeadStatement}
    (hdead : dead ∈ write.statements) :
    ∃ n body, write.constructor.child? n = some body
      ∧ (body.kind = .block
          ∧ (deadStatementEdit document write.constructor dead).Within document body
        ∨ body.kind = .arrowExpressionClause
          ∧ (deadStatementEdit document write.constructor dead).span.start = body.start
          ∧ (deadStatementEdit document write.constructor dead).Within document
            write.constructor) := by
  obtain ⟨hconstructor, -⟩ := h.hasConstructor hwrite
  obtain ⟨n, body, hn, hcases, -⟩ := Document.mem_deadStatements (dead_of_mem hwrite hdead)
  have hbodyHas := hconstructor.child hn
  refine ⟨n, body, hn, ?_⟩
  rcases hcases with ⟨hbody, harrow, heq⟩ | ⟨hbody, hblock, hstatement, m, hm⟩
  · -- From the arrow, the edit reaches to the end of the constructor.
    have hspan := hconstructor.child_span hsound hn
    rw [deadStatementEdit, if_pos hbody, heq]
    exact .inr ⟨harrow, rfl, ⟨Nat.le_trans (Nat.le_of_lt hspan.2.1) hspan.2.2,
      (hbodyHas.laidOut hsound).startCut, (hconstructor.laidOut hsound).stopCut⟩, hspan.1,
      Nat.le_refl _⟩
  · rw [deadStatementEdit, if_neg (by rw [hbody]; decide)]
    obtain ⟨hbefore, hafter⟩ := statementRemoval_spec hsound (hbodyHas.child hm)
    have hproper := hbodyHas.child_span hsound hm
    have hbeforeLe := hbefore.le
    have hafterLe := hafter.le
    obtain ⟨hstart, hstop⟩ := hbodyHas.statementRemoval_within hsound hwalled hblock hm
      (by rw [hstatement]; rfl)
    refine .inl ⟨hblock, ⟨?_, hbefore.startCut, hafter.stopCut⟩, hstart, hstop⟩
    simp only [Edit.remove]
    omega

/-- The edits of a parameter list stay in it. -/
theorem parameterEdit_within (h : plan.Stands document anchor) (hsound : document.Sound)
    (hwrite : write ∈ plan.writes) {list : Place}
    (hlist : write.constructor.ownParameterList? = some list) {removed : List Bool} {edit : Edit}
    (hedit : edit ∈ parameterEdits list removed) : edit.Within document list := by
  obtain ⟨-, -, hstart, hforward, hstop, hstartCut, hstopCut, -⟩ :=
    h.parameterEdit_spec hsound hwrite hlist hedit
  exact ⟨⟨hforward, hstartCut, hstopCut⟩, hstart, hstop⟩

/-- The edits of a constructor stay in it. -/
theorem within_constructor (h : plan.Stands document anchor) (hsound : document.Sound)
    (hwalled : document.Walled) (hwrite : write ∈ plan.writes) {edit : Edit}
    (hedit : edit ∈ constructorEdits document write) : edit.Within document write.constructor := by
  obtain ⟨hconstructor, -⟩ := h.hasConstructor hwrite
  rcases List.mem_append.1 hedit with hedit | hedit
  · -- A dead statement is in the body, a child; a sole expression body goes from the constructor.
    obtain ⟨dead, hdead, rfl⟩ := List.mem_map.1 hedit
    obtain ⟨n, body, hn, ⟨-, hwithin⟩ | ⟨-, -, hwithin⟩⟩ :=
      h.deadStatementEdit_within hsound hwalled hwrite hdead
    · exact hwithin.widen hconstructor hsound (.step .refl hn)
    · exact hwithin
  · split at hedit
    · next list hlist =>
      -- The parameter list is a child, too.
      obtain ⟨-, -, n, hn⟩ := h.hasList hsound hwrite hlist
      exact (h.parameterEdit_within hsound hwrite hlist hedit).widen hconstructor hsound
        (.step .refl hn)
    · exact absurd hedit List.not_mem_nil

/-- The edits of the dead statements lie apart from a child of the constructor
    that is no body and stands behind no arrow. -/
theorem deadStatementEdit_apart (h : plan.Stands document anchor) (hsound : document.Sound)
    (hwalled : document.Walled) (hwrite : write ∈ plan.writes) {dead : DeadStatement}
    (hdead : dead ∈ write.statements) {m : Nat} {child : Place}
    (hm : write.constructor.child? m = some child) (hblock : child.kind ≠ .block)
    (harrow : child.kind ≠ .arrowExpressionClause)
    (hexcluded : (.arrowExpressionClause, child.kind) ∈ Kind.constructorDeclaration.excluded) :
    (deadStatementEdit document write.constructor dead).span.stop ≤ child.start
      ∨ child.stop ≤ (deadStatementEdit document write.constructor dead).span.start := by
  obtain ⟨hconstructor, hconstructorKind⟩ := h.hasConstructor hwrite
  obtain ⟨n, body, hn, ⟨hkind, hwithin⟩ | ⟨hkind, hstart, -⟩⟩ :=
    h.deadStatementEdit_within hsound hwalled hwrite hdead
  all_goals
    have hne : n ≠ m := by
      rintro rfl
      rw [hn, Option.some.injEq] at hm
      rw [hm] at hkind
      first
        | exact hblock hkind
        | exact harrow hkind
  · -- The block is another child.
    have hwithinStart := hwithin.start
    have hwithinStop := hwithin.stop
    rcases Nat.lt_or_gt_of_ne hne with hlt | hlt
    · have horder := hconstructor.child_order hsound hn hm hlt
      exact .inl (by omega)
    · have horder := hconstructor.child_order hsound hm hn hlt
      exact .inr (by omega)
  · -- From the arrow on, there is no such child.
    have hnot := hconstructor.not_before hsound (by rwa [hkind, hconstructorKind]) hn hm
    have horder := hconstructor.child_order hsound hm hn (by omega)
    exact .inr (by omega)

/-- The edits of a parameter list lie apart from those of the dead statements. -/
theorem parameterEdit_apart (h : plan.Stands document anchor) (hsound : document.Sound)
    (hwalled : document.Walled) (hwrite : write ∈ plan.writes) {dead : DeadStatement}
    (hdead : dead ∈ write.statements) {list : Place}
    (hlist : write.constructor.ownParameterList? = some list) {removed : List Bool} {edit : Edit}
    (hedit : edit ∈ parameterEdits list removed) :
    Edit.Apart (deadStatementEdit document write.constructor dead) edit := by
  obtain ⟨-, hkind, m, hm⟩ := h.hasList hsound hwrite hlist
  have hwithin := h.parameterEdit_within hsound hwrite hlist hedit
  have hstart := hwithin.start
  have hstop := hwithin.stop
  -- The list is no body, so the statements' edits lie on one side of all of it.
  rcases h.deadStatementEdit_apart hsound hwalled hwrite hdead hm (by rw [hkind]; decide)
    (by rw [hkind]; decide) (by rw [hkind]; decide) with hle | hle
  · exact .inl (by omega)
  · exact .inr (by omega)

/-- The edits of a parameter list come in order. -/
theorem pairwise_parameterEdits (h : plan.Stands document anchor) (hsound : document.Sound)
    (hwrite : write ∈ plan.writes) {list : Place}
    (hlist : write.constructor.ownParameterList? = some list) (removed : List Bool) :
    (parameterEdits list removed).Pairwise Edit.Apart := by
  obtain ⟨hhas, -, -⟩ := h.hasList hsound hwrite hlist
  rw [parameterEdits]
  split
  · exact List.pairwise_singleton _ _
  · exact List.pairwise_map.2
      ((hhas.pairwise_removalsFromChildren hsound .parameter removed).imp .inl)

/-- The edits of a constructor lie apart. -/
theorem pairwise_constructorEdits (h : plan.Stands document anchor) (hsound : document.Sound)
    (hwalled : document.Walled) (hwrite : write ∈ plan.writes) :
    (constructorEdits document write).Pairwise Edit.Apart := by
  obtain ⟨hconstructor, -⟩ := h.hasConstructor hwrite
  refine List.pairwise_append.2 ⟨List.pairwise_map.2 ?_, ?_, fun edit hedit other hother => ?_⟩
  · have hpairs := pairwise_deadStatements hsound hconstructor plan.symbol
    rw [← (mem_writes hwrite).2.1] at hpairs
    refine hpairs.imp_of_mem fun {a b} ha hb hab => .inl ?_
    obtain ⟨haBody, hbBody, hle⟩ := hab
    rw [deadStatementEdit, if_neg (by rw [haBody]; decide), deadStatementEdit,
      if_neg (by rw [hbBody]; decide)]
    -- Both are statements of a block, which begin and end with pieces.
    have hnode {dead : DeadStatement} (hdead : dead ∈ write.statements)
        (hbody : dead.isBody = false) :
        document.Has dead.statement ∧ dead.statement.start < dead.statement.stop
          ∧ document.Begins dead.statement ∧ document.Ends dead.statement := by
      obtain ⟨n, body, m, hn, -, -, hm, hkind⟩ :=
        Document.block_of_dead (dead_of_mem hwrite hdead) hbody
      have hbodyHas := hconstructor.child hn
      exact ⟨hbodyHas.child hm, (hbodyHas.child_span hsound hm).2.1,
        hbodyHas.begins hsound hwalled hm (by rw [hkind]; rfl),
        (hbodyHas.child hm).ends hsound hwalled (by rw [hkind]; rfl)⟩
    obtain ⟨haHas, haProper, -, haEnds⟩ := hnode ha haBody
    obtain ⟨hbHas, hbProper, hbBegins, -⟩ := hnode hb hbBody
    exact Document.statementRemoval_apart hsound haHas hbHas haProper hbProper haEnds hbBegins hle
  · split
    · next list hlist => exact h.pairwise_parameterEdits hsound hwrite hlist _
    · exact List.Pairwise.nil
  · obtain ⟨dead, hdead, rfl⟩ := List.mem_map.1 hedit
    split at hother
    · next list hlist => exact h.parameterEdit_apart hsound hwalled hwrite hdead hlist hother
    · exact absurd hother List.not_mem_nil

/-! ### The edits of the field -/

/-- A constructor lies apart from the field. -/
theorem constructor_apart (h : plan.Stands document anchor) (hsound : document.Sound)
    {constructor : Place} (hconstructor : document.Has constructor)
    (hkind : constructor.kind = .constructorDeclaration) :
    constructor.stop ≤ plan.field.start ∨ plan.field.stop ≤ constructor.start := by
  obtain ⟨hfield, hfieldKind, -⟩ := h.hasField
  have hnot {p : Place} (hfieldAbove : Below plan.field p) (habove : Below constructor p) :
      False :=
    hconstructor.not_in_both hfield hsound hkind hfieldKind habove hfieldAbove
  rcases hconstructor.nested hfield hsound with hbelow | hbelow | hapart | hapart
  · exact (hnot .refl hbelow).elim
  · exact (hnot hbelow .refl).elim
  · exact .inl hapart
  · exact .inr hapart

/-- The edits of the field fit the source. -/
theorem declaratorEdit_fitsIn (h : plan.Stands document anchor) (hsound : document.Sound)
    {edit : Edit}
    (hedit : edit ∈ declaratorEdits document plan.field plan.declaration plan.declarator) :
    edit.FitsIn document.source := by
  by_cases hmany : 1 < (plan.declaration.childrenOf .variableDeclarator).length
  · obtain ⟨-, -, -, hforward, -, hstartCut, hstopCut, -⟩ :=
      h.declaratorEdit_spec hsound hmany hedit
    exact ⟨hforward, hstartCut, hstopCut⟩
  · rw [Document.declaratorEdits_of_sole hmany, List.mem_singleton] at hedit
    subst hedit
    obtain ⟨parent, n, hparent, hn⟩ := h.exists_parent
    obtain ⟨hstart, hstop, hstartCut, hstopCut⟩ := memberRemoval_spec hsound hparent hn
    have hproper := (hparent.child_span hsound hn).2.1
    exact ⟨by simp only [Edit.remove]; omega, hstartCut, hstopCut⟩

/-- The edits of the field lie apart from all constructors. -/
theorem declaratorEdit_apart (h : plan.Stands document anchor) (hsound : document.Sound)
    (hwalled : document.Walled) {edit : Edit}
    (hedit : edit ∈ declaratorEdits document plan.field plan.declaration plan.declarator)
    {type constructor : Place} (htype : document.Has type)
    (hconstructor : constructor ∈ type.constructors) :
    edit.span.stop ≤ constructor.start ∨ constructor.stop ≤ edit.span.start := by
  obtain ⟨hhas, hkind, -, j, body, hj, -, i, hi⟩ := htype.constructor hconstructor
  obtain ⟨hfield, hfieldKind, k, hk⟩ := h.hasField
  by_cases hmany : 1 < (plan.declaration.childrenOf .variableDeclarator).length
  · obtain ⟨-, -, hstart, -, hstop, -⟩ := h.declaratorEdit_spec hsound hmany hedit
    have hinside := hfield.inside hsound (.step .refl hk)
    rcases h.constructor_apart hsound hhas hkind with hle | hle
    · exact .inr (by omega)
    · exact .inl (by omega)
  · rw [Document.declaratorEdits_of_sole hmany, List.mem_singleton] at hedit
    subst hedit
    obtain ⟨parent, n, hparent, hn⟩ := h.exists_parent
    obtain ⟨hstart, hstop, -, -⟩ := memberRemoval_spec hsound hparent hn
    have hproper := (hparent.child_span hsound hn).2.1
    simp only [Edit.remove]
    -- No piece but those of the field meets its removal.
    have hmeets {q : Place} (hq : document.Piece q)
        (hmeets : q.span.Meets (memberRemoval document plan.field)) : Below plan.field q :=
      hq.of_memberRemoval hsound hparent
        (fun hbelow => hq.not_above_member (by rw [hfieldKind]; rfl) (.step hbelow hn)) hn
        (by rw [hfieldKind]; rfl) hmeets
    obtain ⟨last, hlast, -, hlastStop⟩ := hhas.ends hsound hwalled (by rw [hkind]; rfl)
    obtain ⟨first, hfirst, -, hfirstStart⟩ :=
      (htype.child hj).begins hsound hwalled hi (by rw [hkind]; rfl)
    rcases h.constructor_apart hsound hhas hkind with hle | hle
    · have := hlast.before hfield hsound (hmeets hlast) hstop hproper (by omega)
      exact .inr (by omega)
    · have := hfirst.behind hfield hsound (hmeets hfirst) hstart hproper (by omega)
      exact .inl (by omega)

/-- The edits of the field come in order. -/
theorem pairwise_declaratorEdits (h : plan.Stands document anchor) (hsound : document.Sound) :
    (declaratorEdits document plan.field plan.declaration plan.declarator).Pairwise
      Edit.Apart := by
  by_cases hmany : 1 < (plan.declaration.childrenOf .variableDeclarator).length
  · rw [Document.declaratorEdits_of_many hmany]
    exact List.pairwise_map.2 ((h.hasDeclaration.1.pairwise_removalsFromChildren hsound
      .variableDeclarator _).imp .inl)
  · rw [Document.declaratorEdits_of_sole hmany]
    exact List.pairwise_singleton _ _

/-! ### All edits -/

/-- The constructors with dead statements come in order. -/
theorem pairwise_writes (h : plan.Stands document anchor) (hsound : document.Sound) :
    plan.writes.Pairwise fun a b => a.constructor.stop ≤ b.constructor.start := by
  -- Members of one body come in order, and a choice from them keeps it.
  have hconstructors : plan.type.constructors.Pairwise fun a b => a.stop ≤ b.start := by
    rw [constructors, members]
    split
    · next body hbody =>
      obtain ⟨⟨n, hn⟩, -⟩ := child?_of_firstOf? hbody
      exact (((h.hasType.1.child hn).pairwise_children hsound).sublist
        (List.filter_sublist.trans List.filter_sublist))
    · exact List.Pairwise.nil
  refine List.pairwise_filterMap.2 (hconstructors.imp fun {a b} hab write hwrite other hother => ?_)
  split at hwrite
  · exact absurd hwrite (by simp only [reduceCtorEq, not_false_eq_true])
  · split at hother
    · exact absurd hother (by simp only [reduceCtorEq, not_false_eq_true])
    · rw [Option.some.injEq] at hwrite hother
      rw [← hwrite, ← hother]
      exact hab

/-- The edits of a removal lie apart. -/
theorem pairwise_edits (h : plan.Stands document anchor) (hsound : document.Sound)
    (hwalled : document.Walled) : (plan.edits document).Pairwise Edit.Apart := by
  refine List.pairwise_append.2 ⟨List.pairwise_flatMap.2 ⟨fun write hwrite =>
    h.pairwise_constructorEdits hsound hwalled hwrite, ?_⟩, h.pairwise_declaratorEdits hsound,
    fun edit hedit other hother => ?_⟩
  · refine (h.pairwise_writes hsound).imp_of_mem fun {a b} ha hb hab edit hedit other hother => ?_
    exact (h.within_constructor hsound hwalled ha hedit).apart
      (h.within_constructor hsound hwalled hb hother) (.inl hab)
  · obtain ⟨write, hwrite, hedit⟩ := List.mem_flatMap.1 hedit
    have hwithin := h.within_constructor hsound hwalled hwrite hedit
    have hstart := hwithin.start
    have hstop := hwithin.stop
    rcases h.declaratorEdit_apart hsound hwalled hother h.hasType.1 (mem_writes hwrite).1 with
      hle | hle
    · exact .inr (by omega)
    · exact .inl (by omega)

/-- The edits of a removal fit the source. -/
theorem fitsIn (h : plan.Stands document anchor) (hsound : document.Sound)
    (hwalled : document.Walled) {edit : Edit} (hedit : edit ∈ plan.edits document) :
    edit.FitsIn document.source := by
  rcases List.mem_append.1 hedit with hedit | hedit
  · obtain ⟨write, hwrite, hedit⟩ := List.mem_flatMap.1 hedit
    exact (h.within_constructor hsound hwalled hwrite hedit).fits
  · exact h.declaratorEdit_fitsIn hsound hedit

end RemovalPlan.Stands

end SharpLint

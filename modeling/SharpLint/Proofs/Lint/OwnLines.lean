import SharpLint.Proofs.Lint.AttachedComments

/-!
# Statements on Their Lines

What the removal of a statement or a member reads and takes. Two stretches are
read: from the start of the first line to the node, and from the node to the
end of the last line. The second one ends before the carriage return of a line
break, so it would go backwards if the node ended between the carriage return
and the line feed; a node that does not end with a line terminator does not.

If both stretches are blank the lines go as a whole, with their last break.
Otherwise the node goes with the spaces and tabs behind it, all of them, since
a line break is neither.

## Main definitions

* `Document.lineStop`: the end of the line on which a node ends.
* `Document.linesOver`: the lines of a node, with their last line break.
* `Document.OnLines`: what is read of a node and its lines.

## Theorems

* `Document.Surrounds.slice?_line`: The stretch behind a node is its line but for a
  carriage return.
* `statementRemoval_eq`: Which span is removed, told by the text around.
* `statementRemoval_takes_only_blanks`: What the removal reads and takes.
-/

namespace SharpLint

open Text Place

namespace Text

/-- What a text begins with ends where a character does not fit. -/
theorem takeWhile_append_of_stop {p : Char → Bool} (text : Text) {behind : Text}
    (h : ∀ c more, behind = c :: more → p c = false) :
    (text ++ behind).takeWhile p = text.takeWhile p := by
  induction text with
  | nil =>
      cases behind with
      | nil => rfl
      | cons c more =>
          rw [List.nil_append, List.takeWhile_cons_of_neg (by rw [h c more rfl]; exact Bool.false_ne_true),
            List.takeWhile_nil]
  | cons c text ih => rw [List.cons_append, List.takeWhile_cons, List.takeWhile_cons, ih]

end Text

namespace Document

variable {document : Document} {node : Place} {before lead mid line after : Text}

/-- Where the last line of a node ends, its terminator left out. -/
def lineStop (document : Document) (node : Place) : Nat :=
  (document.source.lineRange document.lines (document.lines.line node.stop)).stop

/-- The lines of a node with their breaks: from the start of the line of its
    first byte to the start of the one behind the line of its last. -/
def linesOver (document : Document) (node : Place) : Span :=
  ⟨document.lineStart node.start, document.lines.start (document.lines.line (node.stop - 1) + 1)⟩

theorem Surrounds.slice_mid (h : document.Surrounds node before lead mid line after) :
    document.source.slice? node.span = some mid := by
  refine slice?_eq_some_iff.2 ⟨before ++ lead, line ++ after, ?_, h.start, ?_⟩
  · rw [h.source, List.append_assoc _ line]
  · change node.start + size mid = node.stop
    rw [← h.start, ← h.stop, size_append _ mid]

/-- The stretch behind a node that does not end with a carriage return is the
    rest of its last line, but for a carriage return at the end of that. -/
theorem Surrounds.slice?_line (h : document.Surrounds node before lead mid line after)
    (hsound : document.Sound) {inner : Text} {last : Char} (hmid : mid = inner ++ [last])
    (hlast : last ≠ '\r') :
    ∃ rest tail, document.source.slice? ⟨node.stop, document.lineStop node⟩ = some rest
      ∧ line = rest ++ tail ∧ (tail = [] ∨ tail = ['\r']) := by
  obtain ⟨before', lead', hupto, hlead', hbefore'⟩ := exists_lastLine (before ++ lead ++ mid)
  obtain ⟨stop, hrange, hstop⟩ := lineRange_cut hlead' h.line hbefore' h.breaksOff
  rw [← hupto, ← h.source, ← hsound.lines, ← h.lastLine hsound] at hrange
  have hslice {rest tail : Text} (hline : line = rest ++ tail)
      (hsize : stop = size (before' ++ lead' ++ rest)) :
      document.source.slice? ⟨node.stop, document.lineStop node⟩ = some rest := by
    refine slice?_eq_some_iff.2 ⟨before ++ lead ++ mid, tail ++ after, ?_, h.stop, ?_⟩
    · rw [h.source, hline]
      simp only [List.append_assoc]
    · rw [lineStop, hrange, hsize, ← hupto, size_append _ rest, h.stop]
  rcases hstop with hsize | ⟨more, hmore, hsize⟩
  · exact ⟨line, [], hslice (List.append_nil line).symm hsize, (List.append_nil line).symm, .inl rfl⟩
  · -- The carriage return stands behind the node, for the node does not end with one.
    rcases List.eq_nil_or_concat line with rfl | ⟨rest, c, rfl⟩
    · rw [List.append_nil] at hmore
      rw [hmid, hmore, ← List.append_assoc, ← List.append_assoc,
        List.append_singleton_inj] at hupto
      exact absurd hupto.2 hlast
    · rw [List.concat_eq_append] at hmore hslice ⊢
      rw [← List.append_assoc, List.append_singleton_inj] at hmore
      obtain ⟨rfl, rfl⟩ := hmore
      exact ⟨rest, ['\r'], hslice rfl (by rw [hsize, List.append_assoc]), rfl, .inr rfl⟩

/-- A node ends on the line of its last character, if that is no line feed. -/
theorem Surrounds.line_last (h : document.Surrounds node before lead mid line after)
    (hsound : document.Sound) {inner : Text} {last : Char} (hmid : mid = inner ++ [last])
    (hlast : last ≠ '\n') :
    document.lines.line (node.stop - 1) = document.lines.line node.stop := by
  have hpos := Char.utf8Size_pos last
  -- The last character is no feed, so as many feeds stand before it as behind it.
  have hcount : (before ++ lead ++ (inner ++ [last])).count '\n'
      = (before ++ lead ++ inner).count '\n' := by
    rw [← List.append_assoc, List.count_append, Nat.add_eq_left, List.count_eq_zero,
      List.mem_singleton]
    exact Ne.symm hlast
  have hsize : node.stop = size (before ++ lead ++ inner) + last.utf8Size := by
    rw [← h.stop, hmid, ← List.append_assoc, size_append _ [last], size_cons, size_nil,
      Nat.add_zero]
  have hsource : document.source = before ++ lead ++ inner ++ last :: (line ++ after) := by
    rw [h.source, hmid]
    simp only [List.append_assoc, List.cons_append, List.nil_append]
  rw [h.lastLine hsound, hsound.lines, hsource, LineTable.line_behind (by omega), hmid, hcount]
  intro c rest hrest
  obtain ⟨rfl, -⟩ := List.cons.inj hrest
  omega

/-- Both stretches beside a node on its lines can be read, and its lines begin
    and end where the text around it says. -/
structure OnLines (document : Document) (node : Place)
    (before lead mid line after : Text) : Prop where
  surrounds : document.Surrounds node before lead mid line after
  lead_reads : document.source.slice? ⟨document.lineStart node.start, node.start⟩ = some lead
  rest_reads : ∃ rest, document.source.slice? ⟨node.stop, document.lineStop node⟩ = some rest
  lines_eq : document.linesOver node
    = ⟨size before, size (before ++ lead ++ mid ++ line ++ after.take 1)⟩

/-- A node that does not end with a line terminator is read on its lines. -/
theorem Surrounds.onLines (h : document.Surrounds node before lead mid line after)
    (hsound : document.Sound) {inner : Text} {last : Char} (hmid : mid = inner ++ [last])
    (hends : last ≠ '\n' ∧ last ≠ '\r') : document.OnLines node before lead mid line after := by
  obtain ⟨rest, tail, hrest, -, -⟩ := h.slice?_line hsound hmid hends.2
  refine ⟨h, ?_, ⟨rest, hrest⟩, ?_⟩
  · rw [Document.lineStart, h.lineStart hsound]
    exact h.slice_lead
  · rw [linesOver, h.line_last hsound hmid hends.1, h.start_nextLine hsound,
      Document.lineStart, h.lineStart hsound]

end Document

/-- The removal of a statement, told by the text around it: all of its lines
    with the last break if they hold nothing else, and otherwise the statement
    with the padding behind it. -/
theorem statementRemoval_eq {document : Document} {node : Place} {before lead mid line after : Text}
    (h : document.Surrounds node before lead mid line after) (hsound : document.Sound)
    {inner : Text} {last : Char} (hmid : mid = inner ++ [last]) (hlast : last ≠ '\r') :
    statementRemoval document node = if lead.isBlank && line.isBlank
      then ⟨size before, size (before ++ lead ++ mid ++ line ++ after.take 1)⟩
      else ⟨node.start, node.stop + size ((line ++ after).takeWhile isPadding)⟩ := by
  obtain ⟨rest, tail, hrest, hline, htail⟩ := h.slice?_line hsound hmid hlast
  have hblank : rest.isBlank = line.isBlank := by
    rw [hline, isBlank, isBlank, List.all_append]
    rcases htail with rfl | rfl
    · rw [List.all_nil, Bool.and_true]
    · rw [show (['\r'] : Text).all isBlankChar = true by decide, Bool.and_true]
  have hpadding : (line ++ after).takeWhile isPadding = rest.takeWhile isPadding := by
    rw [hline, List.append_assoc]
    refine takeWhile_append_of_stop rest fun c more hc => ?_
    -- Behind the stretch that is read the line breaks off.
    rcases htail with rfl | rfl
    · rcases h.breaksOff with rfl | ⟨more', rfl⟩
      · exact absurd hc (List.cons_ne_nil c more).symm
      · rw [← (List.cons.inj hc).1]
        decide
    · rw [← (List.cons.inj hc).1]
      decide
  rw [Document.lineStop] at hrest
  rw [statementRemoval]
  simp only [h.lineStart hsound, slice_eq_of_slice? h.slice_lead, slice_eq_of_slice? hrest, hblank,
    h.start_nextLine hsound, hpadding]

/-- What the removal of a node reads and takes, if the node does not end with a
    line terminator. The two stretches beside the node that are read both exist.
    The node is taken with nothing but blanks around it: with its lines, if they
    hold nothing else but blanks, and otherwise with the spaces and tabs behind
    it. -/
theorem statementRemoval_takes_only_blanks (source : Text) {node : Place} {last : Char}
    (hnode : node ∈ (Document.parse source).root.descendants)
    (hlast : ((Document.parse source).textOf node).getLast? = some last)
    (hends : last ≠ '\n' ∧ last ≠ '\r') :
    source.BlankAt (statementRemoval (.parse source) node).start node.start
      ∧ source.BlankAt node.stop (statementRemoval (.parse source) node).stop
      ∧ ∃ before lead mid line after,
        (Document.parse source).OnLines node before lead mid line after
        ∧ statementRemoval (.parse source) node = if lead.isBlank && line.isBlank
          then (Document.parse source).linesOver node
          else ⟨node.start, node.stop + size ((line ++ after).takeWhile isPadding)⟩ := by
  have hsound := Document.parse_sound source
  have hhas : (Document.parse source).Has node := mem_descendants.1 hnode
  obtain ⟨before, lead, mid, line, after, h⟩ := hhas.exists_surrounds hsound
  obtain ⟨inner, hmid⟩ : ∃ inner, mid = inner ++ [last] := by
    rw [Document.textOf, slice_eq_of_slice? h.slice_mid] at hlast
    exact List.getLast?_eq_some_iff.1 hlast
  obtain ⟨hbefore, hbehind⟩ := statementRemoval_spec hsound hhas
  have hlines := h.onLines hsound hmid hends
  refine ⟨hbefore, hbehind, before, lead, mid, line, after, hlines, ?_⟩
  rw [hlines.lines_eq]
  exact statementRemoval_eq h hsound hmid hends.2

/-- A statement with an ideographic space behind it on its line, and one with
    another statement behind it. -/
def sharedSource : Text :=
  "class C \x7b C() \x7b\r\n  F();\u3000\r\n  G(); \tH();\r\n\x7d \x7d".toList

set_option maxRecDepth 100000 in
theorem statementRemoval_takes_only_blanks_beside :
    (∃ node ∈ (Document.parse sharedSource).root.descendants,
      node.span = ⟨19, 23⟩ ∧ ((Document.parse sharedSource).textOf node).getLast? = some ';'
      ∧ sharedSource.BlankAt (statementRemoval (.parse sharedSource) node).start node.start
      ∧ sharedSource.BlankAt node.stop (statementRemoval (.parse sharedSource) node).stop)
    ∧ ∃ node ∈ (Document.parse sharedSource).root.descendants,
      node.span = ⟨30, 34⟩ ∧ ((Document.parse sharedSource).textOf node).getLast? = some ';'
      ∧ sharedSource.BlankAt (statementRemoval (.parse sharedSource) node).start node.start
      ∧ sharedSource.BlankAt node.stop (statementRemoval (.parse sharedSource) node).stop := by
  have hends : [(⟨19, 23⟩ : Span), ⟨30, 34⟩].all (fun span =>
      ((Document.parse sharedSource).root.at? span .expressionStatement).any fun node =>
        ((Document.parse sharedSource).textOf node).getLast? == some ';') = true := by
    decide +kernel
  have hblank (span : Span) (hspan : span ∈ [(⟨19, 23⟩ : Span), ⟨30, 34⟩]) :
      ∃ node ∈ (Document.parse sharedSource).root.descendants,
        node.span = span ∧ ((Document.parse sharedSource).textOf node).getLast? = some ';'
        ∧ sharedSource.BlankAt (statementRemoval (.parse sharedSource) node).start node.start
        ∧ sharedSource.BlankAt node.stop (statementRemoval (.parse sharedSource) node).stop := by
    obtain ⟨node, hnode, hlast⟩ := (Option.any_eq_true _ _).1 (List.all_eq_true.1 hends span hspan)
    obtain ⟨hbelow, -, hnodeSpan⟩ := below_of_at? hnode
    rw [beq_iff_eq] at hlast
    obtain ⟨hbefore, hbehind, -⟩ := statementRemoval_takes_only_blanks sharedSource
      (mem_descendants.2 hbelow) hlast (by decide)
    exact ⟨node, mem_descendants.2 hbelow, hnodeSpan, hlast, hbefore, hbehind⟩
  exact ⟨hblank _ List.mem_cons_self, hblank _ (List.mem_cons_of_mem _ List.mem_cons_self)⟩

end SharpLint

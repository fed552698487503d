import SharpLint.Proofs.Text.Cut

/-!
# Line Breaks

Lines of a text, told by what stands before and behind a cut. The line of a
cut is the number of line feeds before it; it starts behind the last of them
and ends at the first one behind the cut.

## Main definitions

* `Text.AtLineStart`: what stands before the start of a line.
* `Text.BreaksOff`: what stands behind the end of a line.
* `Text.upTo`: what ends at or before an offset.

## Theorems

* `LineTable.line_of_sides`: the line that is told by the starts before it.
* `LineTable.line_cut`: the line of a cut.
* `LineTable.line_eq`: the line of any offset.
* `LineTable.start_cut`, `LineTable.start_next`: where the lines start.
* `LineTable.stop_cut`: where the line ends.
* `Text.lineRange_cut`: the line without its terminator.
* `Text.slice_lineRange_cut`: what stands between a cut and the end of its line.
* `Text.beforeOnLine?_cut`: what stands before a cut on its line.
* `Text.exists_beforeOnLine?`: what stands before two cuts on their lines.
-/

namespace SharpLint

namespace Text

/-- The text is empty or ends with a line feed. -/
def AtLineStart (before : Text) : Prop :=
  before = [] ∨ ∃ more, before = more ++ ['\n']

/-- The text is empty or begins with a line feed. -/
def BreaksOff (after : Text) : Prop :=
  after = [] ∨ ∃ more, after = '\n' :: more

/-- Every text ends with a stretch without line feeds. -/
theorem exists_lastLine (text : Text) :
    ∃ before line, text = before ++ line ∧ '\n' ∉ line ∧ AtLineStart before := by
  induction text with
  | nil => exact ⟨[], [], rfl, List.not_mem_nil, .inl rfl⟩
  | cons c cs ih =>
      obtain ⟨before, line, rfl, hline, hbefore⟩ := ih
      rcases hbefore with rfl | ⟨more, rfl⟩
      · by_cases hc : c = '\n'
        · subst hc
          exact ⟨['\n'], line, rfl, hline, .inr ⟨[], rfl⟩⟩
        · refine ⟨[], c :: line, rfl, ?_, .inl rfl⟩
          rw [List.mem_cons, not_or]
          exact ⟨Ne.symm hc, hline⟩
      · exact ⟨c :: (more ++ ['\n']), line, rfl, hline, .inr ⟨c :: more, rfl⟩⟩

/-- Every text begins with a stretch without line feeds. -/
theorem exists_firstLine (text : Text) :
    ∃ line after, text = line ++ after ∧ '\n' ∉ line ∧ BreaksOff after := by
  induction text with
  | nil => exact ⟨[], [], rfl, List.not_mem_nil, .inl rfl⟩
  | cons c cs ih =>
      by_cases hc : c = '\n'
      · subst hc
        exact ⟨[], '\n' :: cs, rfl, List.not_mem_nil, .inr ⟨cs, rfl⟩⟩
      · obtain ⟨line, after, rfl, hline, hafter⟩ := ih
        refine ⟨c :: line, after, rfl, ?_, hafter⟩
        rw [List.mem_cons, not_or]
        exact ⟨Ne.symm hc, hline⟩

theorem lineBreaks_append (offset : Nat) (a b : Text) :
    lineBreaks offset (a ++ b) = lineBreaks offset a ++ lineBreaks (offset + size a) b := by
  induction a generalizing offset with
  | nil => rfl
  | cons c cs ih =>
      simp only [List.cons_append, lineBreaks, size_cons, ih, ← Nat.add_assoc]
      split <;> rfl

theorem length_lineBreaks (offset : Nat) (a : Text) :
    (lineBreaks offset a).length = a.count '\n' := by
  induction a generalizing offset with
  | nil => rfl
  | cons c cs ih =>
      simp only [lineBreaks, List.count_cons]
      split
      · next hc => rw [List.length_cons, ih, hc, beq_self_eq_true, if_pos rfl]
      · next hc => rw [ih, beq_eq_false_iff_ne.2 hc, if_neg Bool.false_ne_true, Nat.add_zero]

theorem mem_lineBreaks {offset n : Nat} {a : Text} (h : n ∈ lineBreaks offset a) :
    offset < n ∧ n ≤ offset + size a := by
  induction a generalizing offset with
  | nil => exact absurd h List.not_mem_nil
  | cons c cs ih =>
      have hc := Char.utf8Size_pos c
      simp only [lineBreaks] at h
      simp only [size_cons]
      split at h
      · rcases List.mem_cons.1 h with rfl | h
        · omega
        · have := ih h
          omega
      · have := ih h
        omega

/-- No line starts in the first character behind the offset. -/
theorem lt_of_mem_lineBreaks {start offset n : Nat} {text : Text}
    (hnext : ∀ c rest, text = c :: rest → offset < start + c.utf8Size)
    (hn : n ∈ lineBreaks start text) : offset < n := by
  cases text with
  | nil => exact absurd hn List.not_mem_nil
  | cons c rest =>
      have hc := hnext c rest rfl
      rw [lineBreaks] at hn
      split at hn
      · rcases List.mem_cons.1 hn with rfl | hn
        · exact hc
        · exact Nat.lt_trans hc (mem_lineBreaks hn).1
      · exact Nat.lt_trans hc (mem_lineBreaks hn).1

/-- The characters of the text that end at or before the offset. -/
def upTo : Text → Nat → Text
  | [], _ => []
  | c :: text, offset => if c.utf8Size ≤ offset then c :: upTo text (offset - c.utf8Size) else []

/-- The first character that does not end at or before the offset ends behind it. -/
theorem exists_upTo (text : Text) (offset : Nat) :
    ∃ after, text = text.upTo offset ++ after ∧ size (text.upTo offset) ≤ offset
      ∧ ∀ c rest, after = c :: rest → offset < size (text.upTo offset) + c.utf8Size := by
  induction text generalizing offset with
  | nil =>
      exact ⟨[], rfl, Nat.zero_le _, fun c rest hnil => absurd hnil.symm (List.cons_ne_nil c rest)⟩
  | cons c text ih =>
      rw [upTo]
      split
      -- A character that ends by the offset is taken, and the offset moves back by its size.
      · next hc =>
        obtain ⟨after, htext, hle, hnext⟩ := ih (offset - c.utf8Size)
        refine ⟨after, congrArg (c :: ·) htext, by rw [size_cons]; omega, fun d rest hrest => ?_⟩
        have hd := hnext d rest hrest
        rw [size_cons]
        omega
      · next hc =>
        refine ⟨c :: text, rfl, Nat.zero_le _, fun d rest hrest => ?_⟩
        rw [← (List.cons.inj hrest).1, size_nil]
        omega

end Text

namespace LineTable

open Text

/-- The starts of the lines of a text in two parts. -/
theorem starts_append (a b : Text) :
    (ofText (a ++ b)).starts = (0 :: lineBreaks 0 a) ++ lineBreaks (Text.size a) b := by
  simp only [ofText, lineBreaks_append, Nat.zero_add, List.cons_append]

/-- The line of an offset is told by the starts that are not behind it. -/
theorem line_of_sides {table : LineTable} {before behind : List Nat} {offset : Nat}
    (hstarts : table.starts = before ++ behind) (hbefore : ∀ n ∈ before, n ≤ offset)
    (hbehind : ∀ n ∈ behind, offset < n) : table.line offset = before.length - 1 := by
  have hnone : behind.takeWhile (fun n => decide (n ≤ offset)) = [] := by
    cases behind with
    | nil => rfl
    | cons n rest =>
        have hn := hbehind n List.mem_cons_self
        exact List.takeWhile_cons_of_neg (by rw [decide_eq_true_eq]; omega)
  rw [line, hstarts, List.takeWhile_append_of_pos (fun n hn => decide_eq_true (hbefore n hn)),
    hnone, List.append_nil]

/-- The line of an offset behind a cut, in the next character, is the number of line
    feeds before the cut. -/
theorem line_behind {a b : Text} {offset : Nat} (hle : Text.size a ≤ offset)
    (hnext : ∀ c rest, b = c :: rest → offset < Text.size a + c.utf8Size) :
    (ofText (a ++ b)).line offset = a.count '\n' := by
  rw [line_of_sides (starts_append a b), List.length_cons, length_lineBreaks, Nat.add_sub_cancel]
  · intro n hn
    rcases List.mem_cons.1 hn with rfl | hn
    · exact Nat.zero_le _
    · have := mem_lineBreaks hn
      omega
  · intro n hn
    exact lt_of_mem_lineBreaks hnext hn

/-- The line of a cut is the number of line feeds before it. -/
theorem line_cut (a b : Text) : (ofText (a ++ b)).line (Text.size a) = a.count '\n' :=
  line_behind (Nat.le_refl _) fun c _ _ => Nat.lt_add_of_pos_right (Char.utf8Size_pos c)

/-- The line of an offset is the number of line feeds that end at or before it. -/
theorem line_eq (text : Text) (offset : Nat) :
    (ofText text).line offset = (text.upTo offset).count '\n' := by
  obtain ⟨after, htext, hle, hnext⟩ := exists_upTo text offset
  conv => enter [1, 1]; rw [htext]
  exact line_behind hle hnext

/-- The line of a cut starts behind the last line feed before it. -/
theorem start_cut {before line : Text} (after : Text) (hline : '\n' ∉ line)
    (hbefore : AtLineStart before) :
    (ofText (before ++ line ++ after)).start ((before ++ line).count '\n') = Text.size before := by
  have hcount : (before ++ line).count '\n' = before.count '\n' := by
    rw [List.count_append, List.count_eq_zero.2 hline, Nat.add_zero]
  rw [start, hcount, List.append_assoc, starts_append]
  rcases hbefore with rfl | ⟨more, rfl⟩
  · rfl
  · rw [List.getElem?_append_left (by rw [List.length_cons, length_lineBreaks]; omega),
      List.count_append, List.count_singleton_self, List.getElem?_cons_succ, lineBreaks_append,
      List.getElem?_append_right (Nat.le_of_eq (length_lineBreaks _ _)), length_lineBreaks,
      Nat.sub_self]
    simp only [lineBreaks, if_pos, Nat.zero_add, List.getElem?_cons_zero, Option.getD_some,
      Text.size_append, Text.size_cons, Text.size_nil, Nat.add_zero]

theorem starts_getElem?_next (before line after : Text) (hline : '\n' ∉ line) :
    (ofText (before ++ line ++ after)).starts[before.count '\n' + 1]?
      = (lineBreaks (Text.size (before ++ line)) after)[0]? := by
  have hcount : (before ++ line).count '\n' = before.count '\n' := by
    rw [List.count_append, List.count_eq_zero.2 hline, Nat.add_zero]
  rw [starts_append, List.getElem?_append_right (Nat.le_of_eq (by
    rw [List.length_cons, length_lineBreaks, hcount])), List.length_cons, length_lineBreaks, hcount,
    Nat.sub_self]

/-- The next line starts behind the first line feed behind a cut. -/
theorem start_next {before line : Text} (after : Text) (hline : '\n' ∉ line) :
    (ofText (before ++ line ++ '\n' :: after)).start (before.count '\n' + 1)
      = Text.size (before ++ line) + 1 := by
  rw [start, starts_getElem?_next before line _ hline]
  simp only [lineBreaks, if_pos, List.getElem?_cons_zero, Option.getD_some]
  rfl

/-- There is no line behind the last one, and its start is the end. -/
theorem start_end {before line : Text} (hline : '\n' ∉ line) :
    (ofText (before ++ line)).start (before.count '\n' + 1) = Text.size (before ++ line) := by
  have hnext := starts_getElem?_next before line [] hline
  rw [List.append_nil] at hnext
  rw [start, hnext]
  rfl

/-- The line of a cut ends at the first line feed behind the cut. -/
theorem stop_cut {before line after : Text} (hline : '\n' ∉ line) (hafter : BreaksOff after) :
    (ofText (before ++ line ++ after)).stop (before.count '\n') = Text.size (before ++ line) := by
  rw [stop, starts_getElem?_next before line after hline]
  rcases hafter with rfl | ⟨more, rfl⟩
  · simp only [lineBreaks, List.getElem?_nil]
    rw [List.append_nil]
    rfl
  · simp only [lineBreaks, if_pos, List.getElem?_cons_zero]
    change Text.size (before ++ line) + 1 - 1 = _
    rw [Nat.add_sub_cancel]

end LineTable

namespace Text

/-- The line of a cut without its terminator: all of it, or all but a carriage
    return at its end. -/
theorem lineRange_cut {before lead line after : Text} (hlead : '\n' ∉ lead) (hline : '\n' ∉ line)
    (hbefore : AtLineStart before) (hafter : BreaksOff after) :
    ∃ stop, (before ++ lead ++ line ++ after).lineRange
        (.ofText (before ++ lead ++ line ++ after)) ((before ++ lead).count '\n')
        = ⟨size before, stop⟩
      ∧ (stop = size (before ++ lead ++ line)
        ∨ ∃ more, lead ++ line = more ++ ['\r'] ∧ stop = size (before ++ more)) := by
  have hstart : (LineTable.ofText (before ++ lead ++ line ++ after)).start
      ((before ++ lead).count '\n') = size before := by
    have hstart := LineTable.start_cut (line ++ after) hlead hbefore
    rwa [← List.append_assoc (before ++ lead)] at hstart
  have hstop : (LineTable.ofText (before ++ lead ++ line ++ after)).stop
      ((before ++ lead).count '\n') = size (before ++ lead ++ line) :=
    LineTable.stop_cut hline hafter
  have hslice : slice (before ++ lead ++ line ++ after)
      ⟨size before, size (before ++ lead ++ line)⟩ = lead ++ line := by
    refine slice_eq_of_slice? (slice?_eq_some_iff.2 ⟨before, after, ?_, rfl, ?_⟩)
    · simp only [List.append_assoc]
    · simp only [size_append, Nat.add_assoc]
  unfold lineRange
  simp only [hstart, hstop, hslice]
  -- The terminator is a line feed, with a carriage return before it or not.
  split
  · next h =>
    rw [Bool.and_eq_true, beq_iff_eq, List.getLast?_eq_some_iff] at h
    obtain ⟨-, more, hmore⟩ := h
    refine ⟨_, rfl, .inr ⟨more, hmore, ?_⟩⟩
    rw [List.append_assoc before, hmore]
    simp only [size_append, size_cons, size_nil, Nat.add_zero, ← Nat.add_assoc]
    exact Nat.add_sub_cancel _ 1
  · exact ⟨_, rfl, .inl rfl⟩

/-- What stands between a cut and the end of its line is the rest of the line,
    up to a carriage return. -/
theorem slice_lineRange_cut {before lead line after : Text} (hlead : '\n' ∉ lead)
    (hline : '\n' ∉ line) (hbefore : AtLineStart before) (hafter : BreaksOff after) :
    ∃ tail, line = slice (before ++ lead ++ line ++ after)
        ⟨size (before ++ lead), ((before ++ lead ++ line ++ after).lineRange
          (.ofText (before ++ lead ++ line ++ after)) ((before ++ lead).count '\n')).stop⟩ ++ tail
      ∧ isBlank tail = true := by
  have hslice {kept tail : Text} (h : line = kept ++ tail) :
      slice (before ++ lead ++ line ++ after) ⟨size (before ++ lead), size (before ++ lead ++ kept)⟩
        = kept := by
    refine slice_eq_of_slice? (slice?_eq_some_iff.2 ⟨before ++ lead, tail ++ after, ?_, rfl, ?_⟩)
    · rw [h]
      simp only [List.append_assoc]
    · rw [size_append (before ++ lead)]
  obtain ⟨stop, hrange, hstop⟩ := lineRange_cut hlead hline hbefore hafter
  rw [hrange]
  rcases hstop with rfl | ⟨more, hmore, rfl⟩
  · exact ⟨[], by rw [hslice (List.append_nil line).symm, List.append_nil], rfl⟩
  · rcases List.eq_nil_or_concat line with rfl | ⟨kept, c, rfl⟩
    · -- The cut stands behind the carriage return already.
      refine ⟨[], ?_, rfl⟩
      rw [List.append_nil] at hmore
      rw [List.append_nil, slice, slice?, if_neg, Option.getD_none]
      rw [hmore]
      have hreturn := Char.utf8Size_pos '\r'
      simp only [size_append, size_cons, size_nil, Nat.add_zero]
      omega
    · rw [List.concat_eq_append] at hmore hslice ⊢
      rw [← List.append_assoc, List.append_singleton_inj] at hmore
      obtain ⟨rfl, rfl⟩ := hmore
      exact ⟨['\r'], by rw [← List.append_assoc before, hslice rfl], by decide⟩

/-- What stands before a cut on its line. -/
theorem beforeOnLine?_cut {before lead : Text} (after : Text) (hlead : '\n' ∉ lead)
    (hbefore : AtLineStart before) :
    (before ++ lead ++ after).beforeOnLine? (.ofText (before ++ lead ++ after))
      (size (before ++ lead)) = some lead := by
  rw [beforeOnLine?, LineTable.line_cut, LineTable.start_cut after hlead hbefore]
  exact slice?_eq_some_iff.2 ⟨before, after, rfl, rfl, (size_append before lead).symm⟩

/-- Of two cuts, the second is on a later line than the first, or on the same line
    behind it. -/
theorem exists_beforeOnLine? {text a mid b : Text} (htext : text = a ++ mid ++ b) :
    ∃ lead behind, text.beforeOnLine? (.ofText text) (size a) = some lead
      ∧ text.beforeOnLine? (.ofText text) (size (a ++ mid)) = some behind
      ∧ ((LineTable.ofText text).line (size a) < (LineTable.ofText text).line (size (a ++ mid))
        ∨ (LineTable.ofText text).line (size a) = (LineTable.ofText text).line (size (a ++ mid))
          ∧ behind = lead ++ mid) := by
  subst htext
  obtain ⟨before, lead, rfl, hlead, hbefore⟩ := exists_lastLine a
  have hfirst := beforeOnLine?_cut (mid ++ b) hlead hbefore
  have hline := LineTable.line_cut (before ++ lead) (mid ++ b)
  rw [← List.append_assoc] at hfirst hline
  have hsum : (before ++ lead ++ mid).count '\n' = (before ++ lead).count '\n' + mid.count '\n' :=
    List.count_append
  rw [hline, LineTable.line_cut (before ++ lead ++ mid) b, hsum]
  by_cases hmid : '\n' ∈ mid
  · -- A line feed stands between the cuts.
    obtain ⟨before', lead', hsplit, hlead', hbefore'⟩ := exists_lastLine (before ++ lead ++ mid)
    have hsecond := beforeOnLine?_cut b hlead' hbefore'
    rw [← hsplit] at hsecond
    have hcount := List.count_pos_iff.2 hmid
    exact ⟨lead, lead', hfirst, hsecond, .inl (by omega)⟩
  · have hboth : '\n' ∉ lead ++ mid := by
      rw [List.mem_append, not_or]
      exact ⟨hlead, hmid⟩
    have hsecond := beforeOnLine?_cut b hboth hbefore
    rw [← List.append_assoc] at hsecond
    rw [List.count_eq_zero.2 hmid]
    exact ⟨lead, lead ++ mid, hfirst, hsecond, .inr ⟨rfl, rfl⟩⟩

/-- Before every cut stands some of its line. -/
theorem CutsAt.exists_before {text : Text} {offset : Nat} (h : text.CutsAt offset) :
    ∃ lead, text.beforeOnLine? (.ofText text) offset = some lead := by
  obtain ⟨a, after, rfl, rfl⟩ := h
  obtain ⟨before, lead, rfl, hlead, hbefore⟩ := exists_lastLine a
  exact ⟨lead, beforeOnLine?_cut after hlead hbefore⟩

/-- Every cut stands in a column. -/
theorem CutsAt.exists_column {text : Text} {offset : Nat} (h : text.CutsAt offset) :
    ∃ column, text.column? (.ofText text) offset = some column := by
  obtain ⟨lead, hlead⟩ := h.exists_before
  exact ⟨lead.length, by rw [column?, hlead, Option.map_some]⟩

end Text

end SharpLint

import SharpLint.Proofs.Edit.Clear
import SharpLint.Proofs.Edit.Tidy

/-!
# What Tidying Leaves of a Spared Stretch

A stretch of source that no edit meets is kept by the splice, but the edits
beside it may touch its first line and its last one, and tidying works on whole
lines. If the stretch begins and ends with ink, these lines are not blank and
the last one does not end in padding of the stretch; so tidying takes at most
the padding at the end of the first line, and that only if an edit before the
stretch ends on this line.

## Main definitions

* `Text.trimFirstLine`: a text without the padding at the end of its first line.
* `Edit.endsBefore`: an edit ends before an offset, on the line of the offset.

## Theorems

* `Tidied.split`: What is tidied is tidied part by part.
* `Tidied.keeps_ink`, `Tidied.keeps_solid`: Ink stays, and what stands between
  ink on one line.
* `Tidied.keeps_first`, `Tidied.keeps_before_ink`: What stays beside ink.
* `Tidied.unique`: Off blank lines, tidying leaves one text.
* `Edit.Splices.touched_of_spared`: Which lines of a spared stretch the edits touch.
* `Edit.Splices.tidied_spared`, `Edit.Splices.tidied_behind`: How a text is
  tidied around a spared stretch.
* `Edit.Splices.tidy_spared`: What is left of a spared stretch.
-/

namespace SharpLint

open Text

namespace Text

/-- The text without the padding at the end of its first line, if there is
    another line. -/
def trimFirstLine (text : Text) : Text :=
  if '\n' ∈ text then
    (TidyLine.ofRaw true (firstLine text)).written ++ text.dropWhile (· != '\n')
  else text

/-- A text on one line has no end of a line in it. -/
theorem trimFirstLine_of_not_mem {text : Text} (h : '\n' ∉ text) : text.trimFirstLine = text :=
  if_neg h

theorem trimFirstLine_cut {line : Text} (hline : '\n' ∉ line) (rest : Text) :
    (line ++ '\n' :: rest).trimFirstLine
      = (TidyLine.ofRaw true line).written ++ '\n' :: rest := by
  have hall : ∀ c ∈ line, (c != '\n') = true := by
    rintro c hc
    rw [bne_iff_ne]
    rintro rfl
    exact hline hc
  have hfirst : firstLine (line ++ '\n' :: rest) = line := by
    rw [firstLine_append hline, firstLine, List.takeWhile_cons_of_neg (by decide), List.append_nil]
  rw [trimFirstLine, if_pos (List.mem_append_right _ List.mem_cons_self), hfirst,
    List.dropWhile_append_of_pos hall, List.dropWhile_cons_of_neg (by decide)]

/-- A place in a text that begins with ink is not on a blank line before the
    text breaks off its first line. -/
theorem Solid.not_onBlankLine_first {text a b before after : Text} {c : Char} (h : text.Solid)
    (hsplit : text = a ++ c :: b) (ha : '\n' ∉ a) :
    onBlankLine (before ++ a) (c :: b ++ after) = false := by
  obtain ⟨⟨d, rest, htext, hd⟩, -⟩ := h
  have hblank : isBlankChar d = false := by rwa [isInk, Bool.not_eq_true'] at hd
  rw [← Bool.not_eq_true, onBlankLine, Bool.and_eq_true]
  rintro ⟨hlast, hfirst⟩
  cases a with
  | nil =>
      rw [htext, List.nil_append, List.cons.injEq] at hsplit
      rw [← hsplit.1] at hfirst
      have hne : (d != '\n') = true := by
        rw [bne_iff_ne]
        rintro rfl
        exact absurd hblank (by decide)
      rw [List.cons_append, firstLine, List.takeWhile_cons, if_pos hne, isBlank, List.all_cons,
        hblank] at hfirst
      exact Bool.false_ne_true hfirst
  | cons d' a =>
      rw [htext, List.cons_append, List.cons.injEq] at hsplit
      rw [lastLine_append ha, ← hsplit.1, isBlank, List.all_append, List.all_cons, hblank,
        Bool.false_and, Bool.and_false] at hlast
      exact Bool.false_ne_true hlast

/-- A place on the last line of a text that ends with ink is not on a blank
    line. -/
theorem Solid.not_onBlankLine_last {text a b before after : Text} {c : Char} (h : text.Solid)
    (hsplit : text = a ++ c :: b) (hb : '\n' ∉ c :: b) :
    onBlankLine before (c :: b ++ after) = false := by
  obtain ⟨-, init, d, htext, hd⟩ := h
  have hmem : d ∈ c :: b := by
    have hlast := List.dropLast_concat_getLast (List.cons_ne_nil c b)
    rw [htext, ← hlast, ← List.append_assoc, List.append_singleton_inj] at hsplit
    rw [hsplit.2]
    exact List.getLast_mem _
  rw [← Bool.not_eq_true, onBlankLine, Bool.and_eq_true, firstLine_append hb]
  rintro ⟨-, hblank⟩
  rw [isInk, List.all_eq_true.1 hblank d (List.mem_append_left _ hmem)] at hd
  exact absurd hd (by decide)

/-- Ink is no padding and ends no line. -/
theorem not_endsLine_of_isInk {c : Char} (hc : isInk c = true) (after : Text) :
    isPadding c = false ∧ endsLine (c :: after) = false := by
  have hblank : isBlankChar c = false := by rwa [isInk, Bool.not_eq_true'] at hc
  have hne {d : Char} (hd : isBlankChar d = true) : (c == d) = false := by
    rw [beq_eq_false_iff_ne]
    rintro rfl
    exact absurd (hblank.symm.trans hd) Bool.false_ne_true
  constructor
  · rw [← Bool.not_eq_true]
    intro hpadding
    exact absurd (hblank.symm.trans (isBlankChar_of_isPadding hpadding)) Bool.false_ne_true
  · rw [endsLine, hne (by decide), hne (by decide), Bool.false_and, Bool.or_false]

/-- No character trails on the last line of a text that ends with ink. -/
theorem Solid.not_trails {text a b after : Text} {c : Char} (h : text.Solid)
    (hsplit : text = a ++ c :: b) (hb : '\n' ∉ b) : trails c (b ++ after) = false := by
  obtain ⟨-, init, d, htext, hd⟩ := h
  obtain ⟨hpadding, hends⟩ := not_endsLine_of_isInk hd after
  rcases List.eq_nil_or_concat b with rfl | ⟨b, e, rfl⟩
  · rw [htext, List.append_singleton_inj] at hsplit
    rw [trails, ← hsplit.2, hpadding, Bool.false_and]
  · rw [List.concat_eq_append] at hsplit hb ⊢
    rw [htext, ← List.cons_append, ← List.append_assoc, List.append_singleton_inj] at hsplit
    rw [← hsplit.2, List.append_assoc, List.singleton_append]
    exact Text.not_trails (fun hmem => hb (List.mem_append_left _ hmem)) hpadding hends

/-- Ink breaks no line. -/
theorem not_mem_singleton_of_isInk {c : Char} (hc : isInk c = true) : '\n' ∉ [c] := by
  rw [List.mem_singleton]
  rintro rfl
  exact absurd hc (by decide)

/-- A line is not blank behind ink. -/
theorem not_isBlank_lastLine {before : Text} {c : Char} (hc : isInk c = true) :
    (lastLine (before ++ [c])).isBlank = false := by
  have hblank : isBlankChar c = false := by rwa [isInk, Bool.not_eq_true'] at hc
  rw [lastLine_append (not_mem_singleton_of_isInk hc), isBlank, List.all_append, List.all_cons, hblank, Bool.false_and,
    Bool.and_false]

end Text

namespace Tidied

variable {touched : Nat → Bool} {before text more after left left' : Text}

/-- What is tidied is tidied part by part. -/
theorem split (h : Tidied touched before (text ++ more) after left) :
    ∃ a b, left = a ++ b ∧ Tidied touched before text (more ++ after) a
      ∧ Tidied touched (before ++ text) more after b := by
  induction text generalizing before left with
  | nil => exact ⟨[], left, rfl, .nil, by rwa [List.append_nil]⟩
  | cons c text ih =>
      have hassoc : before ++ c :: text = before ++ [c] ++ text := by
        rw [List.append_assoc, List.singleton_append]
      rw [List.cons_append] at h
      rw [hassoc]
      cases h with
      | keep hkeep tail =>
          obtain ⟨a, b, rfl, ha, hb⟩ := ih tail
          rw [List.append_assoc] at hkeep
          exact ⟨c :: a, b, rfl, .keep hkeep ha, hb⟩
      | drop htouched hdrop tail =>
          obtain ⟨a, b, rfl, ha, hb⟩ := ih tail
          rw [List.append_assoc, ← List.cons_append, List.append_assoc] at hdrop
          exact ⟨a, b, rfl, .drop htouched hdrop ha, hb⟩

/-- Ink stays. -/
theorem keeps_ink {c : Char} (h : Tidied touched before (c :: text) after left)
    (hc : isInk c = true) :
    ∃ more, left = c :: more ∧ Tidied touched (before ++ [c]) text after more := by
  cases h with
  | keep _ tail => exact ⟨_, rfl, tail⟩
  | drop _ hdrop _ =>
      rw [isInk, isBlankChar_of_goes hdrop] at hc
      exact absurd hc (by decide)

/-- A stretch of one line that begins and ends with ink stays. -/
theorem keeps_solid (h : Tidied touched before text after left) (hsolid : text.Solid)
    (hline : '\n' ∉ text) : left = text :=
  -- The line is not blank and does not end in padding of the stretch.
  h.keeps fun a d b hsplit _ => by
    have hbroken : '\n' ∉ a ++ d :: b := hsplit ▸ hline
    rw [List.mem_append, List.mem_cons, not_or, not_or] at hbroken
    exact ⟨hsolid.not_trails hsplit hbroken.2.2, hsolid.not_onBlankLine_first hsplit hbroken.1⟩

/-- A character that is no padding stays behind ink on its line. -/
theorem keeps_first {c : Char} (h : Tidied touched before (c :: text) after left)
    (hc : isPadding c = false) (hline : (lastLine before).isBlank = false) :
    ∃ more, left = c :: more ∧ Tidied touched (before ++ [c]) text after more := by
  cases h with
  | keep _ tail => exact ⟨_, rfl, tail⟩
  | drop _ hdrop _ =>
      rw [trails, hc, Bool.false_and, onBlankLine, hline, Bool.false_and, or_self] at hdrop
      exact absurd hdrop Bool.false_ne_true

/-- A stretch of a line stays before ink. -/
theorem keeps_before_ink {c : Char} (h : Tidied touched before text (c :: after) left)
    (htext : '\n' ∉ text) (hc : isInk c = true) : left = text := by
  refine h.keeps fun a d b hsplit _ => ?_
  rw [hsplit, List.mem_append, not_or] at htext
  obtain ⟨hpadding, hends⟩ := not_endsLine_of_isInk hc after
  refine ⟨Text.not_trails (fun hmem => htext.2 (List.mem_cons_of_mem _ hmem)) hpadding hends, ?_⟩
  -- The ink stands on the same line.
  have hline : '\n' ∉ d :: b ++ [c] := by
    rw [List.mem_append, not_or]
    exact ⟨htext.2, not_mem_singleton_of_isInk hc⟩
  rw [← Bool.not_eq_true, onBlankLine, Bool.and_eq_true, List.append_cons,
    firstLine_append hline]
  rintro ⟨-, hblank⟩
  rw [isInk, List.all_eq_true.1 hblank c (List.mem_append_left _ List.mem_concat_self)] at hc
  exact absurd hc (by decide)

/-- No touched line of the text is blank. -/
def OffBlank (touched : Nat → Bool) (before text after : Text) : Prop :=
  ∀ a c b, text = a ++ c :: b → touched ((before ++ a).count '\n') = true →
    onBlankLine (before ++ a) (c :: b ++ after) = false

theorem OffBlank.head {c : Char} (h : OffBlank touched before (c :: text) after)
    (htouched : touched (before.count '\n') = true) :
    onBlankLine before (c :: text ++ after) = false := by
  have hnot := h [] c text rfl (by rwa [List.append_nil])
  rwa [List.append_nil] at hnot

theorem OffBlank.tail {c : Char} (h : OffBlank touched before (c :: text) after) :
    OffBlank touched (before ++ [c]) text after := by
  rintro a d b rfl
  rw [List.append_assoc, List.singleton_append]
  exact h (c :: a) d b rfl

/-- Off blank lines it is told of every character whether it goes, so tidying
    leaves one text. -/
theorem unique (h : Tidied touched before text after left)
    (h' : Tidied touched before text after left') (hblank : OffBlank touched before text after) :
    left = left' := by
  -- Where the two differ first, one drops a character that the other keeps.
  induction h generalizing left' with
  | nil =>
      cases h'
      rfl
  | keep hkeep tail ih =>
      cases h' with
      | keep hkeep' tail' => rw [ih tail' hblank.tail]
      | drop htouched hdrop tail' =>
          rw [hkeep htouched, hblank.head htouched] at hdrop
          exact absurd hdrop (by decide)
  | drop htouched hdrop tail ih =>
      cases h' with
      | keep hkeep' tail' =>
          rw [hkeep' htouched, hblank.head htouched] at hdrop
          exact absurd hdrop (by decide)
      | drop htouched' hdrop' tail' => exact ih tail' hblank.tail

/-- What is left of a text that begins and ends with ink, where no lines are
    touched but its first and its last one: only the padding at the end of the
    first may go. -/
theorem solid (h : Tidied touched before text after left) (hsolid : text.Solid)
    (htouched : ∀ n, touched n = true → n ≤ before.count '\n' ∨ (before ++ text).count '\n' ≤ n) :
    left = if touched (before.count '\n') then text.trimFirstLine else text := by
  -- A touched line is the first of the text, or the last.
  have hlines {a b : Text} {c : Char} (hsplit : text = a ++ c :: b)
      (hline : touched ((before ++ a).count '\n') = true) : '\n' ∉ a ∨ '\n' ∉ c :: b := by
    have hends := htouched _ hline
    rw [hsplit, ← List.append_assoc] at hends
    simp only [List.count_append] at hends
    refine hends.imp (fun hle => ?_) fun hle => ?_ <;>
    · rw [← List.count_eq_zero]
      omega
  have hblank : OffBlank touched before text after := fun a c b hsplit hline =>
    (hlines hsplit hline).elim (hsolid.not_onBlankLine_first hsplit)
      (hsolid.not_onBlankLine_last hsplit)
  refine h.unique ?_ hblank
  obtain ⟨line, rest, hsplit, hline, hrest⟩ := exists_firstLine text
  rcases hrest with rfl | ⟨rest, rfl⟩
  · rw [List.append_nil] at hsplit
    subst hsplit
    rw [trimFirstLine_of_not_mem hline, ite_self]
    refine .refl fun a c b hsplit' _ => hsolid.not_trails hsplit' fun hmem => hline ?_
    rw [hsplit']
    exact List.mem_append_right _ (List.mem_cons_of_mem _ hmem)
  · have hkept : (if touched (before.count '\n') then text.trimFirstLine else text)
        = (TidyLine.ofRaw (touched (before.count '\n')) line).written ++ '\n' :: rest := by
      rw [hsplit]
      split
      · next htrue => rw [htrue, trimFirstLine_cut hline]
      · next hfalse =>
        rw [Bool.not_eq_true] at hfalse
        obtain ⟨ret, hraw, hwritten, huntouched, -⟩ := TidyLine.ofRaw_spec false line
        rw [hfalse, hwritten, TidyLine.cleaned, huntouched, if_neg Bool.false_ne_true, ← hraw]
    rw [hkept, hsplit]
    refine (tidied_line hline (.inr ⟨_, rfl⟩)).append (.keep (fun _ => rfl) (.refl ?_))
    intro a c b hrest htrue
    -- Behind the first line, a touched line is the last.
    have hwhole : text = (line ++ '\n' :: a) ++ c :: b := by
      rw [hsplit, hrest, List.append_assoc, List.cons_append]
    have hplace : before ++ line ++ ['\n'] ++ a = before ++ (line ++ '\n' :: a) := by
      simp only [List.append_assoc, List.singleton_append]
    rw [hplace] at htrue
    refine hsolid.not_trails hwhole fun hmem => ?_
    rcases hlines hwhole htrue with hnot | hnot
    · exact hnot (List.mem_append_right _ List.mem_cons_self)
    · exact hnot (List.mem_cons_of_mem _ hmem)

end Tidied

namespace Edit

/-! ### Touched lines -/

/-- Edits behind a stretch land where they do when the stretch is passed. -/
theorem landed_shift {cursor out : Nat} {edits : List Edit} (n : Nat)
    (h : ∀ edit ∈ edits, cursor + n ≤ edit.span.start) :
    landed cursor out edits = landed (cursor + n) (out + n) edits := by
  cases edits with
  | nil => rfl
  | cons edit edits =>
      have hle := h edit List.mem_cons_self
      have hstart : out + n + (edit.span.start - (cursor + n))
          = out + (edit.span.start - cursor) := by omega
      simp only [landed, hstart]

/-- The edit stops up to the offset, on the line of the offset. -/
def endsBefore (source : Text) (offset : Nat) (edit : Edit) : Bool :=
  edit.span.stop ≤ offset && !(source.slice ⟨edit.span.stop, offset⟩).contains '\n'

namespace Splices

variable {cursor : Nat} {text new x q y X Y : Text} {edits first last : List Edit}

/-- Edits that are made after others land behind what these yield. -/
theorem landed_append (h : Splices cursor x first X) (out : Nat)
    (hlast : ∀ edit ∈ last, cursor + size x ≤ edit.span.start) :
    landed cursor out (first ++ last)
      = landed cursor out first ++ landed (cursor + size x) (out + size X) last := by
  induction h generalizing out with
  | nil => exact landed_shift _ hlast
  | @cons cursor start stop kept old rest new text edits hstart hstop tail ih =>
      simp only [size_append] at hlast ⊢
      have hpassed : cursor + (size kept + size old + size rest) = stop + size rest := by omega
      have hout : out + (start - cursor) + size text + size new
          = out + (size kept + size text + size new) := by omega
      rw [hpassed] at hlast ⊢
      simp only [List.cons_append, landed, ih _ hlast, hout]

/-- Edits around a stretch that is kept land before it and behind it. -/
theorem landed_around (h : Splices 0 x first X) (h' : Splices (size (x ++ q)) y last Y) :
    landed 0 0 (first ++ last)
      = landed 0 0 first ++ landed (size (x ++ q)) (size (X ++ q)) last := by
  have hbehind : ∀ edit ∈ last, size x + size q ≤ edit.span.start := fun edit hedit =>
    size_append x q ▸ (h'.forward hedit).1
  rw [h.landed_append 0 fun edit hedit => by have := hbehind edit hedit; omega, Nat.zero_add,
    Nat.zero_add, landed_shift (size q) hbehind, size_append, size_append]

/-- Each new text stands where it has landed. -/
theorem exists_landed (h : Splices cursor text edits new) {out : Nat} {span : Span}
    (hspan : span ∈ landed cursor out edits) :
    ∃ a mid b, new = a ++ mid ++ b ∧ span = ⟨out + size a, out + size (a ++ mid)⟩ := by
  induction h generalizing out with
  | nil => exact absurd hspan List.not_mem_nil
  | @cons cursor start stop kept old rest new text edits hstart hstop tail ih =>
      have hkept : start - cursor = size kept := by omega
      simp only [landed, hkept, List.mem_cons] at hspan
      rcases hspan with rfl | hspan
      · exact ⟨kept, text, new, rfl, by rw [size_append, Nat.add_assoc]⟩
      · obtain ⟨a, mid, b, rfl, rfl⟩ := ih hspan
        refine ⟨kept ++ text ++ a, mid, b, by simp only [List.append_assoc], ?_⟩
        simp only [size_append, Nat.add_assoc]

/-- What is kept behind the last edit: the edits are made in the text before it,
    at the end of which the last one stops and lands. -/
theorem exists_last (h : Splices cursor text edits new) (hne : edits ≠ []) (out : Nat) :
    ∃ a kept b, text = a ++ kept ∧ new = b ++ kept ∧ Splices cursor a edits b
      ∧ (∃ edit ∈ edits, edit.span.stop = cursor + size a)
      ∧ ∃ span ∈ landed cursor out edits, span.stop = out + size b := by
  induction h generalizing out with
  | nil => exact absurd rfl hne
  | @cons cursor start stop kept old rest new text edits hstart hstop tail ih =>
      have hland : out + (start - cursor) + size text = out + size (kept ++ text) := by
        rw [size_append]
        omega
      simp only [landed, hland]
      -- On the edits: the last one is this one, or is among those behind it.
      by_cases hnil : edits = []
      · subst hnil
        cases tail
        have hmade : Splices cursor (kept ++ old ++ []) [⟨⟨start, stop⟩, text⟩]
            (kept ++ text ++ []) := .cons hstart hstop .nil
        rw [List.append_nil, List.append_nil] at hmade
        refine ⟨kept ++ old, rest, kept ++ text, rfl, rfl, hmade, ⟨_, List.mem_cons_self, ?_⟩,
          _, List.mem_cons_self, rfl⟩
        rw [size_append]
        simp only
        omega
      · obtain ⟨a, kept', b, rfl, rfl, hsplices, ⟨edit, hedit, hstopEdit⟩, span, hspan,
          hspanStop⟩ := ih hnil (out + size (kept ++ text))
        refine ⟨kept ++ old ++ a, kept', kept ++ text ++ b, by simp only [List.append_assoc],
          by simp only [List.append_assoc], .cons hstart hstop hsplices,
          ⟨edit, List.mem_cons_of_mem _ hedit, ?_⟩, span, List.mem_cons_of_mem _ hspan, ?_⟩
        · simp only [size_append]
          omega
        · rw [hspanStop, size_append _ b, Nat.add_assoc]

/-- The new texts land on the lines that the splice is on. -/
theorem lines_landed (h : Splices cursor text edits new) (before after : Text) {span : Span}
    (hspan : span ∈ landed cursor (size before) edits) :
    before.count '\n' ≤ (LineTable.ofText (before ++ new ++ after)).line span.start
      ∧ (LineTable.ofText (before ++ new ++ after)).line span.start
        ≤ (LineTable.ofText (before ++ new ++ after)).line span.stop
      ∧ (LineTable.ofText (before ++ new ++ after)).line span.stop
        ≤ (before ++ new).count '\n' := by
  obtain ⟨a, mid, b, rfl, rfl⟩ := h.exists_landed hspan
  have hstart := LineTable.line_cut (before ++ a) (mid ++ b ++ after)
  have hstop := LineTable.line_cut (before ++ (a ++ mid)) (b ++ after)
  rw [size_append] at hstart hstop
  simp only [List.append_assoc] at hstart hstop ⊢
  rw [hstart, hstop]
  simp only [List.count_append]
  omega

/-- The edits touch no lines of a stretch between them but its first and its
    last one. -/
theorem touched_of_spared (h : Splices 0 x first X) (h' : Splices (size (x ++ q)) y last Y)
    {n : Nat} (hn : touchesLine (.ofText (X ++ q ++ Y)) (landed 0 0 (first ++ last)) n = true) :
    n ≤ X.count '\n' ∨ (X ++ q).count '\n' ≤ n := by
  obtain ⟨span, hspan, hline⟩ := List.any_eq_true.1 hn
  rw [Bool.and_eq_true, decide_eq_true_eq, decide_eq_true_eq] at hline
  rcases List.mem_append.1 (h.landed_around h' ▸ hspan) with hspan | hspan
  · have hlines := h.lines_landed [] (q ++ Y) hspan
    rw [List.nil_append, ← List.append_assoc] at hlines
    exact .inl (Nat.le_trans hline.2 hlines.2.2)
  · have hlines := h'.lines_landed (X ++ q) [] hspan
    rw [List.append_nil] at hlines
    exact .inr (Nat.le_trans hlines.1 hline.1)

/-- The line behind a splice is touched if no line feed stands between. -/
theorem touches_behind (h : Splices 0 x first X)
    (hlast : ∃ span ∈ landed 0 0 first, span.stop = size X) (kept Y : Text) :
    touchesLine (.ofText (X ++ kept ++ Y)) (landed 0 0 first) ((X ++ kept).count '\n') = true
      ↔ '\n' ∉ kept := by
  have hlines {span : Span} (hspan : span ∈ landed 0 0 first) :=
    h.lines_landed [] (kept ++ Y) hspan
  simp only [List.nil_append, ← List.append_assoc] at hlines
  simp only [touchesLine, List.any_eq_true, Bool.and_eq_true, decide_eq_true_eq, List.count_append,
    ← List.count_eq_zero]
  constructor
  · rintro ⟨span, hspan, -, hline⟩
    have hstop := (hlines hspan).2.2
    omega
  · intro hkept
    obtain ⟨span, hspan, hstop⟩ := hlast
    have hcut := LineTable.line_cut X (kept ++ Y)
    rw [← List.append_assoc, ← hstop] at hcut
    have hstart := (hlines hspan).2.1
    exact ⟨span, hspan, by omega, by omega⟩

/-- An edit ends on the line behind those of a splice if no line feed stands
    between. -/
theorem any_endsBefore (h : Splices 0 x first X)
    (hlast : ∃ edit ∈ first, edit.span.stop = 0 + size x) (kept y : Text) :
    first.any (endsBefore (x ++ kept ++ y) (size (x ++ kept))) = true ↔ '\n' ∉ kept := by
  -- What stands between a place in `x` and the cut ends with `kept`.
  have hslice {c m : Text} (hx : x = c ++ m) :
      slice (x ++ kept ++ y) ⟨size c, size (x ++ kept)⟩ = m ++ kept := by
    subst hx
    refine slice_eq_of_slice? (slice?_eq_some_iff.2 ⟨c, y, ?_, rfl, ?_⟩)
    · simp only [List.append_assoc]
    · simp only [size_append, Nat.add_assoc]
  simp only [endsBefore, List.any_eq_true, Bool.and_eq_true, decide_eq_true_eq,
    Bool.not_eq_true', List.contains_eq_mem, decide_eq_false_iff_not]
  constructor
  · -- Whichever edit it is, `kept` stands behind it.
    rintro ⟨edit, hedit, -, hnot⟩
    have hfits : edit.FitsIn x := h.fitsIn [] rfl edit hedit
    obtain ⟨c, m, hx, hsize⟩ := hfits.stopCut
    rw [← hsize, hslice hx] at hnot
    exact fun hmem => hnot (List.mem_append_right _ hmem)
  · -- The edit that ends where `x` does has nothing but `kept` behind it.
    intro hkept
    obtain ⟨edit, hedit, hstop⟩ := hlast
    rw [Nat.zero_add] at hstop
    refine ⟨edit, hedit, ?_, ?_⟩
    · rw [hstop, size_append]
      exact Nat.le_add_right _ _
    · rwa [hstop, hslice (List.append_nil x).symm, List.nil_append]

/-- The last line of a splice is touched if an edit ends on the last line of the
    source. -/
theorem touches_last (h : Splices 0 x first X) (y Y : Text) :
    touchesLine (.ofText (X ++ Y)) (landed 0 0 first) (X.count '\n')
      = first.any (endsBefore (x ++ y) (size x)) := by
  by_cases hne : first = []
  · subst hne
    rfl
  obtain ⟨a, kept, b, rfl, rfl, hsplices, hedit, hspan⟩ := h.exists_last hne 0
  rw [Nat.zero_add] at hspan
  -- Either is so if no line feed stands behind the last edit.
  rw [Bool.eq_iff_iff, hsplices.touches_behind hspan, hsplices.any_endsBefore hedit]

/-- The edits touch the first line of a stretch of several lines if one of them
    ends on it before the stretch. -/
theorem touches_first (h : Splices 0 x first X) (h' : Splices (size (x ++ q)) y last Y)
    (hq : '\n' ∈ q) :
    touchesLine (.ofText (X ++ q ++ Y)) (landed 0 0 (first ++ last)) (X.count '\n')
      = (first ++ last).any (endsBefore (x ++ q ++ y) (size x)) := by
  have hcount := List.count_pos_iff.2 hq
  -- What stands behind the stretch does neither.
  have hland : (landed (size (x ++ q)) (size (X ++ q)) last).any (fun span =>
      (LineTable.ofText (X ++ q ++ Y)).line span.start ≤ X.count '\n'
        && X.count '\n' ≤ (LineTable.ofText (X ++ q ++ Y)).line span.stop) = false := by
    refine List.any_eq_false.2 fun span hspan hline => ?_
    have hlines := h'.lines_landed (X ++ q) [] hspan
    rw [List.append_nil, List.count_append] at hlines
    rw [Bool.and_eq_true, decide_eq_true_eq] at hline
    omega
  have hends : last.any (endsBefore (x ++ q ++ y) (size x)) = false := by
    refine List.any_eq_false.2 fun edit hedit hend => ?_
    rw [endsBefore, Bool.and_eq_true, decide_eq_true_eq] at hend
    obtain ⟨hfrom, hforward, -⟩ := h'.forward hedit
    have hsize : size q = 0 := by
      rw [size_append] at hfrom
      omega
    rw [eq_nil_of_size hsize] at hq
    exact List.not_mem_nil hq
  rw [touchesLine, h.landed_around h', List.any_append, hland, Bool.or_false, List.any_append,
    hends, Bool.or_false, List.append_assoc, List.append_assoc]
  exact h.touches_last (q ++ y) (q ++ Y)

/-- A text is tidied in three parts around a stretch that begins and ends with
    ink and that no edit meets: of the stretch all is left but the padding at
    the end of its first line, and that goes if an edit ends on this line before
    the stretch. -/
theorem tidied_spared (h : Splices 0 (x ++ q ++ y) edits new) (hsolid : q.Solid)
    (hapart : ∀ edit ∈ edits, edit.span.stop ≤ size x ∨ size (x ++ q) ≤ edit.span.start) :
    ∃ first last X Y touched before behind, edits = first ++ last ∧ Splices 0 x first X
      ∧ Splices (size (x ++ q)) y last Y ∧ Tidied touched [] X (q ++ Y) before
      ∧ Tidied touched (X ++ q) Y [] behind
      ∧ tidy new (landed 0 0 edits) = before
        ++ (if edits.any (endsBefore (x ++ q ++ y) (size x)) then q.trimFirstLine else q)
        ++ behind := by
  obtain ⟨first, last, X, Y, rfl, rfl, hfirst, hlast⟩ := h.around fun edit hedit => by
    simpa only [Nat.zero_add] using hapart edit hedit
  rw [Nat.zero_add] at hlast
  have htidied := tidied_tidy (X ++ q ++ Y) (landed 0 0 (first ++ last))
  obtain ⟨kept, behind, htidy, hkept, hbehind⟩ := htidied.split
  obtain ⟨before, spared, rfl, hbefore, hspared⟩ := hkept.split
  rw [List.nil_append] at hspared hbehind
  rw [List.append_nil] at hbefore hspared
  have hleft := hspared.solid hsolid fun n => hfirst.touched_of_spared hlast
  refine ⟨first, last, X, Y, _, before, behind, rfl, hfirst, hlast, hbefore, hbehind, ?_⟩
  rw [htidy, hleft]
  by_cases hq : '\n' ∈ q
  · rw [hfirst.touches_first hlast hq]
  · rw [trimFirstLine_of_not_mem hq, ite_self, ite_self]

/-- What is left of a stretch that begins and ends with ink and that no edit
    meets: it stands between what is left of the text before it and behind it,
    and lacks at most the padding at the end of its first line, if an edit ends
    on this line before it. -/
theorem tidy_spared (h : Splices 0 (x ++ q ++ y) edits new) (hsolid : q.Solid)
    (hapart : ∀ edit ∈ edits, edit.span.stop ≤ size x ∨ size (x ++ q) ≤ edit.span.start) :
    ∃ first last X Y before behind, edits = first ++ last ∧ Splices 0 x first X
      ∧ Splices (size (x ++ q)) y last Y ∧ before.filter isInk = X.filter isInk
      ∧ behind.filter isInk = Y.filter isInk
      ∧ tidy new (landed 0 0 edits) = before
        ++ (if edits.any (endsBefore (x ++ q ++ y) (size x)) then q.trimFirstLine else q)
        ++ behind := by
  obtain ⟨first, last, X, Y, touched, before, behind, hedits, hfirst, hlast, hbefore, hbehind,
    htidy⟩ := h.tidied_spared hsolid hapart
  exact ⟨first, last, X, Y, before, behind, hedits, hfirst, hlast, hbefore.ink, hbehind.ink, htidy⟩

/-- Where an edit stops just before such a stretch, it is among those before the
    stretch, and the padding goes. -/
theorem tidied_behind (h : Splices 0 (x ++ q ++ y) edits new) (hsolid : q.Solid)
    (hapart : ∀ edit ∈ edits, edit.span.stop ≤ size x ∨ size (x ++ q) ≤ edit.span.start)
    {edit : Edit} (hedit : edit ∈ edits) (hstop : edit.span.stop = size x) :
    ∃ first last X Y touched before behind, edits = first ++ last ∧ edit ∈ first
      ∧ Splices 0 x first X ∧ (∀ other ∈ last, size x ≤ other.span.start)
      ∧ Tidied touched [] X (q ++ Y) before
      ∧ tidy new (landed 0 0 edits) = before ++ q.trimFirstLine ++ behind := by
  obtain ⟨first, last, X, Y, touched, before, behind, hedits, hfirst, hlast, hbefore, -, htidy⟩ :=
    h.tidied_spared hsolid hapart
  have hends : edits.any (endsBefore (x ++ q ++ y) (size x)) = true := by
    refine List.any_eq_true.2 ⟨edit, hedit, ?_⟩
    have hnone : slice (x ++ q ++ y) ⟨size x, size x⟩ = [] :=
      slice_eq_of_slice? (slice?_eq_some_iff.2 ⟨x, q ++ y, by
        simp only [List.append_assoc, List.append_nil], rfl, rfl⟩)
    rw [endsBefore, hstop, hnone, Bool.and_eq_true, decide_eq_true_eq]
    exact ⟨Nat.le_refl _, rfl⟩
  rw [hends, if_pos rfl] at htidy
  have hbehind : ∀ other ∈ last, size x ≤ other.span.start := fun other hother => by
    have hfrom := (hlast.forward hother).1
    rw [size_append] at hfrom
    omega
  refine ⟨first, last, X, Y, touched, before, behind, hedits, ?_, hfirst, hbehind, hbefore, htidy⟩
  refine (List.mem_append.1 (hedits ▸ hedit)).resolve_right fun hmem => ?_
  -- Behind the stretch the edit would stop behind its start.
  obtain ⟨hfrom, hforward, -⟩ := hlast.forward hmem
  have hempty : size q = 0 := by
    rw [size_append] at hfrom
    omega
  exact hsolid.ne_nil (eq_nil_of_size hempty)

end Splices

end Edit

end SharpLint

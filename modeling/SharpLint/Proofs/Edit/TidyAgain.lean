import Mathlib.Data.List.Forall2
import SharpLint.Proofs.Edit.Returns
import SharpLint.Proofs.Edit.Spared

/-!
# Tidying Again

What a second tidying does to lines that the first one has tidied already. No
line goes: a touched line that is blank and superfluous has gone the first time,
and whether a line is told by its ink, which does not change. Of the lines that
stay, one may lose padding still: the first tidying sets a single carriage
return at the end of a line apart, and where padding stood behind it, that was
what went. The return is the end of the line now, and what stands before it is
next to go.

Which lines the second tidying touches is told by spans of the text it is given.
Where such a span starts behind the same ink as a span of the first tidying and
stops before the same ink, it touches no line that the first one did not touch.

## Main definitions

* `Text.trimReturn`: a line without the padding before its carriage return.
* `keptLines`: the lines that tidying keeps.
* `Text.SameInk`: two spans of two texts stand between the same ink.

## Theorems

* `tidyLines_eq`: Tidying writes the lines that it keeps.
* `keptLines_again`: Of kept lines, all are kept.
* `tidy_tidy`: What tidying again leaves of a tidied text.
-/

namespace SharpLint

open Text

/-! ### Lines and their ink -/

namespace Text

/-- The line without the padding before the carriage return at its end. -/
def trimReturn (line : Text) : Text :=
  if line.getLast? = some '\r' then dropPaddingEnd line.dropLast ++ ['\r'] else line

theorem dropPaddingEnd_dropPaddingEnd (text : Text) :
    dropPaddingEnd (dropPaddingEnd text) = dropPaddingEnd text := by
  obtain ⟨pad, htext, hpad, -⟩ := exists_dropPaddingEnd (dropPaddingEnd text)
  rcases List.eq_nil_or_concat pad with rfl | ⟨pad, c, rfl⟩
  · rwa [List.append_nil, eq_comm] at htext
  · -- The rest of the padding would have gone before.
    obtain ⟨-, -, -, hlast⟩ := exists_dropPaddingEnd text
    rw [List.concat_eq_append, ← List.append_assoc] at htext
    have hnot := hlast _ c htext
    rw [hpad c (by rw [List.concat_eq_append]; exact List.mem_concat_self)] at hnot
    exact absurd hnot (by decide)

/-- What a text ends with before its blanks is told by its ink. -/
theorem getLast?_trimEnd (text : Text) :
    (trimEnd text).getLast? = (text.filter isInk).getLast? := by
  obtain ⟨-, -, -, hlast⟩ := exists_dropEndWhile isBlankChar text
  rw [← filter_trimEnd]
  rcases List.eq_nil_or_concat (trimEnd text) with hnil | ⟨core, c, hcore⟩
  · rw [hnil]
    rfl
  · rw [List.concat_eq_append] at hcore
    have hc : isInk c = true := by rw [isInk, hlast core c hcore]; rfl
    rw [hcore, List.filter_append, List.filter_cons_of_pos hc, List.filter_nil,
      List.getLast?_concat, List.getLast?_concat]

theorem splitLines_of_not_mem {line : Text} (h : '\n' ∉ line) : splitLines line = [line] := by
  induction line with
  | nil => rfl
  | cons c line ih =>
      rw [List.mem_cons, not_or] at h
      rw [splitLines, if_neg (Ne.symm h.1), ih h.2]

theorem splitLines_append {line : Text} (h : '\n' ∉ line) (rest : Text) :
    splitLines (line ++ '\n' :: rest) = line :: splitLines rest := by
  induction line with
  | nil => rfl
  | cons c line ih =>
      rw [List.mem_cons, not_or] at h
      rw [List.cons_append, splitLines, if_neg (Ne.symm h.1), ih h.2]

/-- Lines that are joined are split again, for no line holds a line feed. -/
theorem splitLines_joinLines {lines : List Text} (hne : lines ≠ [])
    (hlines : ∀ line ∈ lines, '\n' ∉ line) : splitLines (joinLines lines) = lines := by
  induction lines with
  | nil => exact absurd rfl hne
  | cons line lines ih =>
      have hline := hlines line List.mem_cons_self
      by_cases hnil : lines = []
      · rw [hnil]
        exact splitLines_of_not_mem hline
      · rw [joinLines_cons hnil, splitLines_append hline,
          ih hnil fun other hother => hlines other (List.mem_cons_of_mem _ hother)]

/-- A cut of joined lines: whole lines with their line feeds stand before it, as
    many as there are line feeds, and it cuts the next line. -/
theorem exists_cut_joinLines {lines : List Text} (hne : lines ≠ [])
    (hlines : ∀ line ∈ lines, '\n' ∉ line) {p q : Text} (h : joinLines lines = p ++ q) :
    ∃ before a b after tail, lines = before ++ (a ++ b) :: after
      ∧ p = before.flatMap (· ++ ['\n']) ++ a ∧ q = b ++ tail ∧ BreaksOff tail
      ∧ before.length = p.count '\n' := by
  induction lines generalizing p with
  | nil => exact absurd rfl hne
  | cons line lines ih =>
      have hline := hlines line List.mem_cons_self
      have hnone {a : Text} (ha : ∀ c ∈ a, c ∈ line) : 0 = a.count '\n' :=
        (List.count_eq_zero.2 fun hmem => hline (ha _ hmem)).symm
      -- On the lines: the cut is in the first line, at its end, or in a later one.
      by_cases hnil : lines = []
      · rw [hnil, joinLines] at h
        exact ⟨[], p, q, [], [], by rw [hnil, h]; rfl, rfl, (List.append_nil q).symm, .inl rfl,
          hnone fun c hc => h ▸ List.mem_append_left _ hc⟩
      · rw [joinLines_cons hnil, List.append_eq_append_iff] at h
        rcases h with ⟨m, rfl, hm⟩ | ⟨m, rfl, hm⟩
        · cases m with
          | nil =>
              exact ⟨[], line, [], lines, '\n' :: joinLines lines, by rw [List.append_nil]; rfl,
                List.append_nil _, hm.symm, .inr ⟨_, rfl⟩,
                hnone fun c hc => by rwa [List.append_nil] at hc⟩
          -- Behind the line feed of the first line the rest is cut.
          | cons c m =>
              rw [List.cons_append, List.cons.injEq] at hm
              obtain ⟨rfl, hm⟩ := hm
              obtain ⟨before, a, b, after, tail, rfl, rfl, rfl, htail, hlength⟩ :=
                ih hnil (fun other hother => hlines other (List.mem_cons_of_mem _ hother)) hm
              refine ⟨line :: before, a, b, after, tail, rfl, ?_, rfl, htail, ?_⟩
              · simp only [List.flatMap_cons, List.append_assoc, List.cons_append, List.nil_append]
              · have hzero := hnone fun c hc => hc
                simp only [List.length_cons, hlength, List.count_append, List.count_cons_self]
                omega
        · exact ⟨[], p, m, lines, '\n' :: joinLines lines, rfl, rfl, hm, .inr ⟨_, rfl⟩,
            hnone fun c hc => List.mem_append_left _ hc⟩

/-- The line feeds between lines are no ink. -/
theorem filter_flatMap_feeds (lines : List Text) :
    (lines.flatMap (· ++ ['\n'])).filter isInk = lines.flatMap (List.filter isInk) := by
  induction lines with
  | nil => rfl
  | cons line lines ih =>
      rw [List.flatMap_cons, List.flatMap_cons, List.filter_append, List.filter_append, ih,
        List.filter_cons_of_neg (by decide), List.filter_nil, List.append_nil]

end Text

namespace TidyLine

variable {line other : TidyLine}

theorem ink_cleaned (line : TidyLine) :
    line.cleaned.filter isInk = line.body.filter isInk := by
  rw [cleaned]
  split
  · exact filter_dropEndWhile (fun _ => isBlankChar_of_isPadding) _
  · rfl

theorem ink_written (line : TidyLine) :
    line.written.filter isInk = line.body.filter isInk := by
  rw [written, ← ink_cleaned]
  split
  · rw [List.filter_append, List.filter_cons_of_neg (by decide), List.filter_nil, List.append_nil]
  · rfl

theorem ink_ofRaw (touched : Bool) (raw : Text) :
    (ofRaw touched raw).body.filter isInk = raw.filter isInk := by
  obtain ⟨ret, hraw, -, -, hret⟩ := ofRaw_spec touched raw
  have hnone : ret.filter isInk = [] := by rcases hret with rfl | ⟨rfl, -⟩ <;> rfl
  conv => enter [2]; rw [hraw]
  rw [List.filter_append, hnone, List.append_nil]

/-- Whether a line is blank, and whether one below it is superfluous, is told by
    its ink. -/
theorem isBlank_congr (h : other.body.filter isInk = line.body.filter isInk) :
    isBlank other.cleaned = isBlank line.cleaned := by
  rw [Bool.eq_iff_iff, isBlank_iff_filter, isBlank_iff_filter, ink_cleaned, ink_cleaned, h]

theorem shadowsBlank_congr (h : other.body.filter isInk = line.body.filter isInk) :
    other.shadowsBlank = line.shadowsBlank := by
  rw [shadowsBlank, shadowsBlank, isBlank_congr h, endsWithChar, endsWithChar, getLast?_trimEnd,
    getLast?_trimEnd, ink_cleaned, ink_cleaned, h]

theorem touched_ofRaw (touched : Bool) (raw : Text) : (ofRaw touched raw).touched = touched := by
  obtain ⟨-, -, -, htouched, -⟩ := ofRaw_spec touched raw
  exact htouched

/-- A line that is not touched is written as it stands. -/
theorem written_ofRaw_false (raw : Text) : (ofRaw false raw).written = raw := by
  obtain ⟨ret, hraw, hwritten, -, -⟩ := ofRaw_spec false raw
  rw [hwritten, cleaned, touched_ofRaw, if_neg Bool.false_ne_true, ← hraw]

/-- A touched line that is written and touched again loses the padding before a
    carriage return at its end, and nothing else. -/
theorem written_again (htouched : line.touched = true) :
    (ofRaw true line.written).written = line.written.trimReturn := by
  rw [ofRaw, trimReturn]
  split
  · rfl
  · next hlast =>
    rw [written] at hlast
    split at hlast
    · exact absurd List.getLast?_concat hlast
    · next hreturn =>
      change dropPaddingEnd line.written = line.written
      rw [written, if_neg hreturn, cleaned, if_pos htouched, dropPaddingEnd_dropPaddingEnd]

end TidyLine

/-! ### The lines that stay -/

/-- The lines that tidying keeps, before they are written. -/
def keptLines (shadowed : Bool) : List TidyLine → List TidyLine
  | [] => []
  | line :: lines =>
    if line.touched && isBlank line.cleaned && shadowed && !lines.isEmpty then
      keptLines shadowed lines
    else line :: keptLines line.shadowsBlank lines

variable {shadowed : Bool}

/-- Tidying writes the lines that it keeps. -/
theorem tidyLines_eq (shadowed : Bool) (lines : List TidyLine) :
    tidyLines shadowed lines = (keptLines shadowed lines).map TidyLine.written := by
  induction lines generalizing shadowed with
  | nil => rfl
  | cons line lines ih =>
      rw [tidyLines, keptLines]
      split
      · exact ih shadowed
      · rw [List.map_cons, ih]

theorem keptLines_sublist (shadowed : Bool) (lines : List TidyLine) :
    (keptLines shadowed lines).Sublist lines := by
  induction lines generalizing shadowed with
  | nil => exact .slnil
  | cons line lines ih =>
      rw [keptLines]
      split
      · exact (ih shadowed).cons _
      · exact (ih _).cons_cons _

theorem keptLines_ne_nil {lines : List TidyLine} (h : lines ≠ []) : keptLines shadowed lines ≠ [] :=
  fun hnil => tidyLines_ne_nil h (by rw [tidyLines_eq, hnil, List.map_nil])

/-- Of the lines before others, some are kept, and all of their ink. -/
theorem exists_keptLines_append (before after : List TidyLine) (shadowed : Bool) :
    ∃ kept shadowed', kept.Sublist before
      ∧ keptLines shadowed (before ++ after) = kept ++ keptLines shadowed' after
      ∧ kept.flatMap (fun line => line.body.filter isInk)
        = before.flatMap fun line => line.body.filter isInk := by
  induction before generalizing shadowed with
  | nil => exact ⟨[], shadowed, .slnil, rfl, rfl⟩
  | cons line before ih =>
      rw [List.cons_append, keptLines]
      split
      · next hgone =>
        obtain ⟨kept, shadowed', hsublist, happend, hink⟩ := ih shadowed
        refine ⟨kept, shadowed', hsublist.cons _, happend, ?_⟩
        -- The line is blank.
        simp only [Bool.and_eq_true] at hgone
        have hnone := hgone.1.1.2
        rw [isBlank_iff_filter, TidyLine.ink_cleaned] at hnone
        rw [List.flatMap_cons, hnone, List.nil_append, hink]
      · obtain ⟨kept, shadowed', hsublist, happend, hink⟩ := ih line.shadowsBlank
        exact ⟨line :: kept, shadowed', hsublist.cons_cons _, by rw [happend]; rfl,
          by rw [List.flatMap_cons, List.flatMap_cons, hink]⟩

/-- Of a stretch of lines, some are kept, and as much ink stands before their
    place and their end as before those of the stretch. -/
theorem exists_kept_stretch (lines : List TidyLine) (start width : Nat) :
    ∃ before inside rest, keptLines false lines = before ++ inside ++ rest
      ∧ inside.Sublist ((lines.drop start).take width)
      ∧ before.flatMap (fun line => line.body.filter isInk)
        = (lines.take start).flatMap (fun line => line.body.filter isInk)
      ∧ (before ++ inside).flatMap (fun line => line.body.filter isInk)
        = (lines.take (start + width)).flatMap fun line => line.body.filter isInk := by
  obtain ⟨before, shadowed, -, hkept, hinkBefore⟩ :=
    exists_keptLines_append (lines.take start) (lines.drop start) false
  obtain ⟨inside, shadowed', hinside, hrest, hinkInside⟩ :=
    exists_keptLines_append ((lines.drop start).take width) ((lines.drop start).drop width) shadowed
  rw [List.take_append_drop] at hkept hrest
  exact ⟨before, inside, _, by rw [hkept, hrest, List.append_assoc], hinside, hinkBefore, by
    rw [List.flatMap_append, hinkBefore, hinkInside, List.take_add, List.flatMap_append]⟩

/-- A line that is tidied again: it has the ink it had, and is touched only if it
    was touched before. -/
def TidyLine.Again (line again : TidyLine) : Prop :=
  (again.touched = true → line.touched = true)
    ∧ again.body.filter isInk = line.body.filter isInk

/-- Of kept lines that are tidied again, all are kept. -/
theorem keptLines_again {lines again : List TidyLine}
    (h : List.Forall₂ TidyLine.Again (keptLines shadowed lines) again) :
    keptLines shadowed again = again := by
  induction lines generalizing shadowed again with
  | nil =>
      cases h
      rfl
  | cons line lines ih =>
      rw [keptLines] at h
      split at h
      · exact ih h
      · next hkept =>
        obtain ⟨other, rest, ⟨htouched, hink⟩, hrest, rfl⟩ := List.forall₂_cons_left_iff.1 h
        rw [keptLines, if_neg ?_, TidyLine.shadowsBlank_congr hink, ih hrest]
        -- The line would have gone before.
        rw [TidyLine.isBlank_congr hink]
        simp only [Bool.and_eq_true] at hkept ⊢
        rintro ⟨⟨⟨hother, hblank⟩, hshadowed⟩, hmore⟩
        refine hkept ⟨⟨⟨htouched hother, hblank⟩, hshadowed⟩, ?_⟩
        cases lines with
        | nil =>
            cases hrest
            exact hmore
        | cons => rfl

/-! ### Texts that are tidied again -/

/-- The lines of a text with the marks of those that the spans touch. -/
def Text.markedLines (text : Text) (spans : List Span) : List TidyLine :=
  (splitLines text).mapIdx fun n raw => .ofRaw (touchesLine (.ofText text) spans n) raw

variable {text : Text} {spans again : List Span}

theorem tidy_eq (text : Text) (spans : List Span) :
    tidy text spans
      = joinLines ((keptLines false (text.markedLines spans)).map TidyLine.written) := by
  rw [← tidyLines_eq]
  rfl

theorem markedLines_ne_nil (text : Text) (spans : List Span) : text.markedLines spans ≠ [] := by
  rw [Text.markedLines, Ne, List.mapIdx_eq_nil_iff]
  exact splitLines_ne_nil text

/-- The lines of a tidied text are those that are kept, as they are written. -/
theorem splitLines_tidy (text : Text) (spans : List Span) :
    splitLines (tidy text spans)
      = (keptLines false (text.markedLines spans)).map TidyLine.written := by
  rw [tidy_eq]
  refine splitLines_joinLines ?_ fun line hline => ?_
  · rw [Ne, List.map_eq_nil_iff]
    exact keptLines_ne_nil (markedLines_ne_nil text spans)
  · obtain ⟨kept, hkept, rfl⟩ := List.mem_map.1 hline
    obtain ⟨n, hn, rfl⟩ := List.mem_mapIdx.1 ((keptLines_sublist _ _).subset hkept)
    exact (TidyLine.written_spec _ (not_mem_of_mem_splitLines (List.getElem_mem hn))).1

/-- Where the lines that are touched again were touched before, none of them
    goes, and of each only the padding before a carriage return at its end. -/
theorem tidy_tidy_of_touched (h : ∀ n line,
    (keptLines false (text.markedLines spans))[n]? = some line →
      touchesLine (.ofText (tidy text spans)) again n = true → line.touched = true) :
    tidy (tidy text spans) again = joinLines ((splitLines (tidy text spans)).mapIdx fun n line =>
      if touchesLine (.ofText (tidy text spans)) again n then line.trimReturn else line) := by
  generalize hflags : touchesLine (.ofText (tidy text spans)) again = flags at h ⊢
  rw [tidy_eq _ again, Text.markedLines, hflags, splitLines_tidy]
  -- Line by line, what is tidied again stems from a line that was kept.
  have hagain : List.Forall₂ TidyLine.Again (keptLines false (text.markedLines spans))
      (((keptLines false (text.markedLines spans)).map TidyLine.written).mapIdx fun n raw =>
        .ofRaw (flags n) raw) := by
    refine List.forall₂_iff_get.2 ⟨by rw [List.length_mapIdx, List.length_map], fun n hn hn' => ?_⟩
    simp only [List.get_eq_getElem, List.getElem_mapIdx, List.getElem_map]
    refine ⟨fun htouched => ?_, ?_⟩
    · rw [TidyLine.touched_ofRaw] at htouched
      exact h n _ (List.getElem?_eq_getElem hn) htouched
    · rw [TidyLine.ink_ofRaw, TidyLine.ink_written]
  rw [keptLines_again hagain]
  congr 1
  -- No line goes, so the lines are compared one by one.
  refine List.ext_getElem (by simp only [List.length_map, List.length_mapIdx]) fun n hn hn' => ?_
  simp only [List.length_map, List.length_mapIdx] at hn
  simp only [List.getElem_mapIdx, List.getElem_map]
  cases hflag : flags n with
  | false => rw [TidyLine.written_ofRaw_false, if_neg Bool.false_ne_true]
  | true =>
      rw [TidyLine.written_again (h n _ (List.getElem?_eq_getElem hn) hflag), if_pos rfl]

/-! ### Spans between the same ink -/

/-- The number of characters of ink on the first lines. -/
def Text.inkUpTo (lines : List Text) (n : Nat) : Nat :=
  ((lines.take n).flatMap (List.filter isInk)).length

/-- More ink stands on more lines. -/
theorem Text.lt_of_inkUpTo_lt {lines : List Text} {m n : Nat}
    (h : inkUpTo lines m < inkUpTo lines n) : m < n := by
  refine Nat.lt_of_not_le fun hle => ?_
  obtain ⟨k, rfl⟩ := Nat.exists_eq_add_of_le hle
  rw [inkUpTo, inkUpTo, List.take_add, List.flatMap_append, List.length_append] at h
  omega

/-- Ink at the end of lines with their line feeds and a part of the next is on
    that part. -/
theorem Text.mem_of_ends {lines : List Text} {a core : Text} {c : Char}
    (h : lines.flatMap (· ++ ['\n']) ++ a = core ++ [c]) (hc : isInk c = true) : c ∈ a := by
  rcases List.eq_nil_or_concat a with rfl | ⟨more, d, rfl⟩
  · rcases List.eq_nil_or_concat lines with rfl | ⟨lines, line, rfl⟩
    · exact absurd h.symm (by simp only [List.append_eq_nil_iff, List.flatMap_nil,
        List.append_nil, reduceCtorEq, and_false, not_false_eq_true])
    · rw [List.concat_eq_append, List.append_nil, List.flatMap_append, List.flatMap_singleton,
        ← List.append_assoc, List.append_singleton_inj] at h
      rw [← h.2] at hc
      exact absurd hc (by decide)
  · rw [List.concat_eq_append, ← List.append_assoc, List.append_singleton_inj] at h
    rw [List.concat_eq_append, h.2]
    exact List.mem_concat_self

/-- Ink at the start of a part of a line and what breaks off there is on that part. -/
theorem Text.mem_of_begins {b tail rest : Text} {c : Char} (h : b ++ tail = c :: rest)
    (htail : BreaksOff tail) (hc : isInk c = true) : c ∈ b := by
  cases b with
  | nil =>
      rcases htail with rfl | ⟨more, rfl⟩
      · exact absurd h (List.cons_ne_nil _ _).symm
      · rw [List.nil_append, List.cons.injEq] at h
        rw [← h.1] at hc
        exact absurd hc (by decide)
  | cons d b =>
      rw [List.cons_append, List.cons.injEq] at h
      exact h.1 ▸ List.mem_cons_self

/-- The ink before a cut is that of the lines before the line of the cut, and
    some of that line: not none behind ink, and not all before ink. -/
theorem Text.inkUpTo_cut {text p q : Text} (h : text = p ++ q) :
    inkUpTo (splitLines text) (p.count '\n') ≤ (p.filter isInk).length
      ∧ (p.filter isInk).length ≤ inkUpTo (splitLines text) (p.count '\n' + 1)
      ∧ ((∃ core c, p = core ++ [c] ∧ isInk c = true) →
        inkUpTo (splitLines text) (p.count '\n') < (p.filter isInk).length)
      ∧ ((∃ c rest, q = c :: rest ∧ isInk c = true) →
        (p.filter isInk).length < inkUpTo (splitLines text) (p.count '\n' + 1)) := by
  obtain ⟨before, a, b, after, tail, hlines, rfl, rfl, htail, hlength⟩ :=
    exists_cut_joinLines (splitLines_ne_nil text) (fun line => not_mem_of_mem_splitLines)
      ((joinLines_splitLines text).trans h)
  have hbefore : (before ++ (a ++ b) :: after).take before.length = before := List.take_left
  have hline : (before ++ (a ++ b) :: after).take (before.length + 1) = before ++ [a ++ b] := by
    rw [List.take_length_add_append, List.take_succ_cons, List.take_zero]
  simp only [inkUpTo, hlines, ← hlength, hbefore, hline, List.flatMap_append,
    List.flatMap_singleton, List.filter_append, filter_flatMap_feeds, List.length_append]
  refine ⟨by omega, by omega, ?_, ?_⟩
  · rintro ⟨core, c, hcore, hc⟩
    have hpos := List.length_pos_of_mem (List.mem_filter.2 ⟨mem_of_ends hcore hc, hc⟩)
    omega
  · rintro ⟨c, rest, hrest, hc⟩
    have hpos := List.length_pos_of_mem (List.mem_filter.2 ⟨mem_of_begins hrest htail hc, hc⟩)
    omega

/-- The marks are no ink. -/
theorem ink_markedLines (text : Text) (spans : List Span) (n : Nat) :
    (((text.markedLines spans).take n).flatMap fun line => line.body.filter isInk).length
      = inkUpTo (splitLines text) n := by
  have hmap : (text.markedLines spans).map (fun line => line.body.filter isInk)
      = (splitLines text).map (List.filter isInk) := by
    refine List.ext_getElem (by simp only [Text.markedLines, List.length_map, List.length_mapIdx])
      fun m hm hm' => ?_
    simp only [Text.markedLines, List.getElem_map, List.getElem_mapIdx, TidyLine.ink_ofRaw]
  rw [Text.inkUpTo, List.flatMap_def, List.flatMap_def, List.map_take, List.map_take, hmap]

theorem inkUpTo_written (lines : List TidyLine) (n : Nat) :
    inkUpTo (lines.map TidyLine.written) n
      = ((lines.take n).flatMap fun line => line.body.filter isInk).length := by
  simp only [inkUpTo, ← List.map_take, List.flatMap_map, TidyLine.ink_written]

/-- The spans of the two texts stand between the same ink, the first of them
    behind ink and before ink. -/
def Text.SameInk (text after : Text) (span again : Span) : Prop :=
  ∃ a mid b a' mid' b', text = a ++ mid ++ b ∧ span = ⟨size a, size (a ++ mid)⟩
    ∧ after = a' ++ mid' ++ b' ∧ again = ⟨size a', size (a' ++ mid')⟩
    ∧ (∃ core c, a = core ++ [c] ∧ isInk c = true) ∧ (∃ c rest, b = c :: rest ∧ isInk c = true)
    ∧ a'.filter isInk = a.filter isInk ∧ (a' ++ mid').filter isInk = (a ++ mid).filter isInk

/-- The lines from one on, as many as a span touches, are touched. -/
theorem touched_of_mem_markedLines {span : Span} (hspan : span ∈ spans) {start width : Nat}
    (hstart : (LineTable.ofText text).line span.start ≤ start)
    (hstop : start + width ≤ (LineTable.ofText text).line span.stop + 1) {line : TidyLine}
    (hline : line ∈ ((text.markedLines spans).drop start).take width) : line.touched = true := by
  obtain ⟨n, hn, rfl⟩ := List.mem_iff_getElem.1 hline
  rw [List.length_take] at hn
  simp only [List.getElem_take, List.getElem_drop, Text.markedLines, List.getElem_mapIdx,
    TidyLine.touched_ofRaw, touchesLine, List.any_eq_true]
  refine ⟨span, hspan, ?_⟩
  rw [Bool.and_eq_true, decide_eq_true_eq, decide_eq_true_eq]
  omega

/-- A kept line that a span touches was touched before, if a span between the
    same ink touched lines then. -/
theorem touched_of_sameInk {span second : Span} (hspan : span ∈ spans)
    (h : text.SameInk (tidy text spans) span second) {n : Nat} {line : TidyLine}
    (hline : (keptLines false (text.markedLines spans))[n]? = some line)
    (hfrom : (LineTable.ofText (tidy text spans)).line second.start ≤ n)
    (hto : n ≤ (LineTable.ofText (tidy text spans)).line second.stop) : line.touched = true := by
  obtain ⟨a, mid, b, a', mid', b', htext, rfl, hafter, rfl, hbehind, hbefore, hstart, hstop⟩ := h
  obtain ⟨-, -, hfirst, -⟩ := Text.inkUpTo_cut (htext.trans (List.append_assoc a mid b))
  obtain ⟨-, -, -, hlast⟩ := Text.inkUpTo_cut htext
  obtain ⟨-, hfirst', -, -⟩ := Text.inkUpTo_cut (hafter.trans (List.append_assoc a' mid' b'))
  obtain ⟨hlast', -, -, -⟩ := Text.inkUpTo_cut hafter
  replace hfirst := hfirst hbehind
  replace hlast := hlast hbefore
  rw [hstart] at hfirst'
  rw [hstop] at hlast'
  have hstartLine {text a mid b : Text} (h : text = a ++ mid ++ b) :
      (LineTable.ofText text).line (size a) = a.count '\n' := by
    rw [h, List.append_assoc, LineTable.line_cut]
  have hstopLine {text a mid b : Text} (h : text = a ++ mid ++ b) :
      (LineTable.ofText text).line (size (a ++ mid)) = (a ++ mid).count '\n' := by
    rw [h, LineTable.line_cut]
  simp only [hstartLine hafter] at hfrom
  simp only [hstopLine hafter] at hto
  obtain ⟨width, hwidth⟩ : ∃ width, (a ++ mid).count '\n' + 1 = a.count '\n' + width :=
    Nat.exists_eq_add_of_le (by rw [List.count_append]; omega)
  -- The kept lines fall into those before the span, those that it touches, and the others.
  obtain ⟨before, inside, rest, hkept, hinside, hinkBefore, hinkInside⟩ :=
    exists_kept_stretch (text.markedLines spans) (a.count '\n') width
  rw [splitLines_tidy, hkept] at hfirst' hlast'
  have hinkAll : inkUpTo ((before ++ inside ++ rest).map TidyLine.written) before.length
      = inkUpTo (splitLines text) (a.count '\n') := by
    rw [inkUpTo_written, List.append_assoc, List.take_left, hinkBefore, ink_markedLines]
  have hinkBoth : inkUpTo ((before ++ inside ++ rest).map TidyLine.written)
      (before ++ inside).length = inkUpTo (splitLines text) ((a ++ mid).count '\n' + 1) := by
    rw [inkUpTo_written, List.take_left, hinkInside, ← hwidth, ink_markedLines]
  have hfromBefore : before.length < a'.count '\n' + 1 :=
    Text.lt_of_inkUpTo_lt (hinkAll ▸ Nat.lt_of_lt_of_le hfirst hfirst')
  have htoInside : (a' ++ mid').count '\n' < (before ++ inside).length :=
    Text.lt_of_inkUpTo_lt (hinkBoth ▸ Nat.lt_of_le_of_lt hlast' hlast)
  rw [hkept, List.getElem?_append_left (by omega),
    List.getElem?_append_right (by omega)] at hline
  refine touched_of_mem_markedLines hspan ?_ ?_ (hinside.subset (List.mem_of_getElem? hline))
  · exact Nat.le_of_eq (hstartLine htext)
  · simp only [hstopLine htext]
    omega

/-- A tidied text that is tidied again, along spans between the same ink as
    those of the first time: no line goes, and no touched one loses anything but
    the padding before a carriage return at its end. -/
theorem tidy_tidy (h : ∀ second ∈ again, ∃ span ∈ spans,
    text.SameInk (tidy text spans) span second) :
    tidy (tidy text spans) again = joinLines ((splitLines (tidy text spans)).mapIdx fun n line =>
      if touchesLine (.ofText (tidy text spans)) again n then line.trimReturn else line) := by
  refine tidy_tidy_of_touched fun n line hline htouched => ?_
  obtain ⟨second, hsecond, hlines⟩ := List.any_eq_true.1 htouched
  rw [Bool.and_eq_true, decide_eq_true_eq, decide_eq_true_eq] at hlines
  obtain ⟨span, hspan, hsame⟩ := h second hsecond
  exact touched_of_sameInk hspan hsame hline hlines.1 hlines.2

/-- Where no line has padding before its carriage return, all lines stay as they
    are. -/
theorem joinLines_trimReturn {text : Text} (h : ∀ line ∈ splitLines text, line.trimReturn = line)
    (touched : Nat → Bool) :
    joinLines ((splitLines text).mapIdx fun n line => if touched n then line.trimReturn else line)
      = text := by
  have hsame : ((splitLines text).mapIdx fun n line =>
      if touched n then line.trimReturn else line) = splitLines text :=
    List.ext_getElem List.length_mapIdx fun n hn hn' => by
      rw [List.getElem_mapIdx, h _ (List.getElem_mem hn'), ite_self]
  rw [hsame, joinLines_splitLines]

end SharpLint

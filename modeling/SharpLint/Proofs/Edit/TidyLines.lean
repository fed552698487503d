import SharpLint.Proofs.Edit.TidyAgain

/-!
# Tidying Line by Line

Tidying takes no more than white space from a text, and only from lines that an
edit touched. Each line either stays, without its padding if it was touched, or
goes as a whole. Nothing else happens to the lines: those that stay keep their
order, and none comes in.

Whether a line goes depends on the lines before it, but only through the nearest
one that stays. So the lines that stay are told by their numbers, and a line goes
exactly if it is touched, blank, not the last, and stands behind a line that
makes it superfluous. Such a line is blank itself, or its last ink is an opening
brace. White space may stand behind the brace: a line that was not touched keeps
the padding at its end, and opens a block all the same.

## Main definitions

* `Text.Unpadded`: a line without the padding before its terminator.
* `Text.Shadows`: a line that makes a blank one behind it superfluous.
* `Superfluous`: a line that has no need to stay.
* `TidiedLines`: what tidying may make of lines.
* `Text.TouchedBy`: the lines of a text that spans touch.

## Theorems

* `Text.shadows_congr`: Whether a line shadows is told by its ink.
* `keptLines_eq`: The lines that stay are those of the numbers that stay.
* `not_mem_keptNumbers_iff`: Which numbers do not stay.
* `touchesLine_iff`: Which lines are touched.
* `not_mem_kept_iff`: Which lines of a text do not stay.
* `tidy_by_lines`: What tidying makes of the lines of a text.
* `blank_line_goes_below_padded_brace`: A brace at the very end of a line is not
  all that makes a blank line superfluous.
-/

namespace SharpLint

open Text

namespace Text

/-- `out` is the line without the padding before its terminator. Of the
    terminator, only a carriage return at the end of the line stands in it. -/
def Unpadded (line out : Text) : Prop :=
  ∃ core pad ret, line = core ++ pad ++ ret ∧ out = core ++ ret
    ∧ (∀ c ∈ pad, isPadding c = true) ∧ (∀ c, core.getLast? = some c → isPadding c = false)
    ∧ (ret = ['\r'] ∨ ret = [] ∧ line.getLast? ≠ some '\r')

/-- Nothing but blanks stands behind the last opening brace of the line. -/
def OpensBlock (line : Text) : Prop :=
  ∃ core blanks : Text, line = core ++ '{' :: blanks ∧ blanks.isBlank = true

/-- The line makes a blank line behind it superfluous. -/
def Shadows (line : Text) : Prop :=
  line.isBlank = true ∨ line.OpensBlock

/-- The brace is the last ink of the line. -/
theorem opensBlock_iff_filter {line : Text} :
    line.OpensBlock ↔ (line.filter isInk).getLast? = some '{' := by
  have hbrace : isInk '{' = true := by decide
  constructor
  · rintro ⟨core, blanks, rfl, hblank⟩
    rw [List.filter_append, List.filter_cons_of_pos hbrace, isBlank_iff_filter.1 hblank,
      List.getLast?_concat]
  · intro hlast
    rw [← getLast?_trimEnd] at hlast
    obtain ⟨core, hcore⟩ := List.getLast?_eq_some_iff.1 hlast
    obtain ⟨blanks, hline, hblank, -⟩ := exists_dropEndWhile isBlankChar line
    refine ⟨core, blanks, ?_, List.all_eq_true.2 hblank⟩
    rw [hline, ← trimEnd, hcore, List.append_assoc, List.singleton_append]

/-- Whether a line shadows the next is told by its ink. -/
theorem shadows_congr {line other : Text} (h : other.filter isInk = line.filter isInk) :
    other.Shadows ↔ line.Shadows := by
  rw [Shadows, Shadows, isBlank_iff_filter, isBlank_iff_filter, opensBlock_iff_filter,
    opensBlock_iff_filter, h]

end Text

namespace TidyLine

variable {line : TidyLine}

theorem shadowsBlank_iff : line.shadowsBlank = true ↔ line.body.Shadows := by
  have hbrace : endsWithChar (trimEnd line.cleaned) '{' = true ↔ line.cleaned.OpensBlock := by
    rw [endsWithChar, beq_iff_eq, getLast?_trimEnd, opensBlock_iff_filter]
  rw [shadowsBlank, Bool.or_eq_true, hbrace]
  exact shadows_congr line.ink_cleaned

/-- A touched line is written without its padding. -/
theorem unpadded_written (raw : Text) : raw.Unpadded (ofRaw true raw).written := by
  obtain ⟨ret, hraw, hwritten, htouched, hret⟩ := ofRaw_spec true raw
  obtain ⟨pad, hbody, hpad, hlast⟩ := exists_dropPaddingEnd (ofRaw true raw).body
  rw [cleaned, htouched, if_pos rfl] at hwritten
  refine ⟨_, pad, ret, by rwa [← hbody], hwritten, hpad, fun c hc => ?_, hret⟩
  obtain ⟨core, hcore⟩ := List.getLast?_eq_some_iff.1 hc
  exact hlast core c hcore

end TidyLine

/-! ### The numbers of the lines that stay -/

/-- `m` is the last of the numbers before `n`. -/
def LastBefore (numbers : List Nat) (n m : Nat) : Prop :=
  m ∈ numbers ∧ m < n ∧ ∀ k ∈ numbers, k < n → k ≤ m

/-- The numbers of the lines that tidying keeps. -/
def keptNumbers (shadowed : Bool) : List TidyLine → List Nat
  | [] => []
  | line :: lines =>
    if line.touched && isBlank line.cleaned && shadowed && !lines.isEmpty then
      (keptNumbers shadowed lines).map Nat.succ
    else 0 :: (keptNumbers line.shadowsBlank lines).map Nat.succ

section Numbers

variable {numbers : List Nat} {n m : Nat}

theorem succ_mem_map_succ : n + 1 ∈ numbers.map Nat.succ ↔ n ∈ numbers :=
  List.mem_map_of_injective fun _ _ => Nat.succ.inj

theorem lastBefore_map_succ :
    LastBefore (numbers.map Nat.succ) (n + 1) (m + 1) ↔ LastBefore numbers n m := by
  simp only [LastBefore, succ_mem_map_succ, List.forall_mem_map, Nat.succ_lt_succ_iff,
    Nat.succ_le_succ_iff]

end Numbers

/-- The nearest line before number `n` that stays makes a blank one superfluous.
    Where none stays before it, `shadowed` tells. -/
def ShadowedAt (shadowed : Bool) (lines : List TidyLine) (numbers : List Nat) (n : Nat) : Prop :=
  (shadowed = true ∧ ∀ k ∈ numbers, n ≤ k)
    ∨ ∃ m before, LastBefore numbers n m ∧ lines[m]? = some before ∧ before.shadowsBlank = true

section Shadows

variable {shadowed : Bool} {first : TidyLine} {lines : List TidyLine} {numbers : List Nat}
  {n m : Nat}

theorem lastBefore_zero_cons :
    LastBefore (0 :: numbers.map Nat.succ) (n + 1) (m + 1) ↔ LastBefore numbers n m := by
  have hzero : m + 1 ∈ 0 :: numbers.map Nat.succ ↔ m + 1 ∈ numbers.map Nat.succ := by
    simp only [List.mem_cons, Nat.add_eq_zero_iff, Nat.one_ne_zero, and_false, false_or]
  refine Iff.trans ?_ lastBefore_map_succ
  rw [LastBefore, LastBefore, hzero, List.forall_mem_cons]
  simp only [Nat.zero_lt_succ, Nat.zero_le, forall_true_left, true_and]

/-- Number zero is the last before those that none comes before. -/
theorem lastBefore_zero :
    LastBefore (0 :: numbers.map Nat.succ) (n + 1) 0 ↔ ∀ k ∈ numbers, n ≤ k := by
  simp only [LastBefore, List.mem_cons_self, Nat.zero_lt_succ, List.forall_mem_cons,
    List.forall_mem_map, Nat.le_refl, true_and, forall_true_left, Nat.succ_eq_add_one]
  refine forall₂_congr fun k _ => ?_
  omega

/-- Where the first line goes, the others stand as if it had not been there. -/
theorem shadowedAt_of_gone :
    ShadowedAt shadowed (first :: lines) (numbers.map Nat.succ) (n + 1)
      ↔ ShadowedAt shadowed lines numbers n := by
  constructor
  · rintro (⟨hshadowed, hnone⟩ | ⟨m, before, hlast, hbefore, hshadows⟩)
    · exact .inl ⟨hshadowed, fun k hk =>
        Nat.le_of_succ_le_succ (hnone (k + 1) (succ_mem_map_succ.2 hk))⟩
    · cases m with
      | zero =>
          obtain ⟨k, -, hk⟩ := List.mem_map.1 hlast.1
          exact absurd hk (Nat.succ_ne_zero k)
      | succ m => exact .inr ⟨m, before, lastBefore_map_succ.1 hlast, hbefore, hshadows⟩
  · rintro (⟨hshadowed, hnone⟩ | ⟨m, before, hlast, hbefore, hshadows⟩)
    · refine .inl ⟨hshadowed, fun k hk => ?_⟩
      obtain ⟨j, hj, rfl⟩ := List.mem_map.1 hk
      exact Nat.succ_le_succ (hnone j hj)
    · exact .inr ⟨m + 1, before, lastBefore_map_succ.2 hlast, hbefore, hshadows⟩

/-- Where the first line stays, it tells for those behind it. -/
theorem shadowedAt_of_kept :
    ShadowedAt shadowed (first :: lines) (0 :: numbers.map Nat.succ) (n + 1)
      ↔ ShadowedAt first.shadowsBlank lines numbers n := by
  constructor
  · rintro (⟨-, hnone⟩ | ⟨m, before, hlast, hbefore, hshadows⟩)
    · exact absurd (hnone 0 List.mem_cons_self) (Nat.not_succ_le_zero n)
    · cases m with
      | zero =>
          rw [List.getElem?_cons_zero, Option.some.injEq] at hbefore
          exact .inl ⟨hbefore ▸ hshadows, lastBefore_zero.1 hlast⟩
      | succ m => exact .inr ⟨m, before, lastBefore_zero_cons.1 hlast, hbefore, hshadows⟩
  · rintro (⟨hshadows, hnone⟩ | ⟨m, before, hlast, hbefore, hshadows⟩)
    · exact .inr ⟨0, first, lastBefore_zero.2 hnone, rfl, hshadows⟩
    · exact .inr ⟨m + 1, before, lastBefore_zero_cons.2 hlast, hbefore, hshadows⟩

theorem keptNumbers_sublist (shadowed : Bool) (lines : List TidyLine) :
    (keptNumbers shadowed lines).Sublist (List.range lines.length) := by
  induction lines generalizing shadowed with
  | nil => exact .slnil
  | cons line lines ih =>
      rw [keptNumbers, List.length_cons, List.range_succ_eq_map]
      split
      · exact ((ih shadowed).map Nat.succ).cons 0
      · exact ((ih _).map Nat.succ).cons_cons 0

/-- The lines that stay are those of the numbers that stay. -/
theorem keptLines_eq (shadowed : Bool) (lines : List TidyLine) :
    List.Forall₂ (fun n line => lines[n]? = some line) (keptNumbers shadowed lines)
      (keptLines shadowed lines) := by
  induction lines generalizing shadowed with
  | nil => exact .nil
  | cons line lines ih =>
      rw [keptNumbers, keptLines]
      split
      · exact List.forall₂_map_left_iff.2 (ih shadowed)
      · exact .cons rfl (List.forall₂_map_left_iff.2 (ih _))

/-- Which numbers do not stay: those of touched blank lines with others behind
    them, where the line before makes them superfluous. -/
theorem not_mem_keptNumbers_iff {line : TidyLine} (hline : lines[n]? = some line) :
    n ∉ keptNumbers shadowed lines ↔ line.touched = true ∧ isBlank line.cleaned = true
      ∧ n + 1 < lines.length ∧ ShadowedAt shadowed lines (keptNumbers shadowed lines) n := by
  induction lines generalizing shadowed n with
  | nil => exact absurd hline (by simp only [List.getElem?_nil, reduceCtorEq, not_false_eq_true])
  | cons first lines ih =>
      rw [keptNumbers, List.length_cons]
      split
      · next hgone =>
        simp only [Bool.and_eq_true, Bool.not_eq_true', List.isEmpty_eq_false_iff] at hgone
        obtain ⟨⟨⟨htouched, hblank⟩, hshadowed⟩, hmore⟩ := hgone
        -- The first line goes, and the others keep their state.
        cases n with
        | zero =>
            rw [List.getElem?_cons_zero, Option.some.injEq] at hline
            subst hline
            have hlength := List.length_pos_iff.2 hmore
            refine iff_of_true (fun hmem => ?_) ⟨htouched, hblank, by omega,
              .inl ⟨hshadowed, fun _ _ => Nat.zero_le _⟩⟩
            obtain ⟨k, -, hk⟩ := List.mem_map.1 hmem
            exact Nat.succ_ne_zero k hk
        | succ n =>
            rw [List.getElem?_cons_succ] at hline
            rw [succ_mem_map_succ, ih hline, shadowedAt_of_gone, Nat.add_lt_add_iff_right]
      · next hkept =>
        -- The first line stays, and is the state of the others.
        cases n with
        | zero =>
            rw [List.getElem?_cons_zero, Option.some.injEq] at hline
            subst hline
            refine iff_of_false (fun hnot => hnot List.mem_cons_self) ?_
            rintro ⟨htouched, hblank, hlength, ⟨hshadowed, -⟩ | ⟨m, -, hlast, -⟩⟩
            · refine hkept ?_
              rw [htouched, hblank, hshadowed, Bool.and_self, Bool.and_self, Bool.true_and,
                Bool.not_eq_true', List.isEmpty_eq_false_iff]
              exact List.ne_nil_of_length_pos (by omega)
            · exact Nat.not_lt_zero m hlast.2.1
        | succ n =>
            rw [List.getElem?_cons_succ] at hline
            have hmem : n + 1 ∈ 0 :: (keptNumbers first.shadowsBlank lines).map Nat.succ
                ↔ n ∈ keptNumbers first.shadowsBlank lines := by
              rw [List.mem_cons, succ_mem_map_succ]
              exact or_iff_right (Nat.succ_ne_zero n)
            rw [hmem, ih hline, shadowedAt_of_kept, Nat.add_lt_add_iff_right]

end Shadows

/-! ### Lines of texts -/

/-- Line `n` has no need to stay: it is touched, blank and not the last, and the
    nearest line before it that stays `shadows` it. -/
structure Superfluous (shadows : Text → Prop) (touched : Nat → Prop) (lines : List Text)
    (kept : List Nat) (n : Nat) : Prop where
  touched : touched n
  notLast : n + 1 < lines.length
  blank : ∀ line, lines[n]? = some line → line.isBlank = true
  shadowed : ∃ m before, LastBefore kept n m ∧ lines[m]? = some before ∧ shadows before

/-- What tidying may make of lines, where those in `kept` stay. -/
structure TidiedLines (shadows : Text → Prop) (touched : Nat → Prop) (lines left : List Text)
    (kept : List Nat) : Prop where
  /-- The lines that stay are some of the lines, in order. -/
  inOrder : kept.Sublist (List.range lines.length)
  /-- A touched line stays without its padding, and another one as it is. -/
  stays : List.Forall₂ (fun n out => ∃ line, lines[n]? = some line
    ∧ (touched n → line.Unpadded out) ∧ (¬touched n → out = line)) kept left
  goes : ∀ n < lines.length, n ∉ kept → Superfluous shadows touched lines kept n

/-- The spans touch line `n`: it is not before the line where one of them starts, nor
    behind the line where that one stops. An offset is on the line of the first
    character that does not end at or before it, and on the last line past the end. -/
def Text.TouchedBy (text : Text) (spans : List Span) (n : Nat) : Prop :=
  ∃ span ∈ spans, (text.upTo span.start).count '\n' ≤ n ∧ n ≤ (text.upTo span.stop).count '\n'

theorem touchesLine_iff {text : Text} {spans : List Span} {n : Nat} :
    touchesLine (.ofText text) spans n = true ↔ text.TouchedBy spans n := by
  simp only [touchesLine, List.any_eq_true, Bool.and_eq_true, decide_eq_true_eq, LineTable.line_eq,
    Text.TouchedBy]

/-- A line of a text with the mark that the spans give it. -/
theorem markedLines_getElem? {text : Text} {spans : List Span} {n : Nat} {line : TidyLine} :
    (text.markedLines spans)[n]? = some line ↔ ∃ raw, (splitLines text)[n]? = some raw
      ∧ line = .ofRaw (touchesLine (.ofText text) spans n) raw := by
  rw [Text.markedLines, List.getElem?_mapIdx, Option.map_eq_some_iff]
  simp only [eq_comm]

/-- A line does not stay exactly if it is superfluous. -/
theorem not_mem_kept_iff {text line : Text} {spans : List Span} {n : Nat}
    (hline : (splitLines text)[n]? = some line) :
    n ∉ keptNumbers false (text.markedLines spans)
      ↔ Superfluous Shadows (text.TouchedBy spans) (splitLines text)
        (keptNumbers false (text.markedLines spans)) n := by
  have hlength : (text.markedLines spans).length = (splitLines text).length := List.length_mapIdx
  have hblank : isBlank (TidyLine.ofRaw (touchesLine (.ofText text) spans n) line).cleaned = true
      ↔ line.isBlank = true := by
    rw [isBlank_iff_filter, isBlank_iff_filter, TidyLine.ink_cleaned, TidyLine.ink_ofRaw]
  rw [not_mem_keptNumbers_iff (markedLines_getElem?.2 ⟨line, hline, rfl⟩), TidyLine.touched_ofRaw,
    touchesLine_iff, hblank, hlength]
  constructor
  · rintro ⟨htouched, hblank, hlast, ⟨hfalse, -⟩ | ⟨m, before, hbefore, hm, hshadows⟩⟩
    · -- Nothing stands before the first line.
      exact absurd hfalse Bool.false_ne_true
    · obtain ⟨raw, hraw, rfl⟩ := markedLines_getElem?.1 hm
      refine ⟨htouched, hlast, fun other hother => ?_, m, raw, hbefore, hraw, ?_⟩
      · rw [hline, Option.some.injEq] at hother
        exact hother ▸ hblank
      · exact (shadows_congr (TidyLine.ink_ofRaw _ raw)).1 (TidyLine.shadowsBlank_iff.1 hshadows)
  · rintro ⟨htouched, hlast, hblank, m, raw, hbefore, hraw, hshadows⟩
    exact ⟨htouched, hblank line hline, hlast, .inr ⟨m, _, hbefore,
      markedLines_getElem?.2 ⟨raw, hraw, rfl⟩,
      TidyLine.shadowsBlank_iff.2 ((shadows_congr (TidyLine.ink_ofRaw _ raw)).2 hshadows)⟩⟩

/-- Tidying keeps all lines but touched blank ones, which go exactly where the
    nearest line before them that stays is blank or opens a block, unless they are
    the last. Of the lines that stay, touched ones lose their padding, and the
    others stay byte for byte. -/
theorem tidy_by_lines (text : Text) (spans : List Span) :
    ∃ kept, TidiedLines Shadows (text.TouchedBy spans) (splitLines text)
        (splitLines (tidy text spans)) kept
      ∧ ∀ n, Superfluous Shadows (text.TouchedBy spans) (splitLines text) kept n → n ∉ kept := by
  have hlength : (text.markedLines spans).length = (splitLines text).length := List.length_mapIdx
  refine ⟨keptNumbers false (text.markedLines spans), ⟨?_, ?_, fun n hn hnot => ?_⟩,
    fun n hsuperfluous => ?_⟩
  · rw [← hlength]
    exact keptNumbers_sublist false _
  · rw [splitLines_tidy, List.forall₂_map_right_iff]
    refine (keptLines_eq false _).imp fun n line hline => ?_
    obtain ⟨raw, hraw, rfl⟩ := markedLines_getElem?.1 hline
    refine ⟨raw, hraw, fun htouched => ?_, fun huntouched => ?_⟩
    · rw [touchesLine_iff.2 htouched]
      exact TidyLine.unpadded_written raw
    · rw [← touchesLine_iff, Bool.not_eq_true] at huntouched
      rw [huntouched, TidyLine.written_ofRaw_false]
  · exact (not_mem_kept_iff (List.getElem?_eq_getElem hn)).1 hnot
  · have hn := Nat.lt_of_succ_lt hsuperfluous.notLast
    exact (not_mem_kept_iff (List.getElem?_eq_getElem hn)).2 hsuperfluous

/-- The last character of the line before its terminator is an opening brace. -/
def Text.EndsInBrace (line : Text) : Prop :=
  ∃ core ret, line = core ++ '{' :: ret ∧ (ret = [] ∨ ret = ['\r'])

/-- A line that opens a block, with padding behind its brace, and a blank line. -/
def paddedBraceText : Text :=
  "\x7b \n\nx".toList

/-- The blank line below goes, though the line before it that stays is neither
    blank nor ends in the brace. -/
theorem blank_line_goes_below_padded_brace :
    ¬∃ kept, TidiedLines (fun line => line.isBlank = true ∨ line.EndsInBrace)
      (paddedBraceText.TouchedBy [⟨3, 3⟩]) (splitLines paddedBraceText)
      (splitLines (tidy paddedBraceText [⟨3, 3⟩])) kept := by
  rintro ⟨kept, -, hstays, hgoes⟩
  have hlines : splitLines paddedBraceText = ["\x7b ".toList, [], "x".toList] := by decide
  have hleft : splitLines (tidy paddedBraceText [⟨3, 3⟩]) = ["\x7b ".toList, "x".toList] := by
    decide
  rw [hleft, hlines] at hstays
  rw [hlines] at hgoes
  by_cases hmem : 1 ∈ kept
  · -- An empty line is left of the blank one, but no line that is left is empty.
    obtain ⟨i, hi, hget⟩ := List.getElem_of_mem hmem
    obtain ⟨hlength, hstays⟩ := List.forall₂_iff_get.1 hstays
    obtain ⟨line, hline, hunpadded, -⟩ := hstays i hi (hlength ▸ hi)
    rw [List.get_eq_getElem, hget] at hline
    rw [List.get_eq_getElem, hget] at hunpadded
    obtain rfl : [] = line := Option.some.inj hline
    obtain ⟨core, pad, ret, hnil, hout, -⟩ := hunpadded (touchesLine_iff.1 (by decide))
    obtain ⟨hcore, rfl⟩ := List.append_eq_nil_iff.1 hnil.symm
    rw [(List.append_eq_nil_iff.1 hcore).1] at hout
    have hempty : [] ∈ ["\x7b ".toList, "x".toList] := List.mem_of_getElem hout
    exact absurd hempty (by decide)
  · -- The line before the blank one is the first, with white space behind its brace.
    obtain ⟨-, -, -, m, before, ⟨-, hm, -⟩, hbefore, hshadows⟩ := hgoes 1 (by decide) hmem
    obtain rfl : m = 0 := Nat.lt_one_iff.1 hm
    obtain rfl : "\x7b ".toList = before := Option.some.inj hbefore
    rcases hshadows with hblank | ⟨core, ret, hcore, hret⟩
    · exact absurd hblank (by decide)
    · have hlast := congrArg List.getLast? hcore
      rcases hret with rfl | rfl
      · rw [List.getLast?_concat] at hlast
        exact absurd hlast (by decide)
      · rw [List.append_cons, List.getLast?_concat] at hlast
        exact absurd hlast (by decide)

end SharpLint

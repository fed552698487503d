import SharpLint.Edit.Tidy
import SharpLint.Proofs.Text.Breaks
import SharpLint.Proofs.Text.Ink

/-!
# What Tidying Leaves

Tidying goes through a text character by character: padding at the end of a
touched line goes in any case, a touched blank line may go as a whole, and
nothing else does. So ink is never lost, and a text without touched lines is
left as it is.

## Main definitions

* `Text.trails`: whether a character is padding at the end of its line.
* `Text.onBlankLine`: whether a place is on a blank line.
* `Tidied`: a text and what tidying may leave of it.

## Theorems

* `Tidied.append`: What is tidied part by part is tidied.
* `Tidied.ink`: Tidying keeps the ink.
* `Tidied.keeps`: What neither trails nor is on a blank line stays.
* `tidied_tidy`: What tidying leaves of a text.
-/

namespace SharpLint

namespace Text

/-- Whether the text is empty or begins with the end of a line. -/
def endsLine : Text → Bool
  | [] => true
  | c :: rest => c == '\n' || (c == '\r' && (rest.isEmpty || rest.head? == some '\n'))

/-- Whether the character is padding at the end of its line. -/
def trails (c : Char) (after : Text) : Bool :=
  isPadding c && endsLine (after.dropWhile isPadding)

/-- What stands on the last line of the text. -/
def lastLine (before : Text) : Text :=
  (before.reverse.takeWhile (· != '\n')).reverse

/-- What stands on the first line of the text. -/
def firstLine (after : Text) : Text :=
  after.takeWhile (· != '\n')

/-- Whether the place between the two texts lies on a blank line. -/
def onBlankLine (before after : Text) : Bool :=
  (lastLine before).isBlank && (firstLine after).isBlank

theorem firstLine_append {q : Text} (hq : '\n' ∉ q) (after : Text) :
    firstLine (q ++ after) = q ++ firstLine after := by
  rw [firstLine, List.takeWhile_append_of_pos fun c hc => ?_, firstLine]
  rw [bne_iff_ne]
  rintro rfl
  exact hq hc

theorem lastLine_append {q : Text} (hq : '\n' ∉ q) (before : Text) :
    lastLine (before ++ q) = lastLine before ++ q := by
  rw [lastLine, List.reverse_append, List.takeWhile_append_of_pos fun c hc => ?_, lastLine,
    List.reverse_append, List.reverse_reverse]
  rw [bne_iff_ne]
  rintro rfl
  exact hq (List.mem_reverse.1 hc)

theorem lastLine_atLineStart {before : Text} (h : AtLineStart before) : lastLine before = [] := by
  rcases h with rfl | ⟨more, rfl⟩
  · rfl
  · rw [lastLine, List.reverse_append, List.reverse_singleton, List.singleton_append,
      List.takeWhile_cons_of_neg (by decide), List.reverse_nil]

theorem isBlankChar_of_isPadding {c : Char} (h : isPadding c = true) : isBlankChar c = true := by
  rw [isPadding, Bool.or_eq_true, beq_iff_eq, beq_iff_eq] at h
  rcases h with rfl | rfl <;> decide

/-- A character does not trail before one that is no padding and does not end
    the line. -/
theorem not_trails {c d : Char} {between after : Text} (hbetween : '\n' ∉ between)
    (hd : isPadding d = false) (hends : endsLine (d :: after) = false) :
    trails c (between ++ d :: after) = false := by
  refine Bool.and_eq_false_iff.2 (.inr ?_)
  have hnewline : d ≠ '\n' := by
    rintro rfl
    exact absurd hends (by simp only [endsLine, beq_self_eq_true, Bool.true_or, reduceCtorEq,
      not_false_eq_true])
  -- Padding is passed until something else stands there.
  induction between with
  | nil => rwa [List.nil_append, List.dropWhile_cons_of_neg (by rw [hd]; decide)]
  | cons b between ih =>
      rw [List.mem_cons, not_or] at hbetween
      by_cases hb : isPadding b = true
      · rw [List.cons_append, List.dropWhile_cons_of_pos hb]
        exact ih hbetween.2
      · -- Behind a carriage return stands more of the line, but no line feed.
        rw [List.cons_append, List.dropWhile_cons_of_neg hb, endsLine,
          beq_eq_false_iff_ne.2 (Ne.symm hbetween.1), Bool.false_or]
        refine Bool.and_eq_false_iff.2 (.inr ?_)
        cases between with
        | nil =>
            simp only [List.nil_append, List.isEmpty_cons, List.head?_cons, Bool.false_or,
              beq_eq_false_iff_ne, ne_eq, Option.some.injEq]
            exact hnewline
        | cons b' between =>
            simp only [List.cons_append, List.isEmpty_cons, List.head?_cons, Bool.false_or,
              beq_eq_false_iff_ne, ne_eq, Option.some.injEq]
            rintro rfl
            exact hbetween.2 List.mem_cons_self

/-- Padding before the end of a line trails. -/
theorem trails_of_padding {c : Char} {pad after : Text} (hc : isPadding c = true)
    (hpad : ∀ d ∈ pad, isPadding d = true) (hends : endsLine after = true) :
    trails c (pad ++ after) = true := by
  rw [trails, hc, Bool.true_and, List.dropWhile_append_of_pos hpad]
  cases after with
  | nil => rfl
  | cons d after =>
      have hd : isPadding d = false := by
        rw [endsLine, Bool.or_eq_true, Bool.and_eq_true, beq_iff_eq, beq_iff_eq] at hends
        rcases hends with rfl | ⟨rfl, -⟩ <;> decide
      rwa [List.dropWhile_cons_of_neg (by rw [hd]; decide)]

/-- A text is what is left without a certain end, and the end. -/
theorem exists_dropEndWhile (p : Char → Bool) (text : Text) :
    ∃ pad, text = dropEndWhile p text ++ pad ∧ (∀ c ∈ pad, p c = true)
      ∧ ∀ core c, dropEndWhile p text = core ++ [c] → p c = false := by
  refine ⟨(text.reverse.takeWhile p).reverse, ?_, fun c hc => ?_, fun core c hcore => ?_⟩
  · rw [dropEndWhile, ← List.reverse_append, List.takeWhile_append_dropWhile,
      List.reverse_reverse]
  · exact List.all_eq_true.1 (List.all_takeWhile (p := p)) c (List.mem_reverse.1 hc)
  · rw [dropEndWhile, List.reverse_eq_iff, List.reverse_append, List.reverse_singleton,
      List.singleton_append] at hcore
    have hhead := List.head?_dropWhile_not p text.reverse
    rw [hcore] at hhead
    simpa only [List.head?_cons] using hhead

/-- A text is what is left without its padding, and the padding. -/
theorem exists_dropPaddingEnd (text : Text) :
    ∃ pad, text = dropPaddingEnd text ++ pad ∧ (∀ c ∈ pad, isPadding c = true)
      ∧ ∀ core c, dropPaddingEnd text = core ++ [c] → isPadding c = false :=
  exists_dropEndWhile isPadding text

/-- Where blanks are dropped from the end, the ink stays. -/
theorem filter_dropEndWhile {p : Char → Bool} (hp : ∀ c, p c = true → isBlankChar c = true)
    (text : Text) : (dropEndWhile p text).filter isInk = text.filter isInk := by
  obtain ⟨pad, htext, hpad, -⟩ := exists_dropEndWhile p text
  have hnone : pad.filter isInk = [] := List.filter_eq_nil_iff.2 fun c hc => by
    rw [isInk, hp c (hpad c hc)]
    exact Bool.false_ne_true
  have hink := congrArg (List.filter isInk) htext
  rw [List.filter_append, hnone, List.append_nil] at hink
  exact hink.symm

theorem filter_trimEnd (text : Text) : (trimEnd text).filter isInk = text.filter isInk :=
  filter_dropEndWhile (fun _ => id) text

/-- What stands on a blank line is blank. -/
theorem isBlankChar_of_onBlankLine {before after : Text} {c : Char}
    (h : onBlankLine before (c :: after) = true) : isBlankChar c = true := by
  rw [onBlankLine, Bool.and_eq_true] at h
  by_cases hc : c = '\n'
  · rw [hc]
    decide
  · refine List.all_eq_true.1 h.2 c ?_
    rw [firstLine, List.takeWhile_cons, if_pos (by rwa [bne_iff_ne])]
    exact List.mem_cons_self

/-- What tidying may take is blank. -/
theorem isBlankChar_of_goes {before after : Text} {c : Char}
    (h : trails c after = true ∨ onBlankLine before (c :: after) = true) :
    isBlankChar c = true := by
  rcases h with h | h
  · rw [trails, Bool.and_eq_true] at h
    exact isBlankChar_of_isPadding h.1
  · exact isBlankChar_of_onBlankLine h

end Text

open Text

/-- What tidying may leave of a text that stands between two others, where
    `touched` tells the lines that are tidied. -/
inductive Tidied (touched : Nat → Bool) : Text → Text → Text → Text → Prop
  | nil {before after : Text} : Tidied touched before [] after []
  | keep {before text after left : Text} {c : Char}
      (hkeep : touched (before.count '\n') = true → trails c (text ++ after) = false)
      (tail : Tidied touched (before ++ [c]) text after left) :
      Tidied touched before (c :: text) after (c :: left)
  | drop {before text after left : Text} {c : Char}
      (htouched : touched (before.count '\n') = true)
      (hdrop : trails c (text ++ after) = true ∨ onBlankLine before (c :: text ++ after) = true)
      (tail : Tidied touched (before ++ [c]) text after left) :
      Tidied touched before (c :: text) after left

namespace Tidied

variable {touched : Nat → Bool} {before text more after left : Text}

theorem append {a b : Text} (h : Tidied touched before text (more ++ after) a)
    (h' : Tidied touched (before ++ text) more after b) :
    Tidied touched before (text ++ more) after (a ++ b) := by
  induction text generalizing before a with
  | nil =>
      cases h
      rwa [List.append_nil] at h'
  | cons c text ih =>
      -- What stands before a character grows as the text is passed, on both sides of the cut.
      have hassoc : before ++ c :: text = before ++ [c] ++ text := by
        rw [List.append_assoc, List.singleton_append]
      rw [hassoc] at h'
      cases h with
      | keep hkeep tail =>
          rw [← List.append_assoc] at hkeep
          exact .keep hkeep (ih tail h')
      | drop htouched hdrop tail =>
          rw [← List.append_assoc, ← List.append_assoc] at hdrop
          exact .drop htouched hdrop (ih tail h')

/-- Where no character trails on a touched line, the text may stay. -/
theorem refl (hkeep : ∀ a c b, text = a ++ c :: b →
    touched ((before ++ a).count '\n') = true → trails c (b ++ after) = false) :
    Tidied touched before text after text := by
  induction text generalizing before with
  | nil => exact .nil
  | cons c text ih =>
      refine .keep (fun htouched => hkeep [] c text rfl (by rwa [List.append_nil])) (ih ?_)
      rintro a d b rfl htouched
      refine hkeep (c :: a) d b rfl ?_
      rwa [List.append_assoc, List.singleton_append] at htouched

/-- Where all characters trail or are on a blank line, on touched lines, the
    text may go. -/
theorem gone (hdrop : ∀ a c b, text = a ++ c :: b → touched ((before ++ a).count '\n') = true
      ∧ (trails c (b ++ after) = true ∨ onBlankLine (before ++ a) (c :: b ++ after) = true)) :
    Tidied touched before text after [] := by
  induction text generalizing before with
  | nil => exact .nil
  | cons c text ih =>
      have hc := hdrop [] c text rfl
      rw [List.append_nil] at hc
      refine .drop hc.1 hc.2 (ih ?_)
      rintro a d b rfl
      rw [List.append_assoc, List.singleton_append]
      exact hdrop (c :: a) d b rfl

/-- Where no character on a touched line trails or is on a blank line, the
    text stays. -/
theorem keeps (h : Tidied touched before text after left)
    (hkeep : ∀ a c b, text = a ++ c :: b → touched ((before ++ a).count '\n') = true →
      trails c (b ++ after) = false ∧ onBlankLine (before ++ a) (c :: b ++ after) = false) :
    left = text := by
  induction h with
  | nil => rfl
  | @keep before text after left c _ tail ih =>
      rw [ih]
      rintro a d b rfl htouched
      rw [List.append_assoc, List.singleton_append] at htouched ⊢
      exact hkeep (c :: a) d b rfl htouched
  | @drop before text after left c htouched hdrop tail ih =>
      -- A dropped character trails or is on a blank line, which the assumption excludes.
      have hnot := hkeep [] c text rfl (by rwa [List.append_nil])
      rw [List.append_nil] at hnot
      rcases hdrop with hdrop | hdrop
      · rw [hnot.1] at hdrop
        exact absurd hdrop Bool.false_ne_true
      · rw [hnot.2] at hdrop
        exact absurd hdrop Bool.false_ne_true

/-- Tidying keeps the ink. -/
theorem ink (h : Tidied touched before text after left) :
    left.filter isInk = text.filter isInk := by
  induction h with
  | nil => rfl
  | keep hkeep tail ih => simp only [List.filter_cons, ih]
  | @drop before text after left c htouched hdrop tail ih =>
      rw [ih, List.filter_cons_of_neg (by rw [isInk, isBlankChar_of_goes hdrop]; decide)]

end Tidied

namespace TidyLine

/-- A line is its body and what is left of its terminator. -/
theorem ofRaw_spec (touched : Bool) (raw : Text) :
    ∃ ret, raw = (ofRaw touched raw).body ++ ret
      ∧ (ofRaw touched raw).written = (ofRaw touched raw).cleaned ++ ret
      ∧ (ofRaw touched raw).touched = touched
      ∧ (ret = ['\r'] ∨ ret = [] ∧ raw.getLast? ≠ some '\r') := by
  unfold ofRaw
  split
  · next hlast =>
    obtain ⟨body, rfl⟩ := List.getLast?_eq_some_iff.1 hlast
    exact ⟨['\r'], by rw [List.dropLast_concat], rfl, rfl, .inl rfl⟩
  · next hlast =>
    refine ⟨[], (List.append_nil _).symm, ?_, rfl, .inr ⟨rfl, hlast⟩⟩
    rw [List.append_nil]
    rfl

end TidyLine

/-- No line ends at the last character before the padding, for that is no part
    of a terminator. -/
theorem endsLine_last {init pad ret after : Text} {last : Char} (hlast : last ≠ '\n')
    (hpad : ∀ p ∈ pad, isPadding p = true)
    (hret : ret = ['\r'] ∨ ret = [] ∧ (init ++ [last] ++ pad).getLast? ≠ some '\r') :
    endsLine (last :: (pad ++ ret ++ after)) = false := by
  rw [endsLine, beq_eq_false_iff_ne.2 hlast, Bool.false_or]
  refine Bool.and_eq_false_imp.2 fun hreturn => ?_
  cases pad with
  | cons p pad =>
      have hp := hpad p List.mem_cons_self
      have hne : p ≠ '\n' := by
        rintro rfl
        exact absurd hp (by decide)
      simp only [List.cons_append, List.isEmpty_cons, List.head?_cons, Bool.false_or,
        beq_eq_false_iff_ne, ne_eq, Option.some.injEq]
      exact hne
  | nil =>
      -- The line does not end with a carriage return, unless it is set apart.
      rcases hret with rfl | ⟨rfl, hnot⟩
      · rfl
      · refine absurd ?_ hnot
        rw [beq_iff_eq.1 hreturn, List.append_nil, List.getLast?_concat]

/-- No character trails before the padding at the end of a line. -/
theorem not_trails_core {a b pad ret after : Text} {c : Char} (hcore : '\n' ∉ a ++ c :: b)
    (hends : ∀ init last, a ++ c :: b = init ++ [last] → isPadding last = false)
    (hpad : ∀ p ∈ pad, isPadding p = true)
    (hret : ret = ['\r'] ∨ ret = [] ∧ (a ++ c :: b ++ pad).getLast? ≠ some '\r') :
    trails c (b ++ (pad ++ ret ++ after)) = false := by
  -- The last character of the core ends the run of padding that `c` could trail in.
  obtain ⟨init, last, hsplit⟩ : ∃ init last, c :: b = init ++ [last] :=
    ⟨_, _, (List.dropLast_concat_getLast (List.cons_ne_nil c b)).symm⟩
  rw [hsplit, ← List.append_assoc] at hcore hret hends
  have hpadding : isPadding last = false := hends (a ++ init) last rfl
  rw [List.mem_append, not_or, List.mem_singleton] at hcore
  have hlast : endsLine (last :: (pad ++ ret ++ after)) = false :=
    endsLine_last (Ne.symm hcore.2) hpad hret
  cases init with
  | nil =>
      rw [List.nil_append, List.cons.injEq] at hsplit
      rw [trails, hsplit.1, hpadding, Bool.false_and]
  | cons c' init =>
      rw [List.cons_append, List.cons.injEq] at hsplit
      rw [hsplit.2, List.append_assoc, List.singleton_append]
      refine not_trails (fun hmem => hcore.1 ?_) hpadding hlast
      exact List.mem_append_right _ (List.mem_cons_of_mem _ hmem)

/-- What is left of a line that is kept. -/
theorem tidied_line {touched : Nat → Bool} {before raw after : Text} (hraw : '\n' ∉ raw)
    (hafter : BreaksOff after) :
    Tidied touched before raw after
      (TidyLine.ofRaw (touched (before.count '\n')) raw).written := by
  have hcount {a b : Text} (h : raw = a ++ b) : (before ++ a).count '\n' = before.count '\n' := by
    have hnone : a.count '\n' = 0 :=
      List.count_eq_zero.2 fun hmem => hraw (h ▸ List.mem_append_left _ hmem)
    rw [List.count_append, hnone, Nat.add_zero]
  obtain ⟨ret, hbody, hwritten, htouched, hret⟩ :=
    TidyLine.ofRaw_spec (touched (before.count '\n')) raw
  rw [hwritten, TidyLine.cleaned, htouched]
  generalize (TidyLine.ofRaw (touched (before.count '\n')) raw).body = body at hbody
  cases hline : touched (before.count '\n') with
  | false =>
      rw [if_neg Bool.false_ne_true, ← hbody]
      refine .refl fun a c b hsplit htrue => ?_
      rw [hcount hsplit, hline] at htrue
      exact absurd htrue Bool.false_ne_true
  | true =>
      rw [if_pos rfl]
      obtain ⟨pad, hcore, hpad, hlast⟩ := exists_dropPaddingEnd body
      generalize dropPaddingEnd body = core at hcore hlast
      subst hcore hbody
      have hends : endsLine (ret ++ after) = true := by
        rcases hret with rfl | ⟨rfl, -⟩ <;> rcases hafter with rfl | ⟨more, rfl⟩ <;> rfl
      rw [List.append_assoc]
      -- The core stays, the padding goes, and the carriage return stays.
      refine Tidied.append (.refl ?_) (Tidied.append (a := []) (.gone ?_) (.refl ?_))
      · rintro a c b rfl -
        refine not_trails_core (fun hmem => hraw ?_) hlast hpad ?_
        · exact List.mem_append_left _ (List.mem_append_left _ hmem)
        · rcases hret with hreturn | ⟨rfl, hnot⟩
          · exact .inl hreturn
          · exact .inr ⟨rfl, by rwa [List.append_nil] at hnot⟩
      · rintro a c b rfl
        refine ⟨?_, .inl ?_⟩
        · rw [List.append_assoc, hcount (b := c :: b ++ ret) (by simp only [List.append_assoc]), hline]
        · exact trails_of_padding (hpad c (List.mem_append_right _ List.mem_cons_self))
            (fun d hd => hpad d (List.mem_append_right _ (List.mem_cons_of_mem _ hd))) hends
      · rintro a c b hsplit -
        have hc : c = '\r' := by
          rcases hret with rfl | ⟨rfl, -⟩
          · exact List.mem_singleton.1 (hsplit ▸ List.mem_append_right _ List.mem_cons_self)
          · exact absurd hsplit.symm (by simp only [List.append_eq_nil_iff, reduceCtorEq, and_false,
              not_false_eq_true])
        rw [trails, hc]
        rfl

theorem tidyLines_ne_nil {shadowed : Bool} {lines : List TidyLine} (h : lines ≠ []) :
    tidyLines shadowed lines ≠ [] := by
  induction lines generalizing shadowed with
  | nil => exact absurd rfl h
  | cons line lines ih =>
      rw [tidyLines]
      split
      · next hgone =>
        refine ih fun hnil => ?_
        rw [hnil, List.isEmpty_nil, Bool.not_true, Bool.and_false] at hgone
        exact Bool.false_ne_true hgone
      · exact List.cons_ne_nil _ _

/-- A line that is cleaned to a blank one is blank. -/
theorem isBlank_of_cleaned {touched : Bool} {raw : Text}
    (h : isBlank (TidyLine.ofRaw touched raw).cleaned = true) : isBlank raw = true := by
  obtain ⟨ret, hraw, -, htouched, hret⟩ := TidyLine.ofRaw_spec touched raw
  have hcleaned : isBlank (TidyLine.ofRaw touched raw).body = true := by
    rw [TidyLine.cleaned, htouched] at h
    split at h
    · obtain ⟨pad, hbody, hpad, -⟩ := exists_dropPaddingEnd (TidyLine.ofRaw touched raw).body
      rw [hbody, isBlank, List.all_append, Bool.and_eq_true]
      exact ⟨h, List.all_eq_true.2 fun c hc => isBlankChar_of_isPadding (hpad c hc)⟩
    · exact h
  rw [hraw, isBlank, List.all_append, Bool.and_eq_true]
  refine ⟨hcleaned, ?_⟩
  rcases hret with rfl | ⟨rfl, -⟩ <;> rfl

/-- A blank line may go with its line feed. -/
theorem tidied_blankLine {touched : Nat → Bool} {before raw after : Text}
    (hbefore : AtLineStart before) (hraw : '\n' ∉ raw)
    (htouched : touched (before.count '\n') = true) (hblank : isBlank raw = true) :
    Tidied touched before (raw ++ ['\n']) after [] := by
  refine .gone fun a c b hsplit => ?_
  -- Each character of the line, or its line feed, stands on a blank line.
  obtain ⟨b', rfl, hb'⟩ : ∃ b', raw = a ++ b' ∧ c :: b = b' ++ ['\n'] := by
    rcases List.append_eq_append_iff.1 hsplit with ⟨a', rfl, ha'⟩ | ⟨b', hraw, hb'⟩
    · have hnil : a' = [] := by
        cases a' with
        | nil => rfl
        | cons d a' => exact absurd ha' (by simp only [List.cons_append, List.cons.injEq,
            List.nil_eq, List.append_eq_nil_iff, reduceCtorEq, and_false, not_false_eq_true])
      subst hnil
      exact ⟨[], by rw [List.append_nil, List.append_nil], ha'.symm⟩
    · exact ⟨b', hraw, hb'⟩
  rw [List.mem_append, not_or] at hraw
  rw [isBlank, List.all_append, Bool.and_eq_true] at hblank
  constructor
  · rwa [List.count_append, List.count_eq_zero.2 hraw.1, Nat.add_zero]
  · refine .inr ?_
    rw [onBlankLine, lastLine_append hraw.1, lastLine_atLineStart hbefore, List.nil_append, hb',
      List.append_assoc, firstLine_append hraw.2]
    simp only [firstLine, List.singleton_append, List.takeWhile_cons, bne_self_eq_false,
      Bool.false_eq_true, if_false, List.append_nil, Bool.and_eq_true]
    exact hblank

/-- What tidying leaves of a list of lines. -/
theorem tidied_tidyLines {touched : Nat → Bool} {before : Text} (hbefore : AtLineStart before)
    (shadowed : Bool) {raws : List Text} (hne : raws ≠ []) (hraws : ∀ raw ∈ raws, '\n' ∉ raw)
    (flags : Nat → Bool) (hflags : ∀ n, flags n = touched (before.count '\n' + n)) :
    Tidied touched before (joinLines raws) [] (joinLines
      (tidyLines shadowed (raws.mapIdx fun n raw => .ofRaw (flags n) raw))) := by
  induction raws generalizing before shadowed flags with
  | nil => exact absurd rfl hne
  | cons raw raws ih =>
      have hraw := hraws raw List.mem_cons_self
      have hflag : flags 0 = touched (before.count '\n') := by rw [hflags, Nat.add_zero]
      rw [List.mapIdx_cons, hflag, tidyLines]
      cases hrest : raws with
      | nil =>
          rw [List.mapIdx_nil, List.isEmpty_nil, Bool.not_true, Bool.and_false,
            if_neg Bool.false_ne_true]
          exact tidied_line hraw (.inl rfl)
      | cons raw' raws' =>
          have hcount : (before ++ raw).count '\n' = before.count '\n' := by
            rw [List.count_append, List.count_eq_zero.2 hraw, Nat.add_zero]
          have hstart : AtLineStart (before ++ raw ++ ['\n']) := .inr ⟨before ++ raw, rfl⟩
          have htail (shadowed : Bool) := ih hstart shadowed
            (by rw [hrest]; exact List.cons_ne_nil _ _)
            (fun other hother => hraws other (List.mem_cons_of_mem _ hother))
            (fun n => flags (n + 1)) fun n => by
              rw [hflags, List.count_append, hcount, List.count_singleton_self,
                Nat.add_comm n 1, Nat.add_assoc]
          rw [hrest] at htail
          rw [joinLines_cons (List.cons_ne_nil raw' raws')]
          split
          · next hgone =>
            -- A blank line goes as a whole.
            simp only [Bool.and_eq_true] at hgone
            obtain ⟨⟨⟨htouched, hblank⟩, -⟩, -⟩ := hgone
            obtain ⟨_, -, -, hline, -⟩ := TidyLine.ofRaw_spec (touched (before.count '\n')) raw
            rw [hline] at htouched
            rw [← List.singleton_append, ← List.append_assoc]
            refine Tidied.append (a := []) (tidied_blankLine hbefore hraw htouched
              (isBlank_of_cleaned hblank)) ?_
            rw [← List.append_assoc]
            exact htail shadowed
          · rw [joinLines_cons (tidyLines_ne_nil (by
              rw [List.mapIdx_cons]
              exact List.cons_ne_nil _ _))]
            exact Tidied.append (tidied_line hraw (.inr ⟨_, rfl⟩))
              (.keep (fun _ => rfl) (htail _))

/-- No line holds a line feed. -/
theorem not_mem_of_mem_splitLines {text line : Text} (h : line ∈ splitLines text) :
    '\n' ∉ line := by
  induction text generalizing line with
  | nil => exact List.mem_singleton.1 h ▸ List.not_mem_nil
  | cons c text ih =>
      rw [splitLines] at h
      split at h
      · rcases List.mem_cons.1 h with rfl | h
        · exact List.not_mem_nil
        · exact ih h
      · next hc =>
        split at h
        · rw [List.mem_singleton.1 h, List.mem_singleton]
          exact Ne.symm hc
        · next first lines hlines =>
          rcases List.mem_cons.1 h with rfl | h
          · rw [List.mem_cons, not_or]
            exact ⟨Ne.symm hc, ih (hlines ▸ List.mem_cons_self)⟩
          · exact ih (hlines ▸ List.mem_cons_of_mem _ h)

/-- What tidying leaves of a text. -/
theorem tidied_tidy (text : Text) (spans : List Span) :
    Tidied (touchesLine (.ofText text) spans) [] text [] (tidy text spans) := by
  have hstart : AtLineStart [] := .inl rfl
  have h : Tidied (touchesLine (.ofText text) spans) [] (joinLines (splitLines text)) []
      (tidy text spans) :=
    tidied_tidyLines hstart false (splitLines_ne_nil text)
      (fun raw => not_mem_of_mem_splitLines) (touchesLine (.ofText text) spans)
      fun n => by rw [List.count_nil, Nat.zero_add]
  rwa [joinLines_splitLines] at h

end SharpLint

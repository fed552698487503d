import SharpLint.Proofs.Text.Cut
import SharpLint.Text.Digit
import SharpLint.Text.Word

/-!
# Ink

The characters that leave a mark on the page, which are all but the blank
ones. A token that begins and ends with ink cannot lie in a blank stretch of
source, and no trimming of blanks shortens it.

## Main definitions

* `Text.isInk`: whether a character is not blank.
* `Text.Solid`: a text that begins and ends with ink.
* `Text.BlankAt`: a blank stretch of a text.

## Theorems

* `Text.isInk_of_canContinue`: The characters of words are ink.
* `Text.BlankAt.not_ink`: Ink does not stand in a blank stretch.
* `Text.Solid.around`: A solid text that meets a blank stretch reaches over it.
* `Text.cut_behind_unique`, `Text.cut_before_unique`: Cuts told by their ink.
-/

namespace SharpLint

namespace Text

/-- Whether the character is not blank. -/
def isInk (c : Char) : Bool :=
  !isBlankChar c

/-- The text begins and ends with ink. -/
def Solid (text : Text) : Prop :=
  (∃ c rest, text = c :: rest ∧ isInk c = true) ∧ ∃ before c, text = before ++ [c] ∧ isInk c = true

/-- A text is blank if it has no ink. -/
theorem isBlank_iff_filter {text : Text} : text.isBlank = true ↔ text.filter isInk = [] := by
  simp only [isBlank, List.all_eq_true, List.filter_eq_nil_iff, isInk, Bool.not_eq_true',
    Bool.not_eq_false]

/-- The code points of blank characters. -/
def blankCodes : List Nat :=
  [9, 10, 11, 12, 13, 0x20, 0x85, 0xA0, 0x1680, 0x2000, 0x2001, 0x2002, 0x2003, 0x2004, 0x2005,
    0x2006, 0x2007, 0x2008, 0x2009, 0x200A, 0x2028, 0x2029, 0x202F, 0x205F, 0x3000]

theorem mem_blankCodes_of_isBlankChar {c : Char} (h : isBlankChar c = true) :
    c.toNat ∈ blankCodes := by
  simp only [isBlankChar, Bool.or_eq_true, Bool.and_eq_true, decide_eq_true_eq, beq_iff_eq] at h
  simp only [blankCodes, List.mem_cons, List.not_mem_nil, or_false]
  omega

/-- The visible characters of ASCII are ink. -/
theorem isInk_of_lt {c : Char} (hlow : 0x20 < c.toNat) (hhigh : c.toNat < 0x80) :
    isInk c = true := by
  rw [isInk, Bool.not_eq_true', ← Bool.not_eq_true]
  intro hblank
  have hmem := mem_blankCodes_of_isBlankChar hblank
  simp only [blankCodes, List.mem_cons, List.not_mem_nil, or_false] at hmem
  omega

theorem isInk_of_isDecimal {c : Char} (h : Digit.isDecimal c = true) : isInk c = true := by
  simp only [Digit.isDecimal, Bool.and_eq_true, decide_eq_true_eq, Char.le_def] at h
  have hlow := UInt32.le_iff_toNat_le.1 h.1
  have hhigh := UInt32.le_iff_toNat_le.1 h.2
  exact isInk_of_lt (Nat.lt_of_lt_of_le (by decide) hlow) (Nat.lt_of_le_of_lt hhigh (by decide))

theorem isInk_of_isHexadecimal {c : Char} (h : Digit.isHexadecimal c = true) :
    isInk c = true := by
  simp only [Digit.isHexadecimal, Bool.or_eq_true] at h
  rcases h with (h | h) | h
  · exact isInk_of_isDecimal h
  all_goals
    simp only [Bool.and_eq_true, decide_eq_true_eq, Char.le_def] at h
    have hlow := UInt32.le_iff_toNat_le.1 h.1
    have hhigh := UInt32.le_iff_toNat_le.1 h.2
    exact isInk_of_lt (Nat.lt_of_lt_of_le (by decide) hlow) (Nat.lt_of_le_of_lt hhigh (by decide))

/-- No run of word characters holds a blank one. -/
theorem inRuns_of_blank : ∀ n ∈ blankCodes,
    Word.inRuns Word.startRuns n = false ∧ Word.inRuns Word.continueRuns n = false := by
  decide +kernel

theorem isInk_of_isAlphanum {c : Char} (h : c.isAlphanum = true) : isInk c = true := by
  change (decide (c.val ≥ 'A'.val ∧ c.val ≤ 'Z'.val)
    || decide (c.val ≥ 'a'.val) && decide (c.val ≤ 'z'.val)
    || decide (c.val ≥ '0'.val) && decide (c.val ≤ '9'.val)) = true at h
  simp only [Bool.or_eq_true, Bool.and_eq_true, decide_eq_true_eq, ge_iff_le] at h
  rcases h with (h | h) | h
  all_goals
    have hlow := UInt32.le_iff_toNat_le.1 h.1
    have hhigh := UInt32.le_iff_toNat_le.1 h.2
    exact isInk_of_lt (Nat.lt_of_lt_of_le (by decide) hlow) (Nat.lt_of_le_of_lt hhigh (by decide))

/-- The characters of words are ink. -/
theorem isInk_of_canContinue {c : Char} (h : Word.canContinue c = true) : isInk c = true := by
  unfold Word.canContinue at h
  split at h
  · rw [Bool.or_eq_true, beq_iff_eq] at h
    rcases h with h | rfl
    · exact isInk_of_isAlphanum h
    · decide
  · rw [isInk, Bool.not_eq_true', ← Bool.not_eq_true]
    intro hblank
    obtain ⟨hstart, hcontinue⟩ := inRuns_of_blank _ (mem_blankCodes_of_isBlankChar hblank)
    rw [hstart, hcontinue] at h
    exact absurd h (by decide)

theorem isInk_of_canStart {c : Char} (h : Word.canStart c = true) : isInk c = true := by
  refine isInk_of_canContinue ?_
  unfold Word.canStart at h
  unfold Word.canContinue
  split at h
  · next hlt => rw [if_pos hlt, Char.isAlphanum, h, Bool.true_or, Bool.true_or]
  · next hlt => rw [if_neg hlt, h, Bool.true_or]

/-- A text of ink, not empty, is solid. -/
theorem solid_of_all {text : Text} (hne : text ≠ []) (hall : ∀ c ∈ text, isInk c = true) :
    text.Solid := by
  refine ⟨?_, text.dropLast, text.getLast hne, (List.dropLast_concat_getLast hne).symm,
    hall _ (List.getLast_mem hne)⟩
  cases text with
  | nil => exact absurd rfl hne
  | cons c rest => exact ⟨c, rest, rfl, hall c List.mem_cons_self⟩

theorem Solid.ne_nil {text : Text} (h : text.Solid) : text ≠ [] := by
  obtain ⟨⟨c, rest, rfl, -⟩, -⟩ := h
  exact List.cons_ne_nil c rest

/-! ### Blank stretches -/

/-- A character that stands where a part of the text does is one of the part. -/
theorem HoldsAt.mem {text part : Text} {offset place : Nat} {c : Char}
    (h : text.HoldsAt offset part) (hc : text.HoldsAt place [c]) (hle : offset ≤ place)
    (hlt : place < offset + part.size) : c ∈ part := by
  obtain ⟨before, after, rfl, rfl⟩ := h
  obtain ⟨before', after', htext, rfl⟩ := hc
  rw [List.append_assoc, List.append_assoc before'] at htext
  rcases List.append_eq_append_iff.1 htext with ⟨m, rfl, hrest⟩ | ⟨m, rfl, hrest⟩
  · -- The character stands `m` behind the start of the part, which is longer.
    rcases List.append_eq_append_iff.1 hrest with ⟨k, hk, -⟩ | ⟨k, rfl, hk⟩
    · rw [size_append, hk, size_append] at hlt
      omega
    · cases k with
      | nil =>
          rw [size_append, List.append_nil] at hlt
          omega
      | cons d k =>
          rw [List.cons_append, List.cons_append, List.cons.injEq] at hk
          rw [hk.1]
          exact List.mem_append_right _ List.mem_cons_self
  · rw [size_append] at hle
    cases m with
    | nil =>
        rw [List.nil_append] at hrest
        cases part with
        | nil =>
            rw [List.append_nil, size_nil] at hlt
            omega
        | cons d part =>
            rw [List.cons_append, List.cons_append, List.cons.injEq] at hrest
            rw [hrest.1]
            exact List.mem_cons_self
    | cons d m =>
        have hd := Char.utf8Size_pos d
        rw [size_cons] at hle
        omega

/-- No cut lies inside a character. -/
theorem CutsAt.outside {text : Text} {cut place : Nat} {c : Char} (h : text.CutsAt cut)
    (hc : text.HoldsAt place [c]) : cut ≤ place ∨ place + c.utf8Size ≤ cut := by
  obtain ⟨before, after, rfl, rfl⟩ := h
  obtain ⟨before', after', htext, rfl⟩ := hc
  rw [List.append_assoc] at htext
  rcases List.append_eq_append_iff.1 htext with ⟨m, rfl, hrest⟩ | ⟨m, rfl, hrest⟩
  · exact .inl (by rw [size_append]; omega)
  · cases m with
    | nil => exact .inl (Nat.le_of_eq (by rw [List.append_nil]))
    | cons d m =>
        rw [List.cons_append, List.cons_append, List.cons.injEq] at hrest
        refine .inr ?_
        rw [size_append, size_cons, hrest.1]
        omega

/-- Between the two byte offsets the text is blank. -/
def BlankAt (text : Text) (start stop : Nat) : Prop :=
  ∃ part, text.HoldsAt start part ∧ start + part.size = stop ∧ part.isBlank = true

theorem BlankAt.le {text : Text} {start stop : Nat} (h : text.BlankAt start stop) :
    start ≤ stop := by
  obtain ⟨part, -, rfl, -⟩ := h
  exact Nat.le_add_right _ _

theorem blankAt_self {text : Text} {offset : Nat} (h : text.CutsAt offset) :
    text.BlankAt offset offset := by
  obtain ⟨before, after, rfl, rfl⟩ := h
  exact ⟨[], ⟨before, after, by rw [List.append_nil], rfl⟩, rfl, rfl⟩

theorem BlankAt.startCut {text : Text} {start stop : Nat} (h : text.BlankAt start stop) :
    text.CutsAt start := by
  obtain ⟨part, hpart, -, -⟩ := h
  exact hpart.cutsAt

theorem BlankAt.stopCut {text : Text} {start stop : Nat} (h : text.BlankAt start stop) :
    text.CutsAt stop := by
  obtain ⟨part, hpart, rfl, -⟩ := h
  exact hpart.cutsAt_stop

/-- Ink does not stand in a blank stretch. -/
theorem BlankAt.not_ink {text : Text} {start stop place : Nat} {c : Char}
    (h : text.BlankAt start stop) (hc : text.HoldsAt place [c]) (hink : isInk c = true)
    (hle : start ≤ place) : stop ≤ place := by
  obtain ⟨part, hpart, rfl, hblank⟩ := h
  refine Nat.le_of_not_lt fun hlt => ?_
  have hmem := List.all_eq_true.1 hblank c (hpart.mem hc hle hlt)
  rw [isInk, hmem] at hink
  exact absurd hink (by decide)

/-- A solid text that meets a blank stretch begins before it and ends behind
    it. -/
theorem Solid.around {text solid : Text} {start stop place : Nat} (hsolid : solid.Solid)
    (hplace : text.HoldsAt place solid) (h : text.BlankAt start stop) (hstart : place < stop)
    (hstop : start < place + solid.size) : place < start ∧ stop < place + solid.size := by
  -- Its first and last characters are ink, and neither can stand in the blank stretch.
  obtain ⟨⟨c, rest, hfirst, hc⟩, before, d, hlast, hd⟩ := hsolid
  obtain ⟨pre, post, rfl, rfl⟩ := hplace
  have hfirstAt : HoldsAt (pre ++ solid ++ post) (size pre) [c] :=
    ⟨pre, rest ++ post, by rw [hfirst]; simp only [List.append_assoc, List.cons_append,
      List.nil_append], rfl⟩
  have hlastAt : HoldsAt (pre ++ solid ++ post) (size pre + size before) [d] :=
    ⟨pre ++ before, post, by rw [hlast]; simp only [List.append_assoc], size_append pre before⟩
  have hbegins : size pre < start :=
    Nat.lt_of_not_le fun hle => absurd (h.not_ink hfirstAt hc hle) (Nat.not_le_of_lt hstart)
  refine ⟨hbegins, ?_⟩
  have hsize : size solid = size before + d.utf8Size := by
    rw [hlast, size_append, size_cons, size_nil, Nat.add_zero]
  have hd' := Char.utf8Size_pos d
  rcases h.startCut.outside hlastAt with hle | hle
  · have := h.not_ink hlastAt hd hle
    omega
  · omega

/-! ### Cuts beside ink -/

section

variable {a b a' b' : Text}

/-- Behind ink, a cut is told by the ink before it. -/
theorem cut_behind_unique (h : a ++ b = a' ++ b') (hink : a.filter isInk = a'.filter isInk)
    (ha : ∃ core c, a = core ++ [c] ∧ isInk c = true)
    (ha' : ∃ core c, a' = core ++ [c] ∧ isInk c = true) : a = a' := by
  -- What one text has more than the other is blank, but would end with ink.
  have hnil {p m : Text} (hsame : (p ++ m).filter isInk = p.filter isInk)
      (hends : ∃ core c, p ++ m = core ++ [c] ∧ isInk c = true) : m = [] := by
    rw [List.filter_append, List.append_right_eq_self] at hsame
    rcases List.eq_nil_or_concat m with rfl | ⟨m, d, rfl⟩
    · rfl
    · obtain ⟨core, c, hcore, hc⟩ := hends
      rw [List.concat_eq_append, ← List.append_assoc, List.append_singleton_inj] at hcore
      rw [← hcore.2] at hc
      exact absurd hc (List.filter_eq_nil_iff.1 hsame d (by
        rw [List.concat_eq_append]
        exact List.mem_concat_self))
  rcases List.append_eq_append_iff.1 h with ⟨m, rfl, -⟩ | ⟨m, rfl, -⟩
  · rw [hnil hink.symm ha', List.append_nil]
  · rw [hnil hink ha, List.append_nil]

/-- Before ink, a cut is told by the ink before it. -/
theorem cut_before_unique (h : a ++ b = a' ++ b') (hink : a.filter isInk = a'.filter isInk)
    (hb : ∃ c rest, b = c :: rest ∧ isInk c = true)
    (hb' : ∃ c rest, b' = c :: rest ∧ isInk c = true) : a = a' := by
  -- What one text has more than the other is blank, but would begin with ink.
  have hnil {p m q : Text} (hsame : (p ++ m).filter isInk = p.filter isInk)
      (hbegins : ∃ c rest, m ++ q = c :: rest ∧ isInk c = true) : m = [] := by
    rw [List.filter_append, List.append_right_eq_self] at hsame
    cases m with
    | nil => rfl
    | cons d m =>
        obtain ⟨c, rest, hcut, hc⟩ := hbegins
        rw [List.cons_append, List.cons.injEq] at hcut
        rw [← hcut.1] at hc
        exact absurd hc (List.filter_eq_nil_iff.1 hsame d List.mem_cons_self)
  rcases List.append_eq_append_iff.1 h with ⟨m, rfl, rfl⟩ | ⟨m, rfl, rfl⟩
  · rw [hnil hink.symm hb, List.append_nil]
  · rw [hnil hink hb', List.append_nil]

end

end Text

end SharpLint

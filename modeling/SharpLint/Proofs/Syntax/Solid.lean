import SharpLint.Syntax.Lexeme
import SharpLint.Proofs.Text.Ink

/-!
# Solid Tokens

The tokens of most classes begin and end with ink. Words and numbers are ink
throughout; literals stand between quotes and may hold anything; signs and
keywords are what their class says. The exceptions are the stretches of text
inside a string with holes, which are neither quoted nor bounded by ink.

## Main definitions

* `Lexeme.Inked`: the next characters of a text are ink.
* `Lexeme.isSolid`: whether all tokens of a class are solid.

## Theorems

* `Lexeme.inked_identifier`: The characters of an identifier are ink.
* `Lexeme.solid_of_isSolid`: Tokens of a solid class are solid.
-/

namespace SharpLint

namespace Lexeme

open Text

/-- The next `n` characters of the text are ink. -/
def Inked (n : Nat) (text : Text) : Prop :=
  ∀ c ∈ text.take n, isInk c = true

theorem inked_zero (text : Text) : Inked 0 text := by
  simp only [Inked, List.take_zero, List.not_mem_nil, false_implies, implies_true]

theorem Inked.add {n m : Nat} {text : Text} (hn : Inked n text) (hm : Inked m (text.drop n)) :
    Inked (n + m) text := by
  intro c hc
  rw [List.take_add] at hc
  exact (List.mem_append.1 hc).elim (hn c) (hm c)

theorem Inked.cons {n : Nat} {c : Char} {text : Text} (hc : isInk c = true) (hn : Inked n text) :
    Inked (n + 1) (c :: text) := by
  intro d hd
  rw [List.take_succ_cons] at hd
  rcases List.mem_cons.1 hd with rfl | hd
  · exact hc
  · exact hn d hd

/-- A run of ink is ink. -/
theorem inked_run {p : Char → Bool} (hp : ∀ c, p c = true → isInk c = true) (text : Text) :
    Inked (run p text) text := by
  induction text with
  | nil => exact inked_zero []
  | cons c cs ih =>
      simp only [run]
      split
      · next hc => exact ih.cons (hp c hc)
      · exact inked_zero _

/-! ### Words -/

/-- A part of a word is ink, if the characters of its class are. -/
theorem inked_wordPart {p : Char → Bool} (hp : ∀ c, p c = true → isInk c = true) (text : Text) :
    Inked (wordPart p text) text := by
  have hu : isInk 'u' = true := by decide
  have hU : isInk 'U' = true := by decide
  have hslash : isInk '\\' = true := by decide
  have hdigits {n : Nat} {rest : Text} (h : run Digit.isHexadecimal (rest.take n) = n) :
      Inked n rest := by
    have hrun := inked_run (fun c => isInk_of_isHexadecimal) (rest.take n)
    rw [h] at hrun
    intro c hc
    exact hrun c (by rwa [List.take_take, Nat.min_self])
  unfold wordPart
  split
  · split
    · next h => exact ((hdigits h).cons hu).cons hslash
    · exact inked_zero _
  · split
    · next h => exact ((hdigits h).cons hU).cons hslash
    · exact inked_zero _
  · split
    · next hc => exact (inked_zero _).cons (hp _ hc)
    · exact inked_zero _
  · exact inked_zero _

theorem inked_wordRest (fuel : Nat) (text : Text) : Inked (wordRest fuel text) text := by
  induction fuel generalizing text with
  | zero => exact inked_zero text
  | succ fuel ih =>
      simp only [wordRest]
      split
      · exact inked_zero text
      · exact (inked_wordPart (fun c => isInk_of_canContinue) text).add (ih _)

theorem inked_word (text : Text) : Inked (wordLength text) text := by
  unfold wordLength
  split
  · exact inked_zero text
  · refine (inked_wordPart (fun c hc => ?_) text).add (inked_wordRest _ _)
    rw [Bool.or_eq_true, beq_iff_eq] at hc
    rcases hc with hc | rfl
    · exact isInk_of_canStart hc
    · decide

/-- The characters of an identifier are ink. -/
theorem inked_identifier (text : Text) : Inked (identifierLength text) text := by
  unfold identifierLength
  split
  · split
    · exact inked_zero _
    · exact (inked_word _).cons (by decide)
  · simp only []
    split
    · exact inked_zero _
    · exact inked_word _

/-! ### Numbers -/

theorem isInk_underscore {c : Char} (h : (c == '_') = true) : isInk c = true := by
  rw [beq_iff_eq] at h
  subst h
  decide

theorem isInk_of_digitOrUnderscore {p : Char → Bool} (hp : ∀ c, p c = true → isInk c = true)
    (c : Char) (h : (p c || c == '_') = true) : isInk c = true := by
  rw [Bool.or_eq_true] at h
  exact h.elim (hp c) isInk_underscore

theorem inked_digits {p : Char → Bool} (hp : ∀ c, p c = true → isInk c = true) (text : Text) :
    Inked (digits p text) text := by
  unfold digits
  split
  · exact inked_run (isInk_of_digitOrUnderscore hp) text
  · exact inked_zero text

theorem inked_decimals (text : Text) : Inked (digits Digit.isDecimal text) text :=
  inked_digits (fun _ => isInk_of_isDecimal) text

theorem isInk_of_isUnsigned {c : Char} (h : integerSuffix.isUnsigned c = true) :
    isInk c = true := by
  simp only [integerSuffix.isUnsigned, Bool.or_eq_true, beq_iff_eq] at h
  rcases h with rfl | rfl <;> decide

theorem isInk_of_isLong {c : Char} (h : integerSuffix.isLong c = true) : isInk c = true := by
  simp only [integerSuffix.isLong, Bool.or_eq_true, beq_iff_eq] at h
  rcases h with rfl | rfl <;> decide

theorem inked_integerSuffix (text : Text) : Inked (integerSuffix text) text := by
  unfold integerSuffix
  split
  · split
    · next ha =>
      split
      · next hb => exact ((inked_zero _).cons (isInk_of_isLong hb)).cons (isInk_of_isUnsigned ha)
      · exact (inked_zero _).cons (isInk_of_isUnsigned ha)
    · split
      · next ha =>
        split
        · next hb => exact ((inked_zero _).cons (isInk_of_isUnsigned hb)).cons (isInk_of_isLong ha)
        · exact (inked_zero _).cons (isInk_of_isLong ha)
      · exact inked_zero _
  · split
    · next ha =>
      rw [Bool.or_eq_true] at ha
      exact (inked_zero _).cons (ha.elim isInk_of_isUnsigned isInk_of_isLong)
    · exact inked_zero _
  · exact inked_zero _

/-- The digits behind a mark of two characters, or else decimal digits. -/
theorem inked_withMark {p : Char → Bool} (hp : ∀ c, p c = true → isInk c = true) {a b : Char}
    (ha : isInk a = true) (hb : isInk b = true) (rest : Text) :
    Inked (integerLength.withMark (run p rest) (a :: b :: rest)) (a :: b :: rest) := by
  unfold integerLength.withMark
  split
  · exact inked_decimals _
  · exact ((inked_run hp rest).cons hb).cons ha

/-- A number of ink with its suffix is ink. -/
theorem inked_suffixed {body : Nat} {text : Text} (h : Inked body text) :
    Inked (if body = 0 then 0 else body + integerSuffix (text.drop body)) text := by
  split
  · exact inked_zero text
  · exact h.add (inked_integerSuffix _)

theorem inked_integer (text : Text) : Inked (integerLength text) text := by
  have hzero : isInk '0' = true := by decide
  unfold integerLength
  refine inked_suffixed ?_
  split
  · next x rest =>
    split
    · next hx =>
      refine inked_withMark (isInk_of_digitOrUnderscore fun c => isInk_of_isHexadecimal) hzero ?_ _
      rw [Bool.or_eq_true, beq_iff_eq, beq_iff_eq] at hx
      rcases hx with rfl | rfl <;> decide
    · split
      · next hx =>
        refine inked_withMark (fun c hc => ?_) hzero ?_ _
        · simp only [Bool.or_eq_true, beq_iff_eq] at hc
          rcases hc with (rfl | rfl) | rfl <;> decide
        · rw [Bool.or_eq_true, beq_iff_eq, beq_iff_eq] at hx
          rcases hx with rfl | rfl <;> decide
      · exact inked_decimals _
  · exact inked_decimals _

theorem inked_exponent (text : Text) : Inked (exponent text) text := by
  unfold exponent
  split
  · next e sign rest =>
    split
    · next he =>
      have hink : isInk e = true := by
        rw [Bool.or_eq_true, beq_iff_eq, beq_iff_eq] at he
        rcases he with rfl | rfl <;> decide
      split
      · next hsign =>
        unfold exponent.marked
        split
        · exact inked_zero _
        · refine ((inked_decimals rest).cons ?_).cons hink
          rw [Bool.or_eq_true, beq_iff_eq, beq_iff_eq] at hsign
          rcases hsign with rfl | rfl <;> decide
      · unfold exponent.marked
        split
        · exact inked_zero _
        · exact (inked_decimals _).cons hink
    · exact inked_zero _
  · exact inked_zero _

theorem inked_realSuffix (text : Text) : Inked (realSuffix text) text := by
  unfold realSuffix
  split
  · next h =>
    cases text with
    | nil => exact absurd h (by decide)
    | cons c cs =>
        refine (inked_zero cs).cons ?_
        simp only [headIs, List.contains_iff_mem, List.mem_cons, List.not_mem_nil, or_false] at h
        rcases h with rfl | rfl | rfl | rfl | rfl | rfl <;> decide
  · exact inked_zero text

/-- The parts of a real number, where it has a part that tells it from an
    integer. -/
theorem inked_scaled {whole fraction : Nat} {text : Text} (hwhole : Inked whole text)
    (hfraction : Inked fraction (text.drop whole)) :
    Inked (if whole + fraction = 0 then 0
      else if fraction + exponent (text.drop (whole + fraction))
          + realSuffix (text.drop (whole + fraction + exponent (text.drop (whole + fraction)))) = 0
        then 0
        else whole + fraction + exponent (text.drop (whole + fraction))
          + realSuffix (text.drop (whole + fraction + exponent (text.drop (whole + fraction)))))
      text := by
  split
  · exact inked_zero text
  · split
    · exact inked_zero text
    · exact ((hwhole.add hfraction).add (inked_exponent _)).add (inked_realSuffix _)

theorem inked_real (text : Text) : Inked (realLength text) text := by
  refine inked_scaled (inked_decimals text) ?_
  split
  · next heq =>
    rw [heq]
    unfold exponent.marked
    split
    · exact inked_zero _
    · exact (inked_decimals _).cons (by decide)
  · exact inked_zero _

/-! ### Literals -/

/-- The next `n` characters of the text end with ink. -/
def InkEnd (n : Nat) (text : Text) : Prop :=
  ∃ before c, text.take n = before ++ [c] ∧ isInk c = true

theorem InkEnd.add {n m : Nat} {text : Text} (h : InkEnd m (text.drop n)) :
    InkEnd (n + m) text := by
  obtain ⟨before, c, htake, hink⟩ := h
  exact ⟨text.take n ++ before, c, by rw [List.take_add, htake, List.append_assoc], hink⟩

theorem InkEnd.cons {n : Nat} {c : Char} {text : Text} (h : InkEnd n text) :
    InkEnd (n + 1) (c :: text) := by
  obtain ⟨before, d, htake, hink⟩ := h
  exact ⟨c :: before, d, by rw [List.take_succ_cons, htake, List.cons_append], hink⟩

theorem inkEnd_one {c : Char} {text : Text} (hink : isInk c = true) : InkEnd 1 (c :: text) :=
  ⟨[], c, by rw [List.take_succ_cons, List.take_zero, List.nil_append], hink⟩

theorem InkEnd.solid {n : Nat} {c : Char} {text : Text} (h : InkEnd n (c :: text))
    (hink : isInk c = true) : Solid ((c :: text).take n) := by
  refine ⟨?_, h⟩
  cases n with
  | zero =>
      obtain ⟨before, d, htake, -⟩ := h
      rw [List.take_zero] at htake
      exact absurd htake (by simp only [List.nil_eq, List.append_eq_nil_iff, List.cons_ne_nil,
        and_false, not_false_eq_true])
  | succ n => exact ⟨c, text.take n, List.take_succ_cons, hink⟩

theorem inkEnd_quotedRest {quote : Char} (hquote : isInk quote = true) {text : Text} {n : Nat}
    (h : quotedRest quote text = some n) : InkEnd n text := by
  -- The cases are those of the reader: an escape, the closing quote, a feed, any other character.
  induction text using quotedRest.induct quote generalizing n with
  | case1 => exact absurd h (by simp only [quotedRest, reduceCtorEq, not_false_eq_true])
  | case2 => exact absurd h (by simp only [quotedRest, reduceCtorEq, not_false_eq_true])
  | case3 c rest hne ih =>
      rw [quotedRest] at h
      · obtain ⟨m, hm, rfl⟩ := Option.map_eq_some_iff.1 h
        exact (ih hm).cons.cons
      · exact hne
  | case4 c rest _ _ hc =>
      rw [quotedRest, if_pos hc, Option.some.injEq] at h
      · rw [beq_iff_eq] at hc
        subst hc h
        exact inkEnd_one hquote
      all_goals assumption
  | case5 c rest _ _ hc hfeed =>
      rw [quotedRest, if_neg hc, if_pos hfeed] at h
      · exact absurd h (by simp only [reduceCtorEq, not_false_eq_true])
      all_goals assumption
  | case6 c rest _ _ hc hfeed ih =>
      rw [quotedRest, if_neg hc, if_neg hfeed] at h
      · obtain ⟨m, hm, rfl⟩ := Option.map_eq_some_iff.1 h
        exact (ih hm).cons
      all_goals assumption

theorem inkEnd_verbatimRest {text : Text} {n : Nat} (h : verbatimRest text = some n) :
    InkEnd n text := by
  induction text using verbatimRest.induct generalizing n with
  | case1 => exact absurd h (by simp only [verbatimRest, reduceCtorEq, not_false_eq_true])
  | case2 rest ih =>
      rw [verbatimRest] at h
      obtain ⟨m, hm, rfl⟩ := Option.map_eq_some_iff.1 h
      exact (ih hm).cons.cons
  | case3 c rest _ hc =>
      rw [verbatimRest, if_pos hc, Option.some.injEq] at h
      · rw [beq_iff_eq] at hc
        subst hc h
        exact inkEnd_one (by decide)
      · assumption
  | case4 c rest _ hc ih =>
      rw [verbatimRest, if_neg hc] at h
      · obtain ⟨m, hm, rfl⟩ := Option.map_eq_some_iff.1 h
        exact (ih hm).cons
      · assumption

theorem inkEnd_rawRest {quotes : Nat} (hquotes : quotes ≠ 0) {text : Text} {n : Nat}
    (h : rawRest quotes text = some n) : InkEnd n text := by
  induction text generalizing n with
  | nil => exact absurd h (by simp only [rawRest, reduceCtorEq, not_false_eq_true])
  | cons c rest ih =>
      simp only [rawRest] at h
      split at h
      · next hrun =>
        simp only [Option.some.injEq] at h
        subst h
        obtain ⟨m, rfl⟩ := Nat.exists_eq_succ_of_ne_zero hquotes
        refine ⟨List.replicate m '"', '"', ?_, by decide⟩
        rw [beq_iff_eq] at hrun
        rw [hrun, ← List.replicate_succ']
      · obtain ⟨m, hm, rfl⟩ := Option.map_eq_some_iff.1 h
        exact (ih hm).cons

/-- A string with its suffix ends with ink, if the string does. -/
theorem inkEnd_closed {mark : Nat} {rest : Option Nat} {text : Text} {n : Nat}
    (hrest : ∀ m, rest = some m → InkEnd (mark + m) text) (h : closed mark rest text = n)
    (hne : n ≠ 0) : InkEnd n text := by
  unfold closed at h
  split at h
  · exact absurd h.symm hne
  · next m =>
    subst h
    unfold bytesSuffix
    split
    · next h =>
      refine InkEnd.add ?_
      rw [Bool.or_eq_true, beq_iff_eq, beq_iff_eq] at h
      rcases h with h | h
      · exact ⟨['u'], '8', h, by decide⟩
      · exact ⟨['U'], '8', h, by decide⟩
    · exact hrest m rfl

theorem solid_character {text : Text} {n : Nat} (h : characterLength text = n) (hne : n ≠ 0) :
    Solid (text.take n) := by
  unfold characterLength at h
  split at h
  · exact absurd h.symm hne
  · next c rest =>
    cases hrest : quotedRest '\x27' rest with
    | none => rw [hrest] at h; exact absurd h.symm hne
    | some m =>
        rw [hrest] at h
        subst h
        exact (inkEnd_quotedRest (by decide) hrest).cons.cons.cons.solid (by decide)
  · split at h
    · exact absurd h.symm hne
    · subst h
      exact (inkEnd_one (c := '\x27') (by decide)).cons.cons.solid (by decide)
  · exact absurd h.symm hne

theorem solid_string {text : Text} {n : Nat} (h : stringLength text = n) (hne : n ≠ 0) :
    Solid (text.take n) := by
  unfold stringLength at h
  split at h
  · refine (inkEnd_closed (fun m hm => ?_) h hne).solid (by decide)
    rw [Nat.add_comm]
    exact (inkEnd_quotedRest (by decide) hm).cons
  · exact absurd h.symm hne

theorem solid_verbatim {text : Text} {n : Nat} (h : verbatimLength text = n) (hne : n ≠ 0) :
    Solid (text.take n) := by
  unfold verbatimLength at h
  split at h
  · refine (inkEnd_closed (fun m hm => ?_) h hne).solid (by decide)
    rw [Nat.add_comm]
    exact (inkEnd_verbatimRest hm).cons.cons
  · exact absurd h.symm hne

theorem solid_raw {text : Text} {n : Nat} (h : rawLength text = n) (hne : n ≠ 0) :
    Solid (text.take n) := by
  unfold rawLength at h
  simp only [] at h
  split at h
  · exact absurd h.symm hne
  · next hquotes =>
    have hend := inkEnd_closed (fun m hm => (inkEnd_rawRest (by omega) hm).add) h hne
    cases text with
    | nil => exact absurd (show run (· == '"') [] < 3 by decide) hquotes
    | cons c rest =>
        refine hend.solid ?_
        by_cases hc : (c == '"') = true
        · rw [beq_iff_eq] at hc
          subst hc
          decide
        · exact absurd (by simp only [run, if_neg hc]; omega) hquotes

theorem solid_of_inked {n : Nat} {text : Text} (hinked : Inked n text) (hn : n ≠ 0)
    (htext : text ≠ []) : Solid (text.take n) := by
  refine solid_of_all ?_ hinked
  rw [Ne, List.take_eq_nil_iff]
  exact not_or.2 ⟨hn, htext⟩

/-! ### Classes -/

/-- Whether a text, if it is not empty, begins and ends with ink. -/
def isBounded (text : Text) : Bool :=
  text.head?.all isInk && text.getLast?.all isInk

/-- Whether all tokens of the class begin and end with ink. -/
def isSolid : Lexeme → Bool
  | .mark text _ | .word text => isBounded text
  | .directive letters => isBounded letters
  | .filling _ | .format | .any => false
  | _ => true

theorem solid_of_isBounded {text : Text} (hbounded : isBounded text = true) (hne : text ≠ []) :
    Solid text := by
  rw [isBounded, Bool.and_eq_true, List.head?_eq_some_head hne,
    List.getLast?_eq_some_getLast hne] at hbounded
  refine ⟨?_, text.dropLast, text.getLast hne, (List.dropLast_concat_getLast hne).symm, hbounded.2⟩
  cases text with
  | nil => exact absurd rfl hne
  | cons c rest => exact ⟨c, rest, rfl, hbounded.1⟩

/-- What begins with a sign, begins with the characters of the sign. -/
theorem take_of_isPrefixOf {start text : Text} (h : start.isPrefixOf text = true) :
    text.take (List.length start) = start :=
  (List.prefix_iff_eq_take.1 (List.isPrefixOf_iff_prefix.1 h)).symm

theorem solid_wordIs {letters text : Text} {n : Nat} (hbounded : isBounded letters = true)
    (h : wordIs letters text = n) (hne : n ≠ 0) : Solid (text.take n) := by
  unfold wordIs at h
  split at h
  · next hword =>
    rw [Bool.and_eq_true] at hword
    rw [← h, take_of_isPrefixOf hword.1]
    exact solid_of_isBounded hbounded fun hnil => hne (by rw [← h, hnil]; rfl)
  · exact absurd h.symm hne

theorem solid_directive {letters text : Text} {n : Nat} (hbounded : isBounded letters = true)
    (h : directiveLength letters text = n) (hne : n ≠ 0) : Solid (text.take n) := by
  unfold directiveLength at h
  split at h
  · simp only [] at h
    split at h
    · exact absurd h.symm hne
    · next hword =>
      have hend := (solid_wordIs hbounded rfl hword).2
      refine InkEnd.solid ?_ (by decide)
      rw [← h, Nat.add_assoc, Nat.add_comm 1]
      exact (InkEnd.add hend).cons
  · exact absurd h.symm hne

/-- Tokens of a solid class begin and end with ink. -/
theorem solid_of_isSolid {lexeme : Lexeme} (hsolid : lexeme.isSolid = true) {text : Text} {n : Nat}
    (h : lexeme.length text = n) (hne : n ≠ 0) (htext : text ≠ []) : Solid (text.take n) := by
  cases lexeme with
  | mark sign unlike =>
      simp only [length] at h
      split at h
      · next hsign =>
        rw [Bool.and_eq_true] at hsign
        rw [← h, take_of_isPrefixOf hsign.1]
        exact solid_of_isBounded hsolid fun hnil => hne (by rw [← h, hnil]; rfl)
      · exact absurd h.symm hne
  | word letters => exact solid_wordIs hsolid h hne
  | identifier => exact solid_of_inked (h ▸ inked_identifier text) hne htext
  | integer => exact solid_of_inked (h ▸ inked_integer text) hne htext
  | real => exact solid_of_inked (h ▸ inked_real text) hne htext
  | character => exact solid_character h hne
  | string => exact solid_string h hne
  | verbatim => exact solid_verbatim h hne
  | raw => exact solid_raw h hne
  | directive letters => exact solid_directive hsolid h hne
  | filling quoting => exact absurd hsolid Bool.false_ne_true
  | format => exact absurd hsolid Bool.false_ne_true
  | any => exact absurd hsolid Bool.false_ne_true

end Lexeme

end SharpLint

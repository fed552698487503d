import SharpLint.Toml.Reader
import SharpLint.Toml.Writer

/-!
# Strings Written and Read

A string is written in one of five ways: between quotes or between apostrophes,
over one line or over many, and over one line between three apostrophes if it
has one itself. Whichever way is taken, it is read as it was.

Between quotes every character is read on its own, since what stands for it
tells where it ends. Between apostrophes a character stands for itself, and
what has to be shown is that the string does not end early: an apostrophe of
its own is not taken for the closing one, because there are never three of them
in a row and the last character is none.

Three closing marks would take in a mark that follows them, so what follows a
string must not begin with a quote or an apostrophe.

## Main definitions

* `Toml.Escaped`: how a character is written between quotes.
* `Toml.EndsString`: a text that cannot go on with a string before it.

## Theorems

* `Toml.escape_escaped`: The writer writes every character so.
* `Toml.basicRest_escape`, `Toml.multilineBasicRest_escape`: Between quotes a string
  is read as it was.
* `Toml.literalRest_append`, `Toml.multilineLiteralRest_append`: Between apostrophes
  it is, too.
* `Toml.anyString_quote`: A string is read as it was written.
-/

namespace SharpLint

namespace Toml

variable {c : Char} {text rest : Text}

/-! ### Characters -/

theorem isCommentChar_of_not_isControl (h : isControl c = false) : isCommentChar c = true := by
  rw [isControl, Bool.or_eq_false_iff, decide_eq_false_iff_not, beq_eq_false_iff_ne] at h
  rw [isCommentChar, Bool.or_eq_true, Bool.and_eq_true, decide_eq_true_eq, bne_iff_ne]
  exact .inr ⟨by omega, h.2⟩

/-- A character that needs no escape is a line feed or may stand in a comment. -/
theorem isCommentChar_of_isLiteralChar (h : isLiteralChar c = true) (hfeed : c ≠ '\n') :
    isCommentChar c = true := by
  rw [isLiteralChar, Bool.or_eq_true, Bool.or_eq_true, beq_iff_eq, beq_iff_eq,
    Bool.not_eq_true'] at h
  rcases h with (rfl | h) | h
  · decide
  · exact absurd h hfeed
  · exact isCommentChar_of_not_isControl h

/-- A character that passes a test is none that fails it. -/
theorem ne_of_passes {p : Char → Bool} (h : p c = true) {mark : Char} (hmark : p mark = false) :
    c ≠ mark := by
  rintro rfl
  exact absurd (hmark.symm.trans h) Bool.false_ne_true

/-- No padding is dropped before another character. -/
theorem skipPadding_cons (hspace : c ≠ ' ') (htab : c ≠ '\t') (text : Text) :
    skipPadding (c :: text) = c :: text := by
  rw [skipPadding, List.dropWhile_cons_of_neg]
  rw [Bool.or_eq_true, beq_iff_eq, beq_iff_eq]
  exact not_or.2 ⟨hspace, htab⟩

theorem lineEnd?_cons (hfeed : c ≠ '\n') (hreturn : c ≠ '\r') (text : Text) :
    lineEnd? (c :: text) = none := by
  rw [lineEnd?.eq_3]
  · exact fun _ heq => hfeed (List.cons.inj heq).1
  · exact fun _ heq => hreturn (List.cons.inj heq).1

/-- No comment holds a character that ends a line. -/
theorem lineEnd?_cons_of_isCommentChar (h : isCommentChar c = true) (text : Text) :
    lineEnd? (c :: text) = none :=
  lineEnd?_cons (ne_of_passes h (by decide)) (ne_of_passes h (by decide)) text

/-! ### Escapes -/

/-- How a character is written between quotes: a line feed as such, if the string
    goes over many lines, and otherwise by an escape or as itself. -/
inductive Escaped (multiline : Bool) : Char → Text → Prop
  | lineFeed (allowed : multiline = true) : Escaped multiline '\n' ['\n']
  | mark {c : Char} {mark : Text} (reads : ∀ rest, escape? (mark ++ rest) = some (c, rest)) :
      Escaped multiline c ('\\' :: mark)
  | plain {c : Char} (allowed : isCommentChar c = true) (not_quote : c ≠ '"')
      (not_mark : c ≠ '\\') : Escaped multiline c [c]

@[simp] theorem character?_toNat (c : Char) : character? c.toNat = some c :=
  dif_pos c.valid

/-- A control character is read from its number. -/
theorem escape?_control (h : isControl c = true) (rest : Text) :
    escape? ('u' :: '0' :: '0' :: Digit.upper (c.toNat / 16) :: Digit.upper (c.toNat % 16) :: rest)
      = some (c, rest) := by
  -- Two hexadecimal digits suffice, since control characters are small.
  have hsmall : c.toNat < 256 := by
    rw [isControl, Bool.or_eq_true, decide_eq_true_eq, beq_iff_eq] at h
    omega
  have hhigh : c.toNat / 16 < 16 := by omega
  have hlow : c.toNat % 16 < 16 := Nat.mod_lt _ (by decide)
  have hdigit (n : Fin 16) : Digit.isHexadecimal (Digit.upper n) = true := by
    revert n; decide
  have hnumber : Digit.number 16
      ['0', '0', Digit.upper (c.toNat / 16), Digit.upper (c.toNat % 16)] = c.toNat := by
    have hhighValue := Digit.value_upper ⟨_, hhigh⟩
    have hlowValue := Digit.value_upper ⟨_, hlow⟩
    have hzero : Digit.value '0' = 0 := by decide
    simp only at hhighValue hlowValue
    simp only [Digit.number, List.foldl_cons, List.foldl_nil, hhighValue, hlowValue, hzero]
    omega
  have hhexadecimal : hexadecimal? 4
      ('0' :: '0' :: Digit.upper (c.toNat / 16) :: Digit.upper (c.toNat % 16) :: rest)
        = some c.toNat := by
    have hzero : Digit.isHexadecimal '0' = true := by decide
    have hhighDigit := hdigit ⟨_, hhigh⟩
    have hlowDigit := hdigit ⟨_, hlow⟩
    simp only at hhighDigit hlowDigit
    rw [hexadecimal?]
    simp only [List.take_succ_cons, List.take_zero, hnumber]
    rw [if_pos]
    simp only [List.all_cons, List.all_nil, hzero, hhighDigit, hlowDigit, Bool.and_true,
      List.length_cons, List.length_nil, decide_eq_true_eq]
  rw [escape?, hhexadecimal, Option.bind_some, character?_toNat, Option.map_some]
  rfl

/-- What is written for a character between quotes. -/
theorem escape_escaped (multiline : Bool) (c : Char) :
    Escaped multiline c (escape multiline c) := by
  -- The characters with an escape of their own come first, then those without.
  unfold escape
  split
  · next h => exact beq_iff_eq.1 h ▸ .mark fun _ => rfl
  split
  · next h => exact beq_iff_eq.1 h ▸ .mark fun _ => rfl
  split
  · next h =>
      obtain rfl := beq_iff_eq.1 h
      split
      · next hmultiline => exact .lineFeed hmultiline
      · exact .mark fun _ => rfl
  split
  · next h => exact beq_iff_eq.1 h ▸ .mark fun _ => rfl
  split
  · next h => exact beq_iff_eq.1 h ▸ .mark fun _ => rfl
  split
  · next h =>
      obtain rfl := beq_iff_eq.1 h
      exact .mark fun _ => rfl
  split
  · next h =>
      obtain rfl := beq_iff_eq.1 h
      exact .mark fun _ => rfl
  split
  · next h => exact .mark fun rest => escape?_control h rest
  · next hquote hmark hcontrol =>
      exact .plain (isCommentChar_of_not_isControl (Bool.eq_false_iff.2 hcontrol))
        (mt beq_iff_eq.2 hquote) (mt beq_iff_eq.2 hmark)

theorem Escaped.head {multiline : Bool} {written : Text} (h : Escaped multiline c written) :
    ∃ first more, written = first :: more ∧ first ≠ '"' := by
  cases h with
  | lineFeed => exact ⟨_, _, rfl, by decide⟩
  | mark => exact ⟨_, _, rfl, by decide⟩
  | plain _ hquote => exact ⟨_, _, rfl, hquote⟩

/-- Items are no more than the characters that are written for them. -/
theorem length_le_flatMap {α : Type} {f : α → Text} (h : ∀ a, f a ≠ []) (items : List α) :
    items.length ≤ (items.flatMap f).length := by
  induction items with
  | nil => exact Nat.zero_le _
  | cons a items ih =>
      have hpos := List.length_pos_iff.2 (h a)
      rw [List.flatMap_cons, List.length_append, List.length_cons]
      omega

theorem escape_ne_nil (multiline : Bool) (c : Char) : escape multiline c ≠ [] := by
  obtain ⟨first, more, hwritten, -⟩ := (escape_escaped multiline c).head
  exact hwritten ▸ List.cons_ne_nil first more

/-- A backslash before an escape does not end a line. -/
theorem lineEnd?_of_escape? (h : escape? text = some (c, rest)) :
    lineEnd? (skipPadding text) = none := by
  cases text with
  | nil => rfl
  | cons d more =>
      have hd : d ≠ ' ' ∧ d ≠ '\t' ∧ d ≠ '\n' ∧ d ≠ '\r' := by
        refine ⟨?_, ?_, ?_, ?_⟩ <;> (rintro rfl; exact nomatch h)
      obtain ⟨hspace, htab, hfeed, hreturn⟩ := hd
      rw [skipPadding_cons hspace htab, lineEnd?_cons hfeed hreturn]

/-! ### Strings on one line -/

theorem basicRest_plain {fuel : Nat} (hchar : isCommentChar c = true) (hquote : c ≠ '"')
    (hmark : c ≠ '\\') (rest : Text) :
    basicRest (fuel + 1) (c :: rest)
      = (basicRest fuel rest).map fun (more, rest) => (c :: more, rest) := by
  rw [basicRest, if_pos hchar]
  · exact hquote
  · exact hmark

/-- Between quotes a string on one line is read as it was. -/
theorem basicRest_escape (text rest : Text) {fuel : Nat} (hfuel : text.length < fuel) :
    basicRest fuel (text.flatMap (escape false) ++ '"' :: rest) = some (text, rest) := by
  induction text generalizing fuel with
  | nil =>
      obtain ⟨fuel, rfl⟩ := Nat.exists_eq_succ_of_ne_zero (Nat.ne_zero_of_lt hfuel)
      rfl
  | cons c text ih =>
      obtain ⟨fuel, rfl⟩ := Nat.exists_eq_succ_of_ne_zero (Nat.ne_zero_of_lt hfuel)
      have hrest := ih (Nat.lt_of_succ_lt_succ hfuel)
      have hescaped := escape_escaped false c
      rw [List.flatMap_cons, List.append_assoc]
      generalize escape false c = written at hescaped ⊢
      -- What stands for the first character is read before all that follows.
      cases hescaped with
      | lineFeed hmultiline => exact absurd hmultiline Bool.false_ne_true
      | plain hchar hquote hmark =>
          rw [List.singleton_append, basicRest_plain hchar hquote hmark, hrest]
          rfl
      | mark hreads =>
          rw [List.cons_append, basicRest, hreads]
          simp only [hrest, Option.map_some]

/-- Between apostrophes a string on one line is read as it is. -/
theorem literalRest_append (htext : ∀ c ∈ text, isCommentChar c = true ∧ c ≠ '\x27')
    (rest : Text) : literalRest (text ++ '\x27' :: rest) = some (text, rest) := by
  induction text with
  | nil => rfl
  | cons c text ih =>
      obtain ⟨hchar, hquote⟩ := htext c List.mem_cons_self
      rw [List.cons_append, literalRest, if_neg (mt beq_iff_eq.1 hquote), if_pos hchar,
        ih fun d hd => htext d (List.mem_cons_of_mem c hd)]
      rfl

/-! ### Strings over many lines -/

/-- What follows a string does not begin with a mark of strings. -/
def EndsString (rest : Text) : Prop :=
  ∀ c more, rest = c :: more → c ≠ '"' ∧ c ≠ '\x27'

/-- Three marks close a string if no fourth one follows. -/
theorem closing?_marks {quote : Char} (h : ∀ c more, rest = c :: more → c ≠ quote) :
    closing? quote (quote :: quote :: quote :: rest) = some ([], rest) := by
  have hrun : rest.takeWhile (· == quote) = [] := by
    cases rest with
    | nil => rfl
    | cons c more => rw [List.takeWhile_cons, if_neg (mt beq_iff_eq.1 (h c more rfl))]
  simp only [closing?, List.takeWhile_cons, beq_self_eq_true, if_true, hrun]
  rfl

/-- Less than three marks do not. -/
theorem closing?_eq_none {quote : Char} (h : (text.takeWhile (· == quote)).length < 3) :
    closing? quote text = none :=
  if_pos h

theorem closing?_cons_of_ne {quote : Char} (h : c ≠ quote) (rest : Text) :
    closing? quote (c :: rest) = none := by
  refine closing?_eq_none ?_
  rw [List.takeWhile_cons, if_neg (mt beq_iff_eq.1 h)]
  exact Nat.succ_pos 2

/-- Between quotes a string over many lines is read as it was. -/
theorem multilineBasicRest_escape (text : Text) (hrest : EndsString rest) {fuel : Nat}
    (hfuel : text.length < fuel) :
    multilineBasicRest fuel (text.flatMap (escape true) ++ '"' :: '"' :: '"' :: rest)
      = some (text, rest) := by
  induction text generalizing fuel with
  | nil =>
      obtain ⟨fuel, rfl⟩ := Nat.exists_eq_succ_of_ne_zero (Nat.ne_zero_of_lt hfuel)
      have hclosing := closing?_marks fun c more h => (hrest c more h).1
      simp only [List.flatMap_nil, List.nil_append, multilineBasicRest, hclosing]
  | cons c text ih =>
      obtain ⟨fuel, rfl⟩ := Nat.exists_eq_succ_of_ne_zero (Nat.ne_zero_of_lt hfuel)
      have htext := ih (Nat.lt_of_succ_lt_succ hfuel)
      have hescaped := escape_escaped true c
      rw [List.flatMap_cons, List.append_assoc]
      generalize escape true c = written at hescaped ⊢
      -- No character is written with a quote in front, so none closes the string.
      cases hescaped with
      | lineFeed _ =>
          have hopen := closing?_cons_of_ne (show '\n' ≠ '"' by decide)
          have hfeed (more : Text) : lineEnd? ('\n' :: more) = some more := rfl
          rw [List.singleton_append, multilineBasicRest.eq_def]
          simp only [hopen, hfeed, htext, Option.map_some]
      | plain hchar hquote hmark =>
          rw [List.singleton_append, multilineBasicRest]
          · simp only [closing?_cons_of_ne hquote, lineEnd?_cons_of_isCommentChar hchar, hchar,
              if_true, htext, Option.map_some]
          · exact hmark
      | mark hreads =>
          have hopen := closing?_cons_of_ne (show '\\' ≠ '"' by decide)
          have hfeed (more : Text) : lineEnd? ('\\' :: more) = none :=
            lineEnd?_cons_of_isCommentChar (by decide) more
          rw [List.cons_append, multilineBasicRest]
          simp only [hopen, hfeed, lineEnd?_of_escape? (hreads _)]
          simp only [hreads, htext, Option.map_some]

/-! #### Between apostrophes -/

theorem longestRun_mono {m n : Nat} (h : m ≤ n) (text : Text) :
    longestRun m text ≤ longestRun n text := by
  induction text generalizing m n with
  | nil => exact h
  | cons c text ih =>
      rw [longestRun, longestRun]
      split
      · exact ih (Nat.succ_le_succ h)
      · omega

/-- A run at the start of a text goes on one before it. -/
theorem run_le_longestRun (run : Nat) (text : Text) :
    run + (text.takeWhile (· == '\x27')).length ≤ longestRun run text := by
  induction text generalizing run with
  | nil => exact Nat.le_refl run
  | cons c text ih =>
      rw [longestRun, List.takeWhile_cons]
      split
      · have hmore := ih (run + 1)
        rw [List.length_cons]
        omega
      · exact Nat.le_max_left run _

theorem longestRun_tail_le (c : Char) (text : Text) :
    longestRun 0 text ≤ longestRun 0 (c :: text) := by
  rw [longestRun]
  split
  · exact longestRun_mono (Nat.zero_le 1) text
  · exact Nat.le_max_right 0 _

/-- A run that does not reach the end of a text does not go on behind it. -/
theorem takeWhile_append_of_last {p : Char → Bool} (c : Char) (text behind : Text)
    (h : ∀ last, (c :: text).getLast? = some last → p last = false) :
    (c :: text ++ behind).takeWhile p = (c :: text).takeWhile p := by
  induction text generalizing c with
  | nil =>
      have hc := Bool.eq_false_iff.1 (h c rfl)
      rw [List.cons_append, List.takeWhile_cons, List.takeWhile_cons, if_neg hc, if_neg hc]
  | cons d text ih =>
      rw [List.cons_append, List.takeWhile_cons, List.takeWhile_cons,
        ih d fun last hlast => h last (List.getLast?_cons_cons.trans hlast)]

/-- Between apostrophes a string over many lines is read as it is. -/
theorem multilineLiteralRest_append (hliteral : ∀ c ∈ text, isLiteralChar c = true)
    (hruns : longestRun 0 text < 3) (hlast : text.getLast? ≠ some '\x27')
    (hrest : EndsString rest) {fuel : Nat} (hfuel : text.length < fuel) :
    multilineLiteralRest fuel (text ++ '\x27' :: '\x27' :: '\x27' :: rest) = some (text, rest) := by
  induction text generalizing fuel with
  | nil =>
      obtain ⟨fuel, rfl⟩ := Nat.exists_eq_succ_of_ne_zero (Nat.ne_zero_of_lt hfuel)
      have hclosing := closing?_marks fun c more h => (hrest c more h).2
      rw [List.nil_append, multilineLiteralRest, hclosing]
  | cons c text ih =>
      obtain ⟨fuel, rfl⟩ := Nat.exists_eq_succ_of_ne_zero (Nat.ne_zero_of_lt hfuel)
      have hlast' : text.getLast? ≠ some '\x27' := by
        cases text with
        | nil => exact nofun
        | cons d text => rwa [List.getLast?_cons_cons] at hlast
      have htext := ih (fun d hd => hliteral d (List.mem_cons_of_mem c hd))
        (Nat.lt_of_le_of_lt (longestRun_tail_le c text) hruns) hlast' (Nat.lt_of_succ_lt_succ hfuel)
      -- The marks behind the string do not add to a run in it.
      have hopen (behind : Text) : closing? '\x27' (c :: (text ++ behind)) = none := by
        refine closing?_eq_none ?_
        rw [← List.cons_append, takeWhile_append_of_last c text behind]
        · have hrun := run_le_longestRun 0 (c :: text)
          omega
        · intro last hlastEq
          refine beq_eq_false_iff_ne.2 fun heq => hlast ?_
          rw [hlastEq, heq]
      rw [List.cons_append, multilineLiteralRest, hopen]
      by_cases hfeed : c = '\n'
      · subst hfeed
        have hend (more : Text) : lineEnd? ('\n' :: more) = some more := rfl
        simp only [hend, htext, Option.map_some]
      · have hchar := isCommentChar_of_isLiteralChar (hliteral c List.mem_cons_self) hfeed
        simp only [lineEnd?_cons_of_isCommentChar hchar, hchar, if_true, htext, Option.map_some]

/-! ### All strings -/

theorem anyString_quotes (text : Text) : anyString ('"' :: '"' :: '"' :: text)
    = multilineBasicRest (text.length + 4) (dropFirstLineEnd text) :=
  rfl

theorem anyString_apostrophes (text : Text) : anyString ('\x27' :: '\x27' :: '\x27' :: text)
    = multilineLiteralRest (text.length + 4) (dropFirstLineEnd text) :=
  rfl

/-- Without three marks at its start a string is on one line. -/
theorem anyString_eq_lineString (h : ∀ mark, text.take 3 ≠ [mark, mark, mark]) :
    anyString text = lineString text := by
  rw [anyString, if_neg (mt beq_iff_eq.1 (h '"')), if_neg (mt beq_iff_eq.1 (h '\x27'))]

theorem dropFirstLineEnd_of_isCommentChar (h : isCommentChar c = true) (text : Text) :
    dropFirstLineEnd (c :: text) = c :: text := by
  rw [dropFirstLineEnd, lineEnd?_cons_of_isCommentChar h, Option.getD_none]

theorem prefersLiteral_iff : prefersLiteral text = true ↔
    ('"' ∈ text ∨ '\\' ∈ text) ∧ (∀ c ∈ text, isLiteralChar c = true)
      ∧ longestRun 0 text < 3 ∧ text.getLast? ≠ some '\x27' := by
  rw [prefersLiteral]
  simp only [Bool.and_eq_true, Bool.or_eq_true, List.contains_iff_mem, List.all_eq_true,
    decide_eq_true_eq, bne_iff_ne, and_assoc]

/-- A string is read as it was written. -/
theorem anyString_quote (text : Text) (hrest : EndsString rest) :
    anyString (quote text ++ rest) = some (text, rest) := by
  rw [quote]
  simp only [List.contains_iff_mem]
  split
  · next hliteral =>
    -- Between apostrophes.
    obtain ⟨hmarked, hliteral, hruns, hlast⟩ := prefersLiteral_iff.1 hliteral
    split
    · simp only [List.replicate, List.cons_append, List.nil_append, List.append_assoc]
      rw [anyString_apostrophes]
      refine multilineLiteralRest_append hliteral hruns hlast hrest ?_
      rw [List.length_cons, List.length_append]
      omega
    next hfeed =>
    have hchars : ∀ c ∈ text, isCommentChar c = true := fun c hc =>
      isCommentChar_of_isLiteralChar (hliteral c hc) (ne_of_mem_of_not_mem hc hfeed)
    obtain ⟨c, more, rfl⟩ : ∃ c more, text = c :: more :=
      List.exists_cons_of_ne_nil (hmarked.elim List.ne_nil_of_mem List.ne_nil_of_mem)
    split
    · simp only [List.replicate, List.cons_append, List.nil_append, List.append_assoc]
      rw [anyString_apostrophes, dropFirstLineEnd_of_isCommentChar (hchars c List.mem_cons_self)]
      refine multilineLiteralRest_append hliteral hruns hlast hrest ?_
      rw [List.length_cons, List.length_cons, List.length_append]
      omega
    · next hquote =>
      simp only [List.replicate, List.cons_append, List.nil_append, List.append_assoc]
      rw [anyString_eq_lineString]
      · exact literalRest_append
          (fun d hd => ⟨hchars d hd, ne_of_mem_of_not_mem hd hquote⟩) rest
      · intro mark hmark
        simp only [List.take_succ_cons, List.cons.injEq] at hmark
        exact hquote (List.mem_cons.2 (.inl (hmark.1.trans hmark.2.1.symm)))
  · -- Between quotes.
    split
    · next hfeed =>
      simp only [List.replicate, List.cons_append, List.nil_append, List.append_assoc]
      rw [List.contains_iff_mem.2 hfeed, anyString_quotes]
      refine multilineBasicRest_escape text hrest ?_
      have hlength := length_le_flatMap (escape_ne_nil true) text
      rw [List.length_cons, List.length_append]
      omega
    · next hfeed =>
      simp only [List.replicate, List.cons_append, List.nil_append, List.append_assoc]
      rw [Bool.eq_false_iff.2 (mt List.contains_iff_mem.1 hfeed), anyString_eq_lineString]
      · refine basicRest_escape text rest ?_
        have hlength := length_le_flatMap (escape_ne_nil false) text
        rw [List.length_append]
        omega
      · intro mark hmark
        cases text with
        | nil =>
            cases rest with
            | nil => exact absurd hmark (by simp [List.take])
            | cons c more =>
                simp only [List.flatMap_nil, List.nil_append, List.take_succ_cons,
                  List.cons.injEq] at hmark
                exact (hrest c more rfl).1 (hmark.2.2.1.trans hmark.1.symm)
        | cons c text =>
            obtain ⟨first, more, hwritten, hquote⟩ := (escape_escaped false c).head
            simp only [List.flatMap_cons, hwritten, List.cons_append, List.take_succ_cons,
              List.cons.injEq] at hmark
            exact hquote (hmark.2.1.trans hmark.1.symm)

end Toml

end SharpLint

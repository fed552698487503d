import SharpLint.Proofs.Toml.Strings

/-!
# Values Written and Read

Flags, numbers, strings and lists of strings are read as they were written.

A value is found by trial: digits may begin a date, a time, a floating-point
number or an integer, and what is read first counts. A number that stands at
the end of its line is none but the last, since each of the others asks for a
mark behind digits, and there are only digits up to the end of the line.

## Main definitions

* `Toml.IsDigits`: a text that begins with a line of digits.
* `Toml.Written`: a text that is read as a value where it ends a line.

## Theorems

* `Digit.number_toDigits`, `Toml.wholeDigits_toDigits`: A number is read from its digits.
* `Toml.datetime?_digits`, `Toml.float?_toDigits`: Digits alone are neither a date nor a
  floating-point number.
* `Toml.readValue_writeList`: A list is read as it was written.
* `Toml.written_flag`, `Toml.written_number`, `Toml.written_list`: What is written of a
  configuration is read as the value.
-/

namespace SharpLint

namespace Digit

variable {c : Char}

theorem isDecimal_iff : isDecimal c = true ↔ c.isDigit = true := by
  rw [isDecimal, Char.isDigit, Bool.and_eq_true, Bool.and_eq_true, decide_eq_true_eq,
    decide_eq_true_eq, decide_eq_true_eq, decide_eq_true_eq]
  exact .rfl

theorem isDecimal_of_mem_toDigits {n : Nat} (h : c ∈ Nat.toDigits 10 n) : isDecimal c = true :=
  isDecimal_iff.2 (Nat.isDigit_of_mem_toDigits (by decide) (by decide) h)

theorem value_of_isDecimal (h : isDecimal c = true) : value c = c.toNat - 48 := if_pos h

/-- A number has a digit. -/
theorem exists_toDigits (n : Nat) : ∃ c digits, Nat.toDigits 10 n = c :: digits
    ∧ isDecimal c = true ∧ ∀ d ∈ digits, isDecimal d = true := by
  obtain ⟨c, digits, hdigits⟩ := List.exists_cons_of_ne_nil (@Nat.toDigits_ne_nil n 10)
  have hall : ∀ d ∈ c :: digits, isDecimal d = true := fun d hd =>
    isDecimal_of_mem_toDigits (hdigits ▸ hd)
  exact ⟨c, digits, hdigits, hall c List.mem_cons_self,
    fun d hd => hall d (List.mem_cons_of_mem c hd)⟩

/-- A number is what its digits write. -/
@[simp] theorem number_toDigits (n : Nat) : number 10 (Nat.toDigits 10 n) = n := by
  have hchars := @Nat.ofDigitChars_toDigits 10 n (by decide) (by decide)
  rw [Nat.ofDigitChars_eq_foldl] at hchars
  refine Eq.trans ?_ hchars
  -- Both folds take the same of each digit.
  refine List.foldl_rel rfl fun c hc sum sum' hsum => ?_
  rw [hsum, value_of_isDecimal (isDecimal_of_mem_toDigits hc)]
  rfl

/-- Digits of a number begin with a zero only if the number is zero. -/
theorem head_toDigits {n : Nat} (hn : 0 < n) :
    ∃ c digits, Nat.toDigits 10 n = c :: digits ∧ c ≠ '0' := by
  induction n using Nat.strongRecOn with
  | ind n ih =>
      rw [Nat.toDigits_eq_if (by decide)]
      split
      · next hlt =>
          refine ⟨_, [], rfl, ?_⟩
          have hdigit : ∀ n : Fin 10, 0 < n.val → Nat.digitChar n ≠ '0' := by decide
          exact hdigit ⟨n, hlt⟩ hn
      · next hge =>
          obtain ⟨c, digits, hdigits, hc⟩ :=
            ih (n / 10) (Nat.div_lt_self hn (by decide)) (by omega)
          exact ⟨c, digits ++ [_], by rw [hdigits, List.cons_append], hc⟩

end Digit

namespace Toml

open Digit

variable {c : Char} {digits text rest : Text}

/-! ### Digits -/

/-- The text begins with digits up to the end of a line. -/
def IsDigits (text : Text) : Prop :=
  ∃ digits rest, text = digits ++ '\n' :: rest ∧ ∀ c ∈ digits, isDecimal c = true

theorem IsDigits.head (h : IsDigits text) :
    ∃ c more, text = c :: more ∧ (isDecimal c = true ∨ c = '\n') := by
  obtain ⟨digits, rest, rfl, hdigits⟩ := h
  cases digits with
  | nil => exact ⟨_, _, rfl, .inr rfl⟩
  | cons c digits => exact ⟨_, _, rfl, .inl (hdigits c List.mem_cons_self)⟩

/-- A mark is not there where a digit or the end of the line is. -/
theorem IsDigits.expect (h : IsDigits text) {mark : Char} (hmark : isDecimal mark = false)
    (hfeed : mark ≠ '\n') : expect mark text = none := by
  obtain ⟨c, more, rfl, hc⟩ := h.head
  rw [Toml.expect, if_neg]
  rcases hc with hc | rfl
  · exact ne_of_passes hc hmark
  · exact hfeed.symm

/-- Behind some of the digits there are digits up to the end of the line. -/
theorem IsDigits.fixedDigits {n low high value : Nat} (h : IsDigits text)
    (hread : fixedDigits n low high text = some (value, rest)) : IsDigits rest := by
  obtain ⟨digits, behind, rfl, hdigits⟩ := h
  simp only [Toml.fixedDigits] at hread
  split at hread
  · next hguard =>
      simp only [Option.some.injEq, Prod.mk.injEq] at hread
      rw [← hread.2]
      simp only [Bool.and_eq_true, decide_eq_true_eq, List.all_eq_true] at hguard
      obtain ⟨⟨⟨-, hall⟩, -⟩, -⟩ := hguard
      -- The digits that are taken hold no feed, so they lie before the end of the line.
      have hle : n ≤ digits.length := by
        refine Nat.le_of_not_lt fun hlt => ?_
        obtain ⟨k, rfl⟩ := Nat.exists_eq_add_of_lt hlt
        have hfeed : '\n' ∈ (digits ++ '\n' :: behind).take (digits.length + k + 1) := by
          rw [Nat.add_assoc, List.take_length_add_append, List.take_succ_cons]
          exact List.mem_append_right _ List.mem_cons_self
        exact absurd (hall _ hfeed) (by decide)
      rw [List.drop_append_of_le_length hle]
      exact ⟨_, behind, rfl, fun c hc => hdigits c (List.mem_of_mem_drop hc)⟩
  · exact absurd hread (by simp only [reduceCtorEq, not_false_eq_true])

/-- Nothing is read that asks for a mark behind a number of digits. -/
theorem IsDigits.marked {α : Type} (h : IsDigits text) (n low high : Nat) {mark : Char}
    (hmark : isDecimal mark = false) (hfeed : mark ≠ '\n') (more : Nat × Text → Text → Option α) :
    ((Toml.fixedDigits n low high text).bind fun found =>
      (Toml.expect mark found.2).bind (more found)) = none := by
  cases hread : Toml.fixedDigits n low high text with
  | none => rfl
  | some found =>
      obtain ⟨value, rest⟩ := found
      simp only [Option.bind_some, (h.fixedDigits hread).expect hmark hfeed, Option.bind_none]

/-- Digits alone are no date and no time, for these have marks among them. -/
theorem datetime?_digits (h : IsDigits text) : datetime? text = none := by
  have hdate : date? text = none :=
    h.marked 4 0 9999 (show isDecimal '-' = false by decide) (by decide) _
  have htime : time? text = none :=
    h.marked 2 0 23 (show isDecimal ':' = false by decide) (by decide) _
  rw [datetime?, hdate, htime]
  rfl

/-! ### Numbers -/

theorem digitGroups_go {p : Char → Bool} (hjoin : p '_' = false) (hend : p '\n' = false)
    (hdigits : ∀ d ∈ digits, p d = true) (c : Char) (rest : Text) :
    digitGroups.go p c (digits ++ '\n' :: rest) = (c :: digits, '\n' :: rest) := by
  induction digits generalizing c with
  | nil =>
      rw [List.nil_append, digitGroups.go, if_neg (Bool.eq_false_iff.1 hend)]
      exact fun _ _ h => absurd h (by decide)
  | cons d digits ih =>
      have hd := hdigits d List.mem_cons_self
      have hmore := ih (fun e he => hdigits e (List.mem_cons_of_mem d he)) d
      rw [List.cons_append, digitGroups.go, if_pos hd, hmore]
      rintro e more rfl
      rw [hjoin] at hd
      exact absurd hd Bool.false_ne_true

/-- The digits of a number are read as a whole, up to the end of the line. -/
theorem wholeDigits_toDigits (n : Nat) (rest : Text) :
    wholeDigits (Nat.toDigits 10 n ++ '\n' :: rest) = some (Nat.toDigits 10 n, '\n' :: rest) := by
  rcases Nat.eq_zero_or_pos n with rfl | hn
  · rfl
  · obtain ⟨c, digits, hdigits, hc⟩ := head_toDigits hn
    have hall : ∀ d ∈ c :: digits, isDecimal d = true := fun d hd =>
      isDecimal_of_mem_toDigits (hdigits ▸ hd)
    have hgroups := digitGroups_go (by decide) (by decide)
      (fun d hd => hall d (List.mem_cons_of_mem c hd)) c rest
    rw [hdigits, List.cons_append, wholeDigits, digitGroups, if_pos (hall c List.mem_cons_self),
      hgroups]
    rintro more heq
    exact hc (List.cons.inj heq).1

theorem isDigits_toDigits (n : Nat) (rest : Text) :
    IsDigits (Nat.toDigits 10 n ++ '\n' :: rest) :=
  ⟨_, rest, rfl, fun _ hc => isDecimal_of_mem_toDigits hc⟩

theorem signOf_of_isDecimal (h : isDecimal c = true) (rest : Text) :
    signOf (c :: rest) = (false, c :: rest) := by
  rw [signOf]
  · exact fun more heq => ne_of_passes h (by decide) (List.cons.inj heq).1
  · exact fun more heq => ne_of_passes h (by decide) (List.cons.inj heq).1

/-- A number in digits alone is no floating-point number. -/
theorem float?_toDigits (n : Nat) (rest : Text) :
    float? (Nat.toDigits 10 n ++ '\n' :: rest) = none := by
  obtain ⟨c, digits, hdigits, hc, -⟩ := exists_toDigits n
  have hwhole := wholeDigits_toDigits n rest
  rw [hdigits, List.cons_append] at hwhole ⊢
  rw [float?, signOf_of_isDecimal hc]
  simp only
  split
  · next heq => exact absurd (List.cons.inj heq).1 (ne_of_passes hc (by decide))
  · next heq => exact absurd (List.cons.inj heq).1 (ne_of_passes hc (by decide))
  · rw [hwhole]
    rfl

/-- A number that fits is read from its digits. -/
theorem integer?_toDigits {n : Nat} (hn : n < integerLimit) (rest : Text) :
    integer? (Nat.toDigits 10 n ++ '\n' :: rest) = some (.integer n, '\n' :: rest) := by
  obtain ⟨c, digits, hdigits, hc, hmore⟩ := exists_toDigits n
  have hwhole := wholeDigits_toDigits n rest
  have hvalue : integerOf false (Digit.number 10 (c :: digits)) = some (.integer n) := by
    rw [← hdigits, number_toDigits, integerOf, if_neg Bool.false_ne_true, if_pos hn]
  -- No letter for a base is behind the first digit, for a digit or the end of the line is.
  have hbase {mark : Char} (hmark : isDecimal mark = false) (hfeed : '\n' ≠ mark)
      (behind : Text) : c :: (digits ++ '\n' :: rest) ≠ '0' :: mark :: behind := by
    intro heq
    have hsecond := (List.cons.inj heq).2
    cases digits with
    | nil => exact hfeed (List.cons.inj hsecond).1
    | cons d digits =>
        exact ne_of_passes (hmore d List.mem_cons_self) hmark (List.cons.inj hsecond).1
  rw [hdigits, List.cons_append] at hwhole ⊢
  rw [integer?, signOf_of_isDecimal hc]
  · simp only [hwhole, hvalue, Option.map_some]
  · exact hbase (by decide) (by decide)
  · exact hbase (by decide) (by decide)
  · exact hbase (by decide) (by decide)

/-- What a value is that begins with none of the characters of a list, a table or
    a flag. -/
theorem readValue_cons (hc : c ≠ '[' ∧ c ≠ '\x7b' ∧ c ≠ 't' ∧ c ≠ 'f') (depth : Nat) (text : Text) :
    readValue (depth + 1) (c :: text) = if c == '"' || c == '\x27' then
        (anyString (c :: text)).map fun (found, rest) => (.string (String.ofList found), rest)
      else ((datetime? (c :: text)).or (float? (c :: text))).or (integer? (c :: text)) := by
  obtain ⟨hlist, htable, htrue, hfalse⟩ := hc
  rw [readValue]
  · exact hlist
  · exact htable
  · exact fun _ heq _ => htrue heq
  · exact fun _ heq _ => hfalse heq

/-- A number that fits is read as it was written, at the end of a line. -/
theorem readValue_number {n : Nat} (hn : n < integerLimit) (depth : Nat) (rest : Text) :
    readValue (depth + 1) ((toString n).toList ++ '\n' :: rest)
      = some (.integer n, '\n' :: rest) := by
  have hdate := datetime?_digits (isDigits_toDigits n rest)
  have hfloat := float?_toDigits n rest
  have hinteger := integer?_toDigits hn rest
  obtain ⟨c, digits, hdigits, hc, -⟩ := exists_toDigits n
  have hmark {mark : Char} (hmark : isDecimal mark = false) : c ≠ mark := ne_of_passes hc hmark
  rw [Nat.toString_eq_repr, Nat.toList_repr]
  rw [hdigits, List.cons_append] at hdate hfloat hinteger ⊢
  rw [readValue_cons ⟨hmark (by decide), hmark (by decide), hmark (by decide), hmark (by decide)⟩,
    beq_false_of_ne (hmark (by decide)), beq_false_of_ne (hmark (by decide)), Bool.or_self,
    if_neg Bool.false_ne_true, hdate, hfloat, Option.or_none, Option.none_or, hinteger]

/-! ### Strings and lists -/

theorem quote_cons (text : Text) :
    ∃ mark more, quote text = mark :: more ∧ (mark = '"' ∨ mark = '\x27') := by
  rw [quote]
  simp only
  split
  · split
    · exact ⟨_, _, rfl, .inr rfl⟩
    · split <;> exact ⟨_, _, rfl, .inr rfl⟩
  · split <;> exact ⟨_, _, rfl, .inl rfl⟩

theorem readValue_quote (text : Text) (hrest : EndsString rest) (depth : Nat) :
    readValue (depth + 1) (quote text ++ rest) = some (.string (String.ofList text), rest) := by
  have hread := anyString_quote text hrest
  obtain ⟨mark, more, hquote, hmark⟩ := quote_cons text
  rw [hquote, List.cons_append] at hread ⊢
  have hplain : mark ≠ '[' ∧ mark ≠ '\x7b' ∧ mark ≠ 't' ∧ mark ≠ 'f' := by
    rcases hmark with rfl | rfl <;> decide
  rw [readValue_cons hplain, if_pos (by rcases hmark with rfl | rfl <;> rfl), hread]
  rfl

/-- Nothing is skipped before a character that is no blank and begins no comment
    and no line. -/
theorem skipLines_cons (hc : c ∉ [' ', '\t', '#', '\n', '\r']) (fuel : Nat) (text : Text) :
    skipLines fuel (c :: text) = c :: text := by
  simp only [List.mem_cons, List.not_mem_nil, or_false, not_or] at hc
  obtain ⟨hspace, htab, hhash, hfeed, hreturn⟩ := hc
  have hcomment : skipComment (c :: text) = c :: text := by
    rw [skipComment, skipPadding_cons hspace htab]
    split
    · next heq => exact absurd (List.cons.inj heq).1 hhash
    · rfl
  cases fuel with
  | zero => rfl
  | succ fuel => rw [skipLines, hcomment, lineEnd?_cons hfeed hreturn]

variable {value : Reader Toml} {fuel : Nat}

theorem skipLines_quote (text rest : Text) (fuel : Nat) :
    skipLines fuel (quote text ++ rest) = quote text ++ rest := by
  obtain ⟨mark, more, hquote, hmark⟩ := quote_cons text
  rw [hquote]
  refine skipLines_cons ?_ fuel (more ++ rest)
  rcases hmark with rfl | rfl <;> decide

theorem arrayRest_end (hskip : skipLines text.length text = ']' :: rest) :
    arrayRest value (fuel + 1) text = some ([], rest) := by
  rw [arrayRest, hskip]
  rfl

/-- Where a string is next in an array, it is read, and then what follows it. -/
theorem arrayRest_quote {item : Text} (depth : Nat) (hrest : EndsString rest)
    (hskip : skipLines text.length text = quote item ++ rest) :
    arrayRest (readValue (depth + 1)) (fuel + 1) text = match skipLines rest.length rest with
      | ',' :: rest => (arrayRest (readValue (depth + 1)) fuel rest).map fun (items, rest) =>
          (.string (String.ofList item) :: items, rest)
      | ']' :: rest => some ([.string (String.ofList item)], rest)
      | _ => none := by
  have hread := readValue_quote item hrest depth
  rw [arrayRest, hskip]
  split
  · next heq =>
      obtain ⟨mark, more, hquote, hmark⟩ := quote_cons item
      rw [hquote] at heq
      rcases hmark with rfl | rfl <;> exact absurd (List.cons.inj heq).1 (by decide)
  · rewrite [hread]
    rfl

theorem endsString_cons (h : c ≠ '"' ∧ c ≠ '\x27') (rest : Text) : EndsString (c :: rest) := by
  rintro d more heq
  exact (List.cons.inj heq).1 ▸ h

/-- Items on lines of their own are read one after another. -/
theorem arrayRest_lines (texts : List Text) (rest : Text) (depth : Nat)
    (hfuel : texts.length < fuel) :
    arrayRest (readValue (depth + 1)) fuel ('\n'
        :: ((texts.flatMap fun text => "    ".toList ++ quote text ++ [',', '\n']) ++ ']' :: rest))
      = some (texts.map fun text => .string (String.ofList text), rest) := by
  induction texts generalizing fuel with
  | nil =>
      obtain ⟨fuel, rfl⟩ := Nat.exists_eq_succ_of_ne_zero (Nat.ne_zero_of_lt hfuel)
      have hskip : skipLines (rest.length + 1) (']' :: rest) = ']' :: rest :=
        skipLines_cons (by decide) _ rest
      exact arrayRest_end hskip
  | cons text texts ih =>
      obtain ⟨fuel, rfl⟩ := Nat.exists_eq_succ_of_ne_zero (Nat.ne_zero_of_lt hfuel)
      have hmore := ih (Nat.lt_of_succ_lt_succ hfuel)
      generalize hlines : ((texts.flatMap fun text => "    ".toList ++ quote text ++ [',', '\n'])
        ++ ']' :: rest) = lines at hmore
      have htext : ((text :: texts).flatMap fun text => "    ".toList ++ quote text ++ [',', '\n'])
          ++ ']' :: rest = ' ' :: ' ' :: ' ' :: ' ' :: (quote text ++ ',' :: '\n' :: lines) := by
        rw [← hlines, List.flatMap_cons]
        simp only [List.append_assoc]
        rfl
      have hcomma : EndsString (',' :: '\n' :: lines) := endsString_cons (by decide) _
      -- The line feed and the indentation are skipped.
      have hskip (k : Nat) (behind : Text) : skipLines (k + 2)
          ('\n' :: ' ' :: ' ' :: ' ' :: ' ' :: (quote text ++ behind)) = quote text ++ behind :=
        skipLines_quote text behind (k + 1)
      rw [htext, arrayRest_quote depth hcomma (hskip _ _), skipLines_cons (by decide)]
      simp only [hmore, Option.map_some, List.map_cons]

/-- A list is read as it was written. -/
theorem readValue_writeList (texts : List Text) (depth : Nat) (rest : Text) :
    readValue (depth + 2) (writeList texts ++ rest)
      = some (.array (texts.map fun text => .string (String.ofList text)), rest) := by
  have harray (text : Text) (items : List Toml) (h : arrayRest (readValue (depth + 1))
      (text.length + 1) text = some (items, rest)) :
      readValue (depth + 2) ('[' :: text) = some (.array items, rest) := by
    rw [readValue, h]
    rfl
  -- Up to one item is written on one line, and more with a line for each.
  match texts with
  | [] => exact harray _ _ (arrayRest_end (skipLines_cons (by decide) _ rest))
  | [text] =>
      simp only [writeList, List.cons_append, List.append_assoc, List.nil_append]
      refine harray _ _ ?_
      have hbracket : EndsString (']' :: rest) := endsString_cons (by decide) rest
      rw [arrayRest_quote depth hbracket (skipLines_quote _ _ _), skipLines_cons (by decide)]
      rfl
  | first :: second :: texts =>
      rw [writeList, List.cons_append, List.cons_append, List.append_assoc, List.singleton_append]
      · refine harray _ _ (arrayRest_lines (first :: second :: texts) rest depth ?_)
        have hline (text : Text) : "    ".toList ++ quote text ++ [',', '\n'] ≠ [] :=
          List.append_ne_nil_of_right_ne_nil _ (List.cons_ne_nil _ _)
        have hlength := length_le_flatMap hline (first :: second :: texts)
        simp only [List.length_cons, List.length_append] at hlength ⊢
        omega
      · exact nofun
      · exact fun _ heq => List.cons_ne_nil _ _ (List.cons.inj heq).2

/-! ### Values at the ends of lines -/

/-- The text is read as the value where it ends a line, and does not begin with
    padding. -/
structure Written (value : Toml) (text : Text) : Prop where
  head : ∃ c more, text = c :: more ∧ c ≠ ' ' ∧ c ≠ '\t'
  reads : ∀ rest, readValue depthLimit (text ++ '\n' :: rest) = some (value, '\n' :: rest)

theorem written_flag (value : Bool) : Written (.boolean value) (toString value).toList := by
  cases value with
  | true => exact ⟨⟨_, _, rfl, by decide⟩, fun _ => rfl⟩
  | false => exact ⟨⟨_, _, rfl, by decide⟩, fun _ => rfl⟩

theorem written_number {n : Nat} (hn : n < integerLimit) :
    Written (.integer n) (toString n).toList := by
  refine ⟨?_, readValue_number hn _⟩
  obtain ⟨c, digits, hdigits, hc, -⟩ := exists_toDigits n
  rw [Nat.toString_eq_repr, Nat.toList_repr]
  exact ⟨c, digits, hdigits, ne_of_passes hc (by decide), ne_of_passes hc (by decide)⟩

theorem written_list (texts : List Text) :
    Written (.array (texts.map fun text => .string (String.ofList text))) (writeList texts) := by
  refine ⟨?_, fun rest => readValue_writeList texts _ _⟩
  match texts with
  | [] => exact ⟨_, _, rfl, by decide⟩
  | [_] => exact ⟨_, _, rfl, by decide⟩
  | _ :: _ :: _ => exact ⟨_, _, rfl, by decide⟩

end Toml

end SharpLint

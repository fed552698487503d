import SharpLint.Proofs.Files.Utf8
import SharpLint.Proofs.Text.Breaks

/-!
# Searching a Line Table

A line table can be scanned from the bytes of a text as well as from its
characters: the byte of a line feed stands for nothing else, since every byte of
a character that takes several is 128 or more.

The line of an offset can be searched by halving instead of by walking along the
table. An offset at which a line starts is found; any other one belongs to the
line before the place where it would have to be put in. That place is never the
first, since the first line starts at zero, so there always is a line before it.

`LineTable.Answers` says what is asked of such a search. Where it halves, and
whether it stops early, is left open, and the line that it tells does not depend
on either. `LineTable.bisect` is a search of this kind.

## Main definitions

* `LineTable.ofBytes`: the line table of a text, from its bytes.
* `LineTable.Answers`: what a search among the starts may answer.
* `LineTable.bisect`: the search by halving.
* `LineTable.answeredLine?`: the line that an answer tells.
* `LineTable.find?`: the line of an offset, by halving.

## Theorems

* `Utf8.toNat_of_mem_utf8EncodeChar`: A byte below 128 is a character.
* `LineTable.ofBytes_encode`: Bytes and characters have one table.
* `LineTable.line_eq_count_encode`: The line of a cut, counted in bytes.
* `LineTable.pairwise_starts`: The starts of lines come in order.
* `LineTable.bisect_answers`: Halving answers what is asked.
* `LineTable.line_eq_of_getElem`: The line ends the starts that are not behind.
* `LineTable.answeredLine?_eq`: Every answer tells the line.
* `LineTable.find?_ofText`: Searching and walking find one line.
-/

namespace SharpLint

open Text

/-! ### Bytes of line feeds -/

namespace Utf8

theorem length_flatMap_utf8EncodeChar (text : Text) :
    (text.flatMap String.utf8EncodeChar).length = text.size := by
  induction text with
  | nil => rfl
  | cons c text ih =>
      rw [List.flatMap_cons, List.length_append, String.length_utf8EncodeChar, ih, size_cons]

/-- A byte below 128 is all there is of its character. -/
theorem toNat_of_mem_utf8EncodeChar {c : Char} {byte : UInt8}
    (hmem : byte ∈ String.utf8EncodeChar c) (hbyte : byte.toNat < 128) :
    c.toNat = byte.toNat := by
  have hhigh {n : Nat} (hlow : 128 ≤ n) (hn : n < 256) : byte ≠ UInt8.ofNat n := by
    rintro rfl
    rw [toNat_ofNat hn] at hbyte
    omega
  change c.val.toNat = byte.toNat
  unfold String.utf8EncodeChar at hmem
  simp only at hmem
  generalize c.val.toNat = v at hmem ⊢
  -- One case for each number of bytes; only a single byte is below 128.
  split at hmem
  · rw [List.mem_singleton.1 hmem, toNat_ofNat (by omega)]
  split at hmem
  · simp only [List.mem_cons, List.not_mem_nil, or_false] at hmem
    rcases hmem with h | h <;> exact absurd h (hhigh (by omega) (by omega))
  split at hmem
  · simp only [List.mem_cons, List.not_mem_nil, or_false] at hmem
    rcases hmem with h | h | h <;> exact absurd h (hhigh (by omega) (by omega))
  · simp only [List.mem_cons, List.not_mem_nil, or_false] at hmem
    rcases hmem with h | h | h | h <;> exact absurd h (hhigh (by omega) (by omega))

/-- No other character has the byte of a line feed. -/
theorem feed_not_mem_utf8EncodeChar {c : Char} (hc : c ≠ '\n') :
    0x0A ∉ String.utf8EncodeChar c := by
  intro hmem
  have hfeed : c.toNat = '\n'.toNat := toNat_of_mem_utf8EncodeChar hmem (by decide)
  exact hc (Char.toNat_inj.1 hfeed)

end Utf8

namespace LineTable

/-- The offsets just after each line feed of bytes that start at `offset`. -/
def feedEnds (offset : Nat) (bytes : List UInt8) : List Nat :=
  ((bytes.zipIdx offset).filter fun entry => entry.1 == 0x0A).map fun entry => entry.2 + 1

/-- The line table of a text, from its bytes. -/
def ofBytes (bytes : List UInt8) : LineTable :=
  ⟨0 :: feedEnds 0 bytes, bytes.length⟩

theorem feedEnds_append (offset : Nat) (a b : List UInt8) :
    feedEnds offset (a ++ b) = feedEnds offset a ++ feedEnds (offset + a.length) b := by
  rw [feedEnds, List.zipIdx_append, List.filter_append, List.map_append]
  rfl

theorem feedEnds_cons (offset : Nat) (byte : UInt8) (bytes : List UInt8) :
    feedEnds offset (byte :: bytes)
      = if byte = 0x0A then (offset + 1) :: feedEnds (offset + 1) bytes
        else feedEnds (offset + 1) bytes := by
  rw [feedEnds, List.zipIdx_cons, List.filter_cons]
  simp only [beq_iff_eq]
  split <;> rfl

theorem length_feedEnds (offset : Nat) (bytes : List UInt8) :
    (feedEnds offset bytes).length = bytes.count 0x0A := by
  induction bytes generalizing offset with
  | nil => rfl
  | cons byte bytes ih =>
      rw [feedEnds_cons, List.count_cons]
      by_cases hbyte : byte = 0x0A
      · rw [if_pos hbyte, List.length_cons, ih, hbyte, beq_self_eq_true, if_pos rfl]
      · rw [if_neg hbyte, ih, beq_eq_false_iff_ne.2 hbyte, if_neg Bool.false_ne_true, Nat.add_zero]

/-- The bytes of a text break where its characters do. -/
theorem feedEnds_flatMap (offset : Nat) (text : Text) :
    feedEnds offset (text.flatMap String.utf8EncodeChar) = lineBreaks offset text := by
  induction text generalizing offset with
  | nil => rfl
  | cons c text ih =>
      rw [List.flatMap_cons, feedEnds_append, String.length_utf8EncodeChar, ih, lineBreaks]
      by_cases hc : c = '\n'
      · -- The one byte of a line feed breaks where the character does.
        subst hc
        rfl
      · have hnone : feedEnds offset (String.utf8EncodeChar c) = [] := by
          rw [← List.length_eq_zero_iff, length_feedEnds, List.count_eq_zero]
          exact Utf8.feed_not_mem_utf8EncodeChar hc
        rw [if_neg hc, hnone, List.nil_append]

/-- Bytes and characters of a text have one line table. -/
theorem ofBytes_encode (text : Text) : ofBytes (Utf8.encode text).toList = ofText text := by
  rw [Utf8.toList_encode, ofBytes, feedEnds_flatMap, Utf8.length_flatMap_utf8EncodeChar]
  rfl

/-- The bytes before a cut hold one line feed for each one of the characters. -/
theorem count_encode_cut (a b : Text) :
    ((Utf8.encode (a ++ b)).toList.take a.size).count 0x0A = a.count '\n' := by
  rw [Utf8.toList_encode, List.flatMap_append,
    List.take_left' (Utf8.length_flatMap_utf8EncodeChar a), ← length_feedEnds 0, feedEnds_flatMap,
    length_lineBreaks]

/-- The line of a cut is the number of line feeds before it, in bytes. -/
theorem line_eq_count_encode {text : Text} {offset : Nat} (h : text.CutsAt offset) :
    (ofText text).line offset = ((Utf8.encode text).toList.take offset).count 0x0A := by
  obtain ⟨a, b, rfl, rfl⟩ := h
  rw [line_cut, count_encode_cut]

/-! ### Searches -/

/-- What a search for `offset` among sorted starts may answer: where it stands,
    or else where it would have to be put in. -/
inductive Answers (starts : List Nat) (offset : Nat) : Except Nat Nat → Prop
  | found {n : Nat} (hn : n < starts.length) (hfound : starts[n] = offset) :
      Answers starts offset (.ok n)
  | missing {n : Nat} (hn : n ≤ starts.length)
      (hbefore : ∀ i (hi : i < starts.length), i < n → starts[i] < offset)
      (hbehind : ∀ i (hi : i < starts.length), n ≤ i → offset < starts[i]) :
      Answers starts offset (.error n)

/-- The search for `offset` among the starts from `low` on and before `high`. -/
def bisect (starts : List Nat) (offset low high : Nat) (hhigh : high ≤ starts.length) :
    Except Nat Nat :=
  if hwindow : low < high then
    let middle := (low + high) / 2
    have hmiddle : middle < starts.length := by omega
    if starts[middle] = offset then .ok middle
    else if starts[middle] < offset then bisect starts offset (middle + 1) high hhigh
    else bisect starts offset low middle (Nat.le_of_lt hmiddle)
  else .error low
  termination_by high - low

/-- The line that an answer tells: the one that starts at the offset, or else the
    one before the place of the offset, if there is one. -/
def answeredLine? : Except Nat Nat → Option Nat
  | .ok line => some line
  | .error 0 => none
  | .error (line + 1) => some line

/-- The line that holds byte `offset`, by halving the table. -/
def find? (table : LineTable) (offset : Nat) : Option Nat :=
  answeredLine? (bisect table.starts offset 0 table.starts.length (Nat.le_refl _))

theorem pairwise_lineBreaks (offset : Nat) (text : Text) :
    (lineBreaks offset text).Pairwise (· < ·) := by
  induction text generalizing offset with
  | nil => exact List.Pairwise.nil
  | cons c text ih =>
      rw [lineBreaks]
      by_cases hc : c = '\n'
      · -- All that breaks behind the line feed breaks behind its end.
        rw [if_pos hc]
        exact List.pairwise_cons.2 ⟨fun n hn => (mem_lineBreaks hn).1, ih _⟩
      · rw [if_neg hc]
        exact ih _

/-- The starts of lines come in order. -/
theorem pairwise_starts (text : Text) : (ofText text).starts.Pairwise (· < ·) :=
  List.pairwise_cons.2 ⟨fun _ hn => (mem_lineBreaks hn).1, pairwise_lineBreaks 0 text⟩

theorem getElem_le_getElem {starts : List Nat} (hsorted : starts.Pairwise (· < ·)) {i j : Nat}
    (hij : i ≤ j) (hj : j < starts.length) : starts[i] ≤ starts[j] := by
  rcases Nat.lt_or_eq_of_le hij with hij | rfl
  · exact Nat.le_of_lt (List.pairwise_iff_getElem.1 hsorted i j _ hj hij)
  · exact Nat.le_refl _

/-- Halving answers what is asked. Whatever stands before the window is less than
    the offset, and whatever stands behind it is greater. -/
theorem bisect_answers {starts : List Nat} (hsorted : starts.Pairwise (· < ·))
    {offset low high : Nat} (hhigh : high ≤ starts.length) (hle : low ≤ high)
    (hbefore : ∀ i (hi : i < starts.length), i < low → starts[i] < offset)
    (hbehind : ∀ i (hi : i < starts.length), high ≤ i → offset < starts[i]) :
    Answers starts offset (bisect starts offset low high hhigh) := by
  fun_induction bisect starts offset low high hhigh with
  | case1 low high hhigh hwindow middle hmiddle hfound => exact .found hmiddle hfound
  | case2 low high hhigh hwindow middle hmiddle hne hless ih =>
      -- The starts up to the middle are too small, so the window goes on behind it.
      refine ih (by omega) (fun i hi hlow => ?_) hbehind
      have := getElem_le_getElem hsorted (show i ≤ middle by omega) hmiddle
      omega
  | case3 low high hhigh hwindow middle hmiddle hne hless ih =>
      -- The starts from the middle on are too great, so the window ends before it.
      refine ih (by omega) hbefore (fun i hi hhigh => ?_)
      have := getElem_le_getElem hsorted hhigh hi
      omega
  | case4 low high hhigh hwindow =>
      obtain rfl : low = high := by omega
      exact .missing hhigh hbefore hbehind

/-- The line of an offset is the number of the last start that is not behind it. -/
theorem line_eq_of_getElem {table : LineTable} {offset n : Nat} (hn : n < table.starts.length)
    (hbefore : ∀ i (hi : i < table.starts.length), i ≤ n → table.starts[i] ≤ offset)
    (hbehind : ∀ i (hi : i < table.starts.length), n < i → offset < table.starts[i]) :
    table.line offset = n := by
  rw [line_of_sides (List.take_append_drop (n + 1) table.starts).symm, List.length_take]
  · omega
  · intro start hstart
    obtain ⟨i, hi, rfl⟩ := List.mem_take_iff_getElem.1 hstart
    exact hbefore i (by omega) (by omega)
  · intro start hstart
    obtain ⟨i, hi, rfl⟩ := List.mem_drop_iff_getElem.1 hstart
    exact hbehind (n + 1 + i) (by omega) (by omega)

/-- Every answer tells the line of the offset. -/
theorem answeredLine?_eq {table : LineTable} (hsorted : table.starts.Pairwise (· < ·))
    (hfirst : table.starts[0]? = some 0) {offset : Nat} {answer : Except Nat Nat}
    (h : Answers table.starts offset answer) :
    answeredLine? answer = some (table.line offset) := by
  cases h with
  | found hn hfound =>
      rw [line_eq_of_getElem hn]
      · rfl
      · intro i hi hin
        rw [← hfound]
        exact getElem_le_getElem hsorted hin hn
      · intro i hi hin
        rw [← hfound]
        exact List.pairwise_iff_getElem.1 hsorted _ i hn hi hin
  | @missing n hn hbefore hbehind =>
      cases n with
      | zero =>
          -- The first line starts at zero, and nothing is less.
          obtain ⟨hpos, hzero⟩ := List.getElem?_eq_some_iff.1 hfirst
          have hless := hbehind 0 hpos (Nat.le_refl _)
          omega
      | succ n =>
          -- The start before the place is the last one that is less.
          rw [line_eq_of_getElem hn]
          · rfl
          · intro i hi hin
            exact Nat.le_of_lt (hbefore i hi (by omega))
          · intro i hi hin
            exact hbehind i hi (by omega)

/-- Searching and walking find one line of a text. -/
theorem find?_ofText (text : Text) (offset : Nat) :
    (ofText text).find? offset = some ((ofText text).line offset) := by
  have hsorted := pairwise_starts text
  -- Nothing stands outside the first window, which is the whole table.
  refine answeredLine?_eq hsorted rfl (bisect_answers hsorted _ (Nat.zero_le _) ?_ ?_)
  · intro i hi hlow
    exact absurd hlow (Nat.not_lt_zero i)
  · intro i hi hhigh
    exact absurd hi (Nat.not_lt_of_le hhigh)

end LineTable

end SharpLint

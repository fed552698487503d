import SharpLint.Proofs.Text.Ink

/-!
# Ink at Some Bytes

The ink of a text, as far as it stands at bytes that are told apart by a test:
inside some stretches of the text, or outside of them. The test is on offsets,
so a text that is cut can be asked part by part.

## Main definitions

* `Span.holds`: whether a byte lies in a span.
* `Text.inkAt`: the ink of a text at the bytes that pass a test.

## Theorems

* `Text.inkAt_append`: The ink of a text is that of its parts.
* `Text.inkAt_eq_filter_iff`: When all ink of a text passes the test.
* `Text.inkAt_spans`: The ink of a text inside some stretches of it.
-/

namespace SharpLint

/-- Whether the byte lies in the span. -/
def Span.holds (span : Span) (offset : Nat) : Bool :=
  span.start ≤ offset && offset < span.stop

theorem Span.holds_iff {span : Span} {offset : Nat} :
    span.holds offset = true ↔ span.start ≤ offset ∧ offset < span.stop := by
  rw [holds, Bool.and_eq_true, decide_eq_true_eq, decide_eq_true_eq]

theorem Span.not_holds_iff {span : Span} {offset : Nat} :
    span.holds offset = false ↔ offset < span.start ∨ span.stop ≤ offset := by
  rw [holds, Bool.and_eq_false_iff, decide_eq_false_iff_not, decide_eq_false_iff_not, Nat.not_le,
    Nat.not_lt]

namespace Text

variable {keeps other : Nat → Bool} {text : Text} {offset : Nat}

/-- The ink of a text that begins at byte `offset`, at the bytes that pass the
    test. -/
def inkAt (keeps : Nat → Bool) (offset : Nat) : Text → Text
  | [] => []
  | c :: cs =>
    let rest := inkAt keeps (offset + c.utf8Size) cs
    if isInk c && keeps offset then c :: rest else rest

theorem inkAt_append (a b : Text) :
    inkAt keeps offset (a ++ b) = inkAt keeps offset a ++ inkAt keeps (offset + size a) b := by
  induction a generalizing offset with
  | nil => rfl
  | cons c a ih =>
      rw [List.cons_append, inkAt, inkAt, ih, size_cons, Nat.add_assoc]
      split <;> rfl

theorem inkAt_congr (h : ∀ n, offset ≤ n → n < offset + size text → keeps n = other n) :
    inkAt keeps offset text = inkAt other offset text := by
  induction text generalizing offset with
  | nil => rfl
  | cons c text ih =>
      have hc := Char.utf8Size_pos c
      rw [size_cons] at h
      rw [inkAt, inkAt, h offset (Nat.le_refl _) (by omega),
        ih fun n hle hlt => h n (by omega) (by omega)]

theorem inkAt_true (offset : Nat) (text : Text) :
    inkAt (fun _ => true) offset text = text.filter isInk := by
  induction text generalizing offset with
  | nil => rfl
  | cons c text ih => rw [inkAt, ih, Bool.and_true, List.filter_cons]

theorem inkAt_false (offset : Nat) (text : Text) : inkAt (fun _ => false) offset text = [] := by
  induction text generalizing offset with
  | nil => rfl
  | cons c text ih => rw [inkAt, ih, Bool.and_false, if_neg Bool.false_ne_true]

/-- Where all bytes pass the test, all ink does. -/
theorem inkAt_eq_filter (h : ∀ n, offset ≤ n → n < offset + size text → keeps n = true) :
    inkAt keeps offset text = text.filter isInk := by
  rw [inkAt_congr h, inkAt_true]

/-- Where no byte passes the test, no ink does. -/
theorem inkAt_eq_nil (h : ∀ n, offset ≤ n → n < offset + size text → keeps n = false) :
    inkAt keeps offset text = [] := by
  rw [inkAt_congr h, inkAt_false]

theorem inkAt_sublist (keeps : Nat → Bool) (offset : Nat) (text : Text) :
    (inkAt keeps offset text).Sublist (text.filter isInk) := by
  induction text generalizing offset with
  | nil => exact List.Sublist.refl _
  | cons c text ih =>
      have hrest := ih (offset + c.utf8Size)
      rw [inkAt, List.filter_cons]
      cases isInk c with
      | false => exact hrest
      | true =>
          simp only [Bool.true_and, if_true]
          split
          · exact hrest.cons_cons c
          · exact hrest.cons c

/-- All ink of a text passes the test if and only if each character of ink
    does. -/
theorem inkAt_eq_filter_iff : inkAt keeps offset text = text.filter isInk ↔
    ∀ a c b, text = a ++ c :: b → isInk c = true → keeps (offset + size a) = true := by
  constructor
  · -- A character that fails makes what passes shorter than the ink.
    rintro h a c b rfl hc
    rw [← Bool.not_eq_false]
    intro hfails
    have hshort := congrArg List.length h
    rw [inkAt_append, inkAt, hc, hfails, Bool.and_false, if_neg Bool.false_ne_true,
      List.filter_append, List.filter_cons_of_pos hc, List.length_append, List.length_append,
      List.length_cons] at hshort
    have hbefore := (inkAt_sublist keeps offset a).length_le
    have hbehind := (inkAt_sublist keeps (offset + size a + c.utf8Size) b).length_le
    omega
  · intro h
    induction text generalizing offset with
    | nil => rfl
    | cons c text ih =>
        have hrest : inkAt keeps (offset + c.utf8Size) text = text.filter isInk := by
          refine ih ?_
          rintro a d b rfl hd
          rw [Nat.add_assoc, ← size_cons]
          exact h (c :: a) d b rfl hd
        rw [inkAt, hrest, List.filter_cons]
        cases hc : isInk c with
        | false => rfl
        | true =>
            have hkeeps : keeps offset = true := h [] c text rfl hc
            rw [hkeeps, Bool.and_true]

/-- The ink of a stretch of a text inside some stretches that come in order there
    is the ink of these. -/
theorem inkAt_spans {start stop : Nat} (spans : List Span) (hstart : text.CutsAt start)
    (hstop : text.CutsAt stop) (hle : start ≤ stop)
    (hcuts : ∀ span ∈ spans, text.CutsAt span.start ∧ text.CutsAt span.stop)
    (hwithin : ∀ span ∈ spans, start ≤ span.start ∧ span.start ≤ span.stop ∧ span.stop ≤ stop)
    (hpairs : spans.Pairwise fun a b => a.stop ≤ b.start)
    (hkeeps : ∀ n, start ≤ n → n < stop → keeps n = spans.any (·.holds n)) :
    inkAt keeps start (text.slice ⟨start, stop⟩) = (spans.flatMap text.slice).filter isInk := by
  induction spans generalizing start with
  | nil =>
      refine inkAt_eq_nil fun n hfrom hto => hkeeps n hfrom ?_
      rwa [size_slice hstart hstop hle] at hto
  | cons span spans ih =>
      obtain ⟨hfrom, hproper, hto⟩ := hwithin span List.mem_cons_self
      obtain ⟨hspanStart, hspanStop⟩ := hcuts span List.mem_cons_self
      have hlater : ∀ other ∈ spans, span.stop ≤ other.start := fun other hother =>
        List.rel_of_pairwise_cons hpairs hother
      -- Before the first stretch no byte passes, in it all do, and the others lie behind it.
      have hlead : inkAt keeps start (text.slice ⟨start, span.start⟩) = [] := by
        refine inkAt_eq_nil fun n hn hlt => ?_
        rw [size_slice hstart hspanStart hfrom] at hlt
        rw [hkeeps n hn (by omega), List.any_eq_false]
        intro other hother
        rw [Bool.not_eq_true, Span.not_holds_iff]
        rcases List.mem_cons.1 hother with rfl | hother
        · exact .inl hlt
        · have := hlater other hother
          exact .inl (by omega)
      have hfirst : inkAt keeps span.start (text.slice ⟨span.start, span.stop⟩)
          = (text.slice span).filter isInk := by
        refine inkAt_eq_filter fun n hn hlt => ?_
        rw [size_slice hspanStart hspanStop hproper] at hlt
        rw [hkeeps n (by omega) (by omega), List.any_cons, Span.holds_iff.2 ⟨hn, hlt⟩, Bool.true_or]
      have hrest := ih hspanStop hto
        (fun other hother => hcuts other (List.mem_cons_of_mem _ hother))
        (fun other hother => ⟨hlater other hother,
          (hwithin other (List.mem_cons_of_mem _ hother)).2⟩) hpairs.tail
        (fun n hn hlt => by
          rw [hkeeps n (by omega) hlt, List.any_cons, Span.not_holds_iff.2 (.inr hn),
            Bool.false_or])
      rw [slice_append hstart hspanStart hstop hfrom (Nat.le_trans hproper hto),
        slice_append hspanStart hspanStop hstop hproper hto, inkAt_append, inkAt_append, hlead,
        size_slice hstart hspanStart hfrom, hfirst, size_slice hspanStart hspanStop hproper, hrest,
        List.nil_append, List.flatMap_cons, List.filter_append]

end Text

end SharpLint

import SharpLint.Proofs.Text.Breaks
import SharpLint.Proofs.Text.Ink

/-!
# Carriage Returns

A line feed is bare when no carriage return stands just before it. Whether the
first character of a stretch is a bare line feed depends on what stands before
the stretch, so bare line feeds are counted with a flag that is carried from
one stretch to the next.

## Main definitions

* `Text.bareFrom`, `Text.bareFeeds`: the number of bare line feeds.
* `Text.carry`: whether a carriage return stands at the end of a stretch.
* `Text.AllReturned`: a carriage return stands before every line feed.
* `Text.PartsReturn`: an offset between a carriage return and its line feed.

## Theorems

* `Text.bareFrom_append`: Stretches are counted one after the other.
* `Text.bareFeeds_eq_zero_iff`: No line feed is bare if all are returned.
* `Text.Solid.not_partsReturn`: No return is parted from its line feed where ink
  stands.
-/

namespace SharpLint

namespace Text

/-- The number of line feeds without a carriage return just before them.
    `returned` tells whether one stands just before the text. -/
def bareFrom (returned : Bool) : Text → Nat
  | [] => 0
  | c :: cs => (if c = '\n' ∧ returned = false then 1 else 0) + bareFrom (c == '\r') cs

/-- The number of bare line feeds of the text. -/
def bareFeeds (text : Text) : Nat :=
  bareFrom false text

/-- Whether a carriage return stands just before what follows the text, if
    `returned` tells whether one stands just before the text. -/
def carry (returned : Bool) : Text → Bool
  | [] => returned
  | c :: cs => carry (c == '\r') cs

/-- A carriage return stands before every line feed. -/
def AllReturned (text : Text) : Prop :=
  ∀ before after, text = before ++ '\n' :: after → before.getLast? = some '\r'

/-- The offset lies between a carriage return and the line feed behind it. -/
def PartsReturn (text : Text) (offset : Nat) : Prop :=
  ∃ before after, text = before ++ '\r' :: '\n' :: after ∧ size (before ++ ['\r']) = offset

/-! ### Counting -/

theorem carry_append (returned : Bool) (a b : Text) :
    carry returned (a ++ b) = carry (carry returned a) b := by
  induction a generalizing returned with
  | nil => rfl
  | cons c a ih => exact ih _

theorem carry_concat (returned : Bool) (a : Text) (c : Char) :
    carry returned (a ++ [c]) = (c == '\r') := by
  rw [carry_append]
  rfl

theorem bareFrom_append (returned : Bool) (a b : Text) :
    bareFrom returned (a ++ b) = bareFrom returned a + bareFrom (carry returned a) b := by
  induction a generalizing returned with
  | nil => rw [List.nil_append, bareFrom, carry, Nat.zero_add]
  | cons c a ih => rw [List.cons_append, bareFrom, bareFrom, carry, ih, Nat.add_assoc]

/-- Bare line feeds are line feeds. -/
theorem bareFrom_le_count (returned : Bool) (text : Text) :
    bareFrom returned text ≤ text.count '\n' := by
  induction text generalizing returned with
  | nil => exact Nat.le_refl _
  | cons c text ih =>
      have hrest := ih (c == '\r')
      rw [bareFrom, List.count_cons]
      split
      · next hfeed =>
        rw [if_pos (beq_iff_eq.2 hfeed.1)]
        omega
      · omega

theorem bareFrom_eq_zero {returned : Bool} {line : Text} (h : '\n' ∉ line) :
    bareFrom returned line = 0 :=
  Nat.le_zero.1 (List.count_eq_zero.2 h ▸ bareFrom_le_count returned line)

/-- What stands before a text matters only where the text begins with a line
    feed, and a carriage return there makes none bare. -/
theorem bareFrom_mono {returned returned' : Bool} {text : Text}
    (h : text.head? = some '\n' → returned = true → returned' = true) :
    bareFrom returned' text ≤ bareFrom returned text := by
  cases text with
  | nil => exact Nat.le_refl _
  | cons c text =>
      simp only [bareFrom, Nat.add_le_add_iff_right]
      by_cases hfeed : c = '\n' ∧ returned' = false
      · have hbare : c = '\n' ∧ returned = false := by
          refine ⟨hfeed.1, Bool.eq_false_iff.2 fun hreturned => ?_⟩
          have hreturned' := h (by rw [hfeed.1]; rfl) hreturned
          exact absurd (hfeed.2.symm.trans hreturned') Bool.false_ne_true
        simp only [if_pos hfeed, if_pos hbare, Nat.le_refl]
      · rw [if_neg hfeed]
        exact Nat.zero_le _

/-- The line feed behind a line is bare unless a return ends the line. -/
theorem bareFrom_line {line : Text} (h : '\n' ∉ line) (rest : Text) :
    bareFrom false (line ++ '\n' :: rest)
      = (if carry false line = false then 1 else 0) + bareFrom false rest := by
  rw [bareFrom_append, bareFrom_eq_zero h, Nat.zero_add, bareFrom]
  simp only [true_and]
  rfl

/-! ### Returns before line feeds -/

theorem carry_eq_true_iff {text : Text} : carry false text = true ↔ text.getLast? = some '\r' := by
  rcases List.eq_nil_or_concat text with rfl | ⟨before, c, rfl⟩
  · simp only [carry, Bool.false_eq_true, List.getLast?_nil, reduceCtorEq]
  · rw [List.concat_eq_append, carry_concat, List.getLast?_concat, beq_iff_eq, Option.some.injEq]

theorem bareFrom_eq_zero_iff {returned : Bool} {text : Text} :
    bareFrom returned text = 0 ↔
      ∀ before after, text = before ++ '\n' :: after → carry returned before = true := by
  constructor
  · rintro hzero before after rfl
    -- A feed without a return before it counts one, and nothing is taken off again.
    rw [bareFrom_append, bareFrom] at hzero
    cases hcarry : carry returned before with
    | true => rfl
    | false =>
        rw [hcarry, if_pos ⟨rfl, rfl⟩] at hzero
        omega
  · intro hall
    induction text generalizing returned with
    | nil => rfl
    | cons c text ih =>
        have hrest : bareFrom (c == '\r') text = 0 :=
          ih fun before after hsplit => hall (c :: before) after (by rw [hsplit]; rfl)
        rw [bareFrom, hrest, if_neg]
        rintro ⟨rfl, hreturned⟩
        exact absurd (hreturned.symm.trans (hall [] text rfl)) Bool.false_ne_true

/-- No line feed is bare exactly if a carriage return stands before each. -/
theorem bareFeeds_eq_zero_iff {text : Text} : text.bareFeeds = 0 ↔ text.AllReturned := by
  simp only [bareFeeds, bareFrom_eq_zero_iff, carry_eq_true_iff, AllReturned]

/-! ### Returns and offsets -/

/-- Where no return is parted from its line feed, a cut before a line feed is
    behind something else. -/
theorem carry_of_not_partsReturn {before after : Text}
    (h : ¬PartsReturn (before ++ after) (size before)) (hfeed : after.head? = some '\n') :
    carry false before = false := by
  refine Bool.eq_false_iff.2 fun hcarry => h ?_
  obtain ⟨more, rfl⟩ := List.getLast?_eq_some_iff.1 (carry_eq_true_iff.1 hcarry)
  obtain ⟨rest, rfl⟩ := List.head?_eq_some_iff.1 hfeed
  exact ⟨more, rest, by rw [List.append_assoc]; rfl, rfl⟩

/-- What stands on both sides of an offset that parts a return from its line
    feed. -/
theorem PartsReturn.sides {text before after : Text} {offset : Nat}
    (h : text.PartsReturn offset) (htext : text = before ++ after) (hsize : size before = offset) :
    before.getLast? = some '\r' ∧ after.head? = some '\n' := by
  obtain ⟨more, rest, hmore, hoffset⟩ := h
  have hsplit : before ++ after = (more ++ ['\r']) ++ '\n' :: rest := by
    rw [← htext, hmore, List.append_assoc]
    rfl
  obtain ⟨rfl, rfl⟩ := append_inj_of_size hsplit (hsize.trans hoffset.symm)
  exact ⟨List.getLast?_concat, rfl⟩

/-- No return stands at the end of a line that has its line feed, and no line
    feed behind the last line. -/
theorem not_partsReturn_of_atLineStart {before after : Text} (h : AtLineStart before) :
    ¬PartsReturn (before ++ after) (size before) := by
  intro hparts
  have hreturn := (hparts.sides rfl rfl).1
  rcases h with rfl | ⟨more, rfl⟩
  · exact absurd hreturn (by simp only [List.getLast?_nil, reduceCtorEq, not_false_eq_true])
  · rw [List.getLast?_concat, Option.some.injEq] at hreturn
    exact absurd hreturn (by decide)

theorem not_partsReturn_size (text : Text) : ¬text.PartsReturn text.size := by
  intro hparts
  have hfeed := (hparts.sides (List.append_nil text).symm rfl).2
  exact absurd hfeed (by simp only [List.head?_nil, reduceCtorEq, not_false_eq_true])

/-- No return is parted from its line feed where a solid stretch ends or
    begins. -/
theorem Solid.not_partsReturn {text solid : Text} {offset : Nat} (hsolid : solid.Solid)
    (h : text.HoldsAt offset solid) :
    ¬text.PartsReturn offset ∧ ¬text.PartsReturn (offset + size solid) := by
  obtain ⟨before, after, rfl, rfl⟩ := h
  obtain ⟨⟨c, rest, hfirst, hc⟩, more, d, hlast, hd⟩ := hsolid
  constructor
  · intro hparts
    have hfeed := (hparts.sides (List.append_assoc before solid after) rfl).2
    rw [hfirst, List.cons_append, List.head?_cons, Option.some.injEq] at hfeed
    rw [hfeed] at hc
    exact absurd hc (by decide)
  · intro hparts
    have hreturn := (hparts.sides rfl (size_append before solid)).1
    rw [hlast, ← List.append_assoc, List.getLast?_concat, Option.some.injEq] at hreturn
    rw [hreturn] at hd
    exact absurd hd (by decide)

/-- Nor where padding ends, if it begins at such a place. -/
theorem not_partsReturn_of_padding {text pad : Text} {offset : Nat}
    (hpad : ∀ c ∈ pad, isPadding c = true) (h : text.HoldsAt offset pad)
    (hstart : ¬text.PartsReturn offset) : ¬text.PartsReturn (offset + size pad) := by
  rcases List.eq_nil_or_concat pad with rfl | ⟨more, c, rfl⟩
  · exact hstart
  · rw [List.concat_eq_append] at hpad h ⊢
    obtain ⟨before, after, rfl, rfl⟩ := h
    intro hparts
    have hreturn := (hparts.sides rfl (size_append before (more ++ [c]))).1
    rw [← List.append_assoc, List.getLast?_concat, Option.some.injEq] at hreturn
    have hc := hpad c (List.mem_append_right _ List.mem_cons_self)
    rw [hreturn] at hc
    exact absurd hc (by decide)

end Text

end SharpLint

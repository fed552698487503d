import SharpLint.Proofs.Edit.Splice

/-!
# Which Edits Go Together

Whether edits go together is decided on neighbours: the edits are sorted, and
each is compared with the one before it. As the edits come in the order of
their starts, this decides about all pairs, also where a span is written
backwards. The splice draws the same line with its cursor, so a batch is applied
exactly when its edits fit the text and are clear of one another.

## Main definitions

* `Edit.Clear`: of two edits, the first stops before the other starts.

## Theorems

* `Edit.clear_iff_apart`: Edits that go forward are clear if they are apart.
* `Edit.overlapping_inOrder`: Neighbours decide about all pairs.
* `Edit.inOrder_append_inOrder`: What is sorted may be sorted again with more.
* `Fix.applyEdits_ok_iff`: When edits are applied.
-/

namespace SharpLint

open Text

namespace Edit

/-! ### Clear edits -/

/-- Of the two edits, the one that comes first stops before the other starts.
    They may touch. -/
def Clear (a b : Edit) : Prop :=
  (a.precedes b = true → a.span.stop ≤ b.span.start)
    ∧ (b.precedes a = true → b.span.stop ≤ a.span.start)

theorem Clear.symm {a b : Edit} (h : a.Clear b) : b.Clear a :=
  And.symm h

/-- Edits that go forward are clear of one another if no byte lies in both. -/
theorem clear_iff_apart {a b : Edit} (ha : a.span.start ≤ a.span.stop)
    (hb : b.span.start ≤ b.span.stop) : a.Clear b ↔ a.Apart b := by
  simp only [Clear, Apart, precedes_iff]
  omega

/-- In sorted edits, what neighbours keep is kept between all pairs. -/
theorem inChain_of_sorted {edits : List Edit} (h : overlapping edits = false)
    (hsorted : edits.Pairwise fun a b => a.precedes b = true) : InChain edits := by
  induction edits with
  | nil => exact List.Pairwise.nil
  | cons a edits ih =>
      cases edits with
      | nil => exact List.pairwise_singleton _ _
      | cons b rest =>
          rw [overlapping, Bool.or_eq_false_iff, decide_eq_false_iff_not, Nat.not_lt] at h
          refine List.Pairwise.cons (fun edit hedit => ?_) (ih h.2 hsorted.tail)
          rcases List.mem_cons.1 hedit with rfl | hedit
          · exact h.1
          · -- The starts ascend, so what is behind the neighbour is behind the edit.
            have hbehind := precedes_iff.1 (List.rel_of_pairwise_cons hsorted.tail hedit)
            omega

/-- Sorted edits that come one after the other are clear of one another. -/
theorem pairwise_clear_of_inChain {edits : List Edit} (h : InChain edits)
    (hsorted : edits.Pairwise fun a b => a.precedes b = true) : edits.Pairwise Clear := by
  refine (h.and hsorted).imp fun {a b} hab => ⟨fun _ => hab.1, fun hba => ?_⟩
  -- Edits that precede each other have one span.
  have hab' := precedes_iff.1 hab.2
  have hba' := precedes_iff.1 hba
  have hle := hab.1
  omega

theorem inChain_inOrder_iff {edits : List Edit} :
    InChain (inOrder edits) ↔ edits.Pairwise Clear := by
  have hperm : (inOrder edits).Perm edits := sortBy_perm precedes edits
  have hsorted := pairwise_inOrder edits
  constructor
  · intro h
    exact hperm.pairwise (pairwise_clear_of_inChain h hsorted) Clear.symm
  · intro h
    exact (hsorted.and (hperm.symm.pairwise h Clear.symm)).imp fun hab => hab.2.1 hab.1

/-- Neighbours decide whether all edits are clear of one another. -/
theorem overlapping_inOrder {edits : List Edit} :
    overlapping (inOrder edits) = false ↔ edits.Pairwise Clear := by
  rw [← inChain_inOrder_iff]
  exact ⟨fun h => inChain_of_sorted h (pairwise_inOrder edits), overlapping_of_inChain⟩

/-! ### Sorting again -/

/-- An item that does not come before another may be put in after it. -/
theorem insertBy_comm {α : Type} {le : α → α → Bool}
    (htrans : ∀ x y z, le x y = true → le y z = true → le x z = true) {x y : α}
    (hyx : le y x = true) (hxy : le x y = false) (items : List α) :
    insertBy le y (insertBy le x items) = insertBy le x (insertBy le y items) := by
  induction items with
  | nil => simp only [insertBy, hyx, hxy, if_true, Bool.false_eq_true, if_false]
  | cons z items ih =>
      by_cases hxz : le x z = true
      · -- Both go before the item, `y` before `x`.
        have hyz := htrans y x z hyx hxz
        simp only [insertBy, hxz, hyz, hyx, hxy, if_true, Bool.false_eq_true, if_false]
      · by_cases hyz : le y z = true
        · simp only [insertBy, hxz, hyz, hxy, if_true, Bool.false_eq_true, if_false]
        · simp only [insertBy, hxz, hyz, Bool.false_eq_true, if_false, ih]

/-- An item that is put in among others is put in last. -/
theorem foldr_insertBy {α : Type} {le : α → α → Bool}
    (htotal : ∀ x y, le x y = true ∨ le y x = true)
    (htrans : ∀ x y z, le x y = true → le y z = true → le x z = true) (x : α)
    (items sorted : List α) :
    (insertBy le x items).foldr (insertBy le) sorted
      = insertBy le x (items.foldr (insertBy le) sorted) := by
  induction items with
  | nil => rfl
  | cons y items ih =>
      rw [insertBy]
      split
      · rfl
      · next hxy =>
        have hyx := (htotal x y).resolve_left hxy
        -- `y` stays ahead of `x`; putting in `x` and then `y` is the same the other way round.
        rw [List.foldr_cons, ih, List.foldr_cons,
          insertBy_comm htrans hyx (Bool.eq_false_iff.2 hxy)]

theorem sortBy_append {α : Type} (le : α → α → Bool) (items more : List α) :
    sortBy le (items ++ more) = items.foldr (insertBy le) (sortBy le more) := by
  induction items with
  | nil => rfl
  | cons x items ih => rw [List.cons_append, sortBy, ih, List.foldr_cons]

/-- Sorting is stable, so what is sorted may be sorted again with more. -/
theorem inOrder_append_inOrder (edits more : List Edit) :
    inOrder (inOrder edits ++ more) = inOrder (edits ++ more) := by
  have htotal : ∀ a b : Edit, a.precedes b = true ∨ b.precedes a = true := fun a b => by
    simp only [precedes_iff]
    omega
  have htrans : ∀ a b c : Edit, a.precedes b = true → b.precedes c = true → a.precedes c = true :=
    fun a b c => by
      simp only [precedes_iff]
      omega
  simp only [inOrder, sortBy_append]
  induction edits with
  | nil => rfl
  | cons edit edits ih => rw [sortBy, foldr_insertBy htotal htrans, ih, List.foldr_cons]

/-! ### When edits are applied -/

/-- Edits that can be spliced in lie on cuts of the text. -/
theorem Splices.fitsIn {source rest new : Text} {edits : List Edit} (before : Text)
    (h : Splices (size before) rest edits new) (hsource : source = before ++ rest) :
    ∀ edit ∈ edits, edit.FitsIn source := by
  -- The cursor is the size of what was passed, and both grow along the induction.
  generalize hcursor : size before = cursor at h
  induction h generalizing before with
  | nil => exact fun _ hedit => absurd hedit List.not_mem_nil
  | @cons cursor start stop kept old rest new text edits hstart hstop tail ih =>
      intro edit hedit
      rcases List.mem_cons.1 hedit with rfl | hedit
      · have hholds : source.HoldsAt start old := ⟨before ++ kept, rest, by
          rw [hsource]
          simp only [List.append_assoc], by
          rw [size_append, hcursor, hstart]⟩
        exact ⟨by simp only; omega, hholds.cutsAt, hstop ▸ hholds.cutsAt_stop⟩
      · refine ih (before ++ kept ++ old) ?_ ?_ edit hedit
        · rw [hsource]
          simp only [List.append_assoc]
        · rw [size_append, size_append]
          omega

end Edit

/-- Edits are applied exactly if each fits the text and they are clear of one
    another. -/
theorem Fix.applyEdits_ok_iff {text : Text} {edits : List Edit} :
    (∃ after, Fix.applyEdits text edits = .ok after)
      ↔ (∀ edit ∈ edits, edit.FitsIn text) ∧ edits.Pairwise Edit.Clear := by
  have hmem {edit : Edit} : edit ∈ Edit.inOrder edits ↔ edit ∈ edits :=
    (sortBy_perm Edit.precedes edits).mem_iff
  rw [Fix.applyEdits, ← Edit.inChain_inOrder_iff]
  constructor
  · -- A splice that goes through has passed each edit, in order and on cuts.
    rintro ⟨after, h⟩
    split at h
    · next spliced touched hsplice =>
      have hsplices := (Edit.spliceFrom_eq_some_iff.1 hsplice).1
      exact ⟨fun edit hedit => hsplices.fitsIn [] rfl edit (hmem.2 hedit), hsplices.inChain⟩
    · exact absurd h (by simp only [reduceCtorEq, not_false_eq_true])
  · -- Edits in a chain have a splice, and tidying cannot fail on it.
    rintro ⟨hfits, hchain⟩
    obtain ⟨spliced, hspliced⟩ : ∃ new, Edit.Splices 0 text (Edit.inOrder edits) new :=
      Edit.exists_splices [] text hchain (fun edit hedit => hfits edit (hmem.1 hedit))
        fun _ _ => Nat.zero_le _
    have hsplice : Edit.splice? text edits = some (spliced, Edit.landed 0 0 (Edit.inOrder edits)) :=
      Edit.spliceFrom_eq_some_iff.2 ⟨hspliced, rfl⟩
    exact ⟨tidy spliced (Edit.landed 0 0 (Edit.inOrder edits)), by rw [hsplice]⟩

end SharpLint

import SharpLint.Proofs.Edit.Spared

/-!
# Edits One at a Time

All edits of a batch speak about the old text, so they can be made one at a
time if the last one is made first: what stands before an edit is then still as
it was. The splice goes the other way, with one cursor through the old text and
one count of the bytes written, and yields the same text. Where the new text of
an edit stands is told by the edits before it, made in the text before it.

The edits are sorted first, and those of one span keep their order. So all that
counts is in which order the edits of each span are given.

## Main definitions

* `Edit.make?`: a text with one edit made in it.
* `Edit.makeAll?`: a text with edits made one at a time, from the last on.
* `Edit.MadeSingly`: what a batch yields, told by single edits.

## Theorems

* `Edit.make?_eq_some_iff`: An edit replaces the stretch of its span.
* `Edit.Splices.makeAll?`: A splice is made one edit at a time.
* `Edit.Splices.madeSingly`: Where each new text stands in a splice.
* `Edit.inOrder_congr`: Only the order of the edits of one span counts.
* `Fix.apply_singly`: When a fix is applied, and what it yields.
-/

namespace SharpLint

open Text

namespace Edit

/-! ### Single edits -/

/-- The text with the edit made in it; there is none if the edit goes backwards
    or does not lie on cuts of the text. -/
def make? (text : Text) (edit : Edit) : Option Text :=
  if edit.span.start ≤ edit.span.stop then
    match splitAt? edit.span.start text, splitAt? edit.span.stop text with
    | some (before, _), some (_, after) => some (before ++ edit.text ++ after)
    | _, _ => none
  else none

/-- The text with the edits made in it one at a time, the last one first. -/
def makeAll? (text : Text) (edits : List Edit) : Option Text :=
  edits.foldr (fun edit made => made.bind fun made => make? made edit) (some text)

/-- The edit replaces the stretch of its span. -/
theorem make?_eq_some_iff {text made : Text} {edit : Edit} :
    make? text edit = some made ↔ ∃ before old after, text = before ++ old ++ after
      ∧ made = before ++ edit.text ++ after ∧ size before = edit.span.start
      ∧ size (before ++ old) = edit.span.stop := by
  constructor
  · intro h
    unfold make? at h
    split at h
    rotate_left
    · exact absurd h (by simp only [reduceCtorEq, not_false_eq_true])
    next hforward =>
    split at h
    rotate_left
    · exact absurd h (by simp only [reduceCtorEq, not_false_eq_true])
    next before rest upto after hstart hstop =>
    obtain ⟨rfl, hbefore⟩ := splitAt?_eq_some_iff.1 hstart
    -- The second split is no shorter than the first, so the old stretch is what is between.
    obtain ⟨hwhole, hupto⟩ := splitAt?_eq_some_iff.1 hstop
    obtain ⟨old, rfl, rfl⟩ := exists_append_of_size_le hwhole (by omega)
    exact ⟨before, old, after, (List.append_assoc ..).symm, (Option.some.inj h).symm, hbefore,
      hupto⟩
  · rintro ⟨before, old, after, rfl, rfl, hbefore, hupto⟩
    have hforward : edit.span.start ≤ edit.span.stop := by
      rw [size_append] at hupto
      omega
    rw [make?, if_pos hforward, ← hupto, splitAt?_append, ← hbefore, List.append_assoc,
      splitAt?_append]

/-- An edit can be made in a text exactly if it fits the text. -/
theorem exists_make?_iff {text : Text} {edit : Edit} :
    (∃ made, make? text edit = some made) ↔ edit.FitsIn text := by
  constructor
  · rintro ⟨made, h⟩
    obtain ⟨before, old, after, rfl, -, hbefore, hupto⟩ := make?_eq_some_iff.1 h
    refine ⟨?_, ⟨before, old ++ after, List.append_assoc .., hbefore⟩, ⟨_, after, rfl, hupto⟩⟩
    rw [← hbefore, ← hupto, size_append]
    exact Nat.le_add_right _ _
  · intro hfits
    obtain ⟨before, old, after, htext, hbefore, hold⟩ :=
      hfits.startCut.split hfits.stopCut hfits.forward
    refine ⟨before ++ edit.text ++ after, make?_eq_some_iff.2 ⟨before, old, after, htext, rfl,
      hbefore, ?_⟩⟩
    rw [size_append, hold]

/-! ### A splice made singly -/

/-- What the batch yields is told by single edits: they are made from the last
    to the first, and the new text of each stands at its place, between what the
    edits before it yield and what those behind it do. -/
structure MadeSingly (text : Text) (edits : List Edit) (made : Text) (places : List Span) :
    Prop where
  makeAll? : makeAll? text edits = some made
  length : places.length = edits.length
  stands : ∀ first edit last, edits = first ++ edit :: last → ∃ before behind,
    Edit.makeAll? (text.slice ⟨0, edit.span.start⟩) first = some before
      ∧ Edit.makeAll? text last = some (text.slice ⟨0, edit.span.stop⟩ ++ behind)
      ∧ made = before ++ edit.text ++ behind
      ∧ places[first.length]? = some ⟨size before, size (before ++ edit.text)⟩

theorem length_landed (cursor out : Nat) (edits : List Edit) :
    (landed cursor out edits).length = edits.length := by
  induction edits generalizing cursor out with
  | nil => rfl
  | cons edit edits ih => rw [landed, List.length_cons, List.length_cons, ih]

namespace Splices

variable {text new : Text} {edits : List Edit}

/-- A splice into what is left of a text is made one edit at a time: when an
    edit is made, what stands before it is as it was. -/
theorem makeAll? {cursor : Nat} (h : Splices cursor text edits new) (before : Text)
    (hcursor : size before = cursor) :
    Edit.makeAll? (before ++ text) edits = some (before ++ new) := by
  induction h generalizing before with
  | nil => rfl
  | @cons cursor start stop kept old rest new text edits hstart hstop tail ih =>
      -- The edits behind this one are made first, in a text with a longer start.
      have htail := ih (before ++ kept ++ old) (by rw [size_append, size_append]; omega)
      have hwhole : before ++ (kept ++ old ++ rest) = before ++ kept ++ old ++ rest := by
        simp only [List.append_assoc]
      rw [Edit.makeAll?, List.foldr_cons, ← Edit.makeAll?, hwhole, htail, Option.bind_some,
        make?_eq_some_iff]
      refine ⟨before ++ kept, old, new, rfl, ?_, ?_, ?_⟩
      · simp only [List.append_assoc]
      · rw [size_append, hcursor, hstart]
      · rw [size_append, size_append, hcursor, hstart, hstop]

/-- The new text of an edit has landed behind what the edits before it yield. -/
theorem landed_at {first last : List Edit} {edit : Edit} {a A : Text}
    (h : Splices 0 a first A) (ha : size a = edit.span.start)
    (hlast : ∀ behind ∈ edit :: last, edit.span.start ≤ behind.span.start) :
    (landed 0 0 (first ++ edit :: last))[first.length]?
      = some ⟨size A, size (A ++ edit.text)⟩ := by
  rw [h.landed_append 0 (by rwa [Nat.zero_add, ha]), ← length_landed 0 0 first,
    List.getElem?_append_right (Nat.le_refl _), Nat.sub_self, landed, List.getElem?_cons_zero,
    Nat.zero_add, Nat.zero_add, ha, Nat.sub_self, Nat.add_zero, size_append]

/-- Where each new text stands in a splice. -/
theorem madeSingly (h : Splices 0 text edits new) :
    MadeSingly text edits new (landed 0 0 edits) where
  makeAll? := h.makeAll? [] rfl
  length := length_landed 0 0 edits
  stands := by
    rintro first edit last rfl
    obtain ⟨a, old, b, A, B, rfl, rfl, ha, hold, hfirst, hlast⟩ := h.exists_at
    rw [Nat.zero_add] at ha
    have hstop : size (a ++ old) = edit.span.stop := by rw [size_append, ha, hold]
    have hbefore : slice (a ++ old ++ b) ⟨0, edit.span.start⟩ = a :=
      slice_eq_of_slice? (slice?_eq_some_iff.2 ⟨[], old ++ b, List.append_assoc .., rfl,
        (Nat.zero_add _).trans ha⟩)
    have hupto : slice (a ++ old ++ b) ⟨0, edit.span.stop⟩ = a ++ old :=
      slice_eq_of_slice? (slice?_eq_some_iff.2 ⟨[], b, rfl, rfl, (Nat.zero_add _).trans hstop⟩)
    -- The edits before this one are made in what stands before it, and those behind it first.
    refine ⟨A, B, ?_, ?_, rfl, hfirst.landed_at ha fun behind hbehind => ?_⟩
    · rw [hbefore]
      exact hfirst.makeAll? [] rfl
    · rw [hupto]
      exact hlast.makeAll? (a ++ old) hstop
    · rcases List.mem_cons.1 hbehind with rfl | hbehind
      · exact Nat.le_refl _
      · have hfrom := (hlast.forward hbehind).1
        omega

end Splices

/-! ### Edits of one span -/

/-- An item that may stand before all of its kind comes first among them. -/
theorem filter_insertBy {α : Type} {le : α → α → Bool} {kind : α → Bool} {x : α}
    (h : ∀ y, kind x = true → kind y = true → le x y = true) (items : List α) :
    (insertBy le x items).filter kind = (x :: items).filter kind := by
  induction items with
  | nil => rfl
  | cons y items ih =>
      rw [insertBy]
      split
      · rfl
      · next hxy =>
        simp only [List.filter_cons, ih]
        by_cases hx : kind x = true
        · -- What is passed is not of the kind.
          have hy : ¬kind y = true := fun hy => hxy (h y hx hy)
          simp only [if_neg hy]
        · simp only [if_neg hx]

/-- Sorting is stable: the items of one kind keep their order. -/
theorem filter_sortBy {α : Type} {le : α → α → Bool} {kind : α → Bool}
    (h : ∀ x y, kind x = true → kind y = true → le x y = true) (items : List α) :
    (sortBy le items).filter kind = items.filter kind := by
  induction items with
  | nil => rfl
  | cons x items ih =>
      rw [sortBy, filter_insertBy (h x), List.filter_cons, ih, ← List.filter_cons]

/-- The edits of one span, in order. -/
def ofSpan (span : Span) (edits : List Edit) : List Edit :=
  edits.filter fun edit => edit.span == span

theorem ofSpan_inOrder (span : Span) (edits : List Edit) :
    ofSpan span (inOrder edits) = ofSpan span edits := by
  refine filter_sortBy (fun a b ha hb => ?_) edits
  rw [beq_iff_eq] at ha hb
  rw [precedes_iff, ha, hb]
  exact .inr ⟨rfl, Nat.le_refl _⟩

theorem mem_ofSpan {span : Span} {edits : List Edit} {edit : Edit} :
    edit ∈ ofSpan span edits ↔ edit ∈ edits ∧ edit.span = span := by
  rw [ofSpan, List.mem_filter, beq_iff_eq]

theorem span_eq_of_precedes {a b : Edit} (hab : a.precedes b = true)
    (hba : b.precedes a = true) : a.span = b.span := by
  obtain ⟨⟨start, stop⟩, text⟩ := a
  obtain ⟨⟨start', stop'⟩, text'⟩ := b
  rw [precedes_iff] at hab hba
  simp only [Span.mk.injEq] at hab hba ⊢
  omega

theorem ofSpan_cons (span : Span) (edit : Edit) (edits : List Edit) :
    ofSpan span (edit :: edits)
      = if edit.span = span then edit :: ofSpan span edits else ofSpan span edits := by
  simp only [ofSpan, List.filter_cons, beq_iff_eq]

theorem mem_of_ofSpan {edits others : List Edit}
    (h : ∀ span, ofSpan span edits = ofSpan span others) {edit : Edit} (hedit : edit ∈ edits) :
    edit ∈ others := by
  have hmem := mem_ofSpan.2 ⟨hedit, rfl⟩
  rw [h] at hmem
  exact (mem_ofSpan.1 hmem).1

/-- Sorted edits are told by those of each span. -/
theorem eq_of_ofSpan {edits others : List Edit}
    (hedits : edits.Pairwise fun a b => a.precedes b = true)
    (hothers : others.Pairwise fun a b => a.precedes b = true)
    (h : ∀ span, ofSpan span edits = ofSpan span others) : edits = others := by
  induction edits generalizing others with
  | nil => exact (List.eq_nil_iff_forall_not_mem.2 fun edit hedit =>
      List.not_mem_nil (mem_of_ofSpan (fun span => (h span).symm) hedit)).symm
  | cons a edits ih =>
      cases others with
      | nil => exact absurd (mem_of_ofSpan h List.mem_cons_self) List.not_mem_nil
      | cons b others =>
          -- Each of the two comes first where it is sorted, so both have one span.
          have hspan : a.span = b.span := by
            rcases List.mem_cons.1 (mem_of_ofSpan h List.mem_cons_self) with rfl | ha
            · rfl
            rcases List.mem_cons.1 (mem_of_ofSpan (fun span => (h span).symm)
              List.mem_cons_self) with rfl | hb
            · rfl
            exact span_eq_of_precedes (List.rel_of_pairwise_cons hedits hb)
              (List.rel_of_pairwise_cons hothers ha)
          simp only [ofSpan_cons] at h
          have hfirst := h a.span
          rw [if_pos rfl, if_pos hspan.symm] at hfirst
          obtain rfl := (List.cons.inj hfirst).1
          have htail (span : Span) : ofSpan span edits = ofSpan span others := by
            have hall := h span
            split at hall
            · exact (List.cons.inj hall).2
            · exact hall
          exact congrArg (a :: ·) (ih hedits.tail hothers.tail htail)

/-- Only the order of the edits of one span counts. -/
theorem inOrder_congr {edits others : List Edit}
    (h : ∀ span, ofSpan span edits = ofSpan span others) : inOrder edits = inOrder others := by
  refine eq_of_ofSpan (pairwise_inOrder edits) (pairwise_inOrder others) fun span => ?_
  rw [ofSpan_inOrder, ofSpan_inOrder, h]

end Edit

/-! ### Fixes -/

theorem Fix.apply_eq_error_iff {fix : Fix} {text : Text} :
    fix.apply text = .error .conflictingEdits ↔ ¬∃ after, fix.apply text = .ok after := by
  rw [Fix.apply, Fix.applyEdits]
  split
  · simp only [reduceCtorEq, Except.ok.injEq, exists_eq', not_true_eq_false]
  · simp only [reduceCtorEq, exists_const, not_false_eq_true]

/-- A fix is applied exactly if its edits fit the text and no two of them have a
    byte in common. Then the text that is tidied is what its edits yield when
    they are made one at a time, from the last to the first, and the touched
    places are those of the new texts in it. The order in which the edits are
    given does not matter, except among edits of one span. -/
theorem Fix.apply_singly (fix : Fix) (text : Text) :
    ((∀ edit ∈ fix.edits, edit.FitsIn text) ∧ fix.edits.Pairwise Edit.Apart →
      ∃ spliced touched, Edit.splice? text fix.edits = some (spliced, touched)
        ∧ fix.apply text = .ok (tidy spliced touched)
        ∧ Edit.MadeSingly text (Edit.inOrder fix.edits) spliced touched)
    ∧ (¬((∀ edit ∈ fix.edits, edit.FitsIn text) ∧ fix.edits.Pairwise Edit.Apart) →
      fix.apply text = .error .conflictingEdits)
    ∧ ∀ other : Fix, (∀ span, Edit.ofSpan span other.edits = Edit.ofSpan span fix.edits) →
      other.apply text = fix.apply text := by
  refine ⟨?_, ?_, ?_⟩
  · rintro ⟨hfits, hapart⟩
    have hperm : (Edit.inOrder fix.edits).Perm fix.edits := sortBy_perm Edit.precedes fix.edits
    -- Edits that are apart stand in a chain when they are sorted, and a chain can be made.
    have hchain := Edit.inChain_inOrder hapart fun edit hedit => (hfits edit hedit).forward
    obtain ⟨spliced, hspliced⟩ : ∃ new, Edit.Splices 0 text (Edit.inOrder fix.edits) new :=
      Edit.exists_splices [] text hchain (fun edit hedit => hfits edit (hperm.mem_iff.1 hedit))
        fun _ _ => Nat.zero_le _
    have hsplice : Edit.splice? text fix.edits
        = some (spliced, Edit.landed 0 0 (Edit.inOrder fix.edits)) :=
      Edit.spliceFrom_eq_some_iff.2 ⟨hspliced, rfl⟩
    refine ⟨spliced, _, hsplice, ?_, hspliced.madeSingly⟩
    rw [Fix.apply, Fix.applyEdits, hsplice]
  · intro hnot
    rw [Fix.apply_eq_error_iff, Fix.apply, Fix.applyEdits_ok_iff]
    rintro ⟨hfits, hclear⟩
    refine hnot ⟨hfits, hclear.imp_of_mem fun ha hb hab => ?_⟩
    exact (Edit.clear_iff_apart (hfits _ ha).forward (hfits _ hb).forward).1 hab
  · -- Sorting undoes the reordering.
    intro other hsame
    rw [Fix.apply, Fix.applyEdits, Edit.splice?, Edit.inOrder_congr hsame, ← Edit.splice?,
      ← Fix.applyEdits, ← Fix.apply]

/-- A text in which not every byte is a cut. -/
def accentedText : Text :=
  "aéb".toList

/-- Two insertions at one place behind a replacement. -/
def scatteredFix : Fix :=
  ⟨"", "", [⟨⟨3, 4⟩, ['z']⟩, ⟨⟨1, 1⟩, ['x']⟩, ⟨⟨1, 1⟩, ['y']⟩]⟩

theorem Fix.apply_singly_scattered :
    (∃ spliced touched,
      Edit.splice? accentedText scatteredFix.edits = some (spliced, touched)
        ∧ scatteredFix.apply accentedText = .ok (tidy spliced touched)
        ∧ Edit.MadeSingly accentedText (Edit.inOrder scatteredFix.edits) spliced touched)
    ∧ Fix.apply accentedText ⟨"", "", [⟨⟨1, 2⟩, []⟩]⟩ = .error .conflictingEdits
    ∧ Fix.apply accentedText ⟨"", "", [⟨⟨1, 1⟩, ['x']⟩, ⟨⟨3, 4⟩, ['z']⟩, ⟨⟨1, 1⟩, ['y']⟩]⟩
      = scatteredFix.apply accentedText := by
  refine ⟨(Fix.apply_singly scatteredFix accentedText).1 ⟨fun edit hedit => ?_, ?_⟩,
    (Fix.apply_singly ⟨"", "", [⟨⟨1, 2⟩, []⟩]⟩ accentedText).2.1 fun h => ?_,
    (Fix.apply_singly scatteredFix accentedText).2.2 _ fun span => ?_⟩
  · have hmade : ∀ edit ∈ scatteredFix.edits, (Edit.make? accentedText edit).isSome = true := by
      decide
    exact Edit.exists_make?_iff.1 (Option.isSome_iff_exists.1 (hmade edit hedit))
  · simp [scatteredFix, Edit.Apart]
  · -- The span ends inside the accented letter.
    obtain ⟨made, hmade⟩ := Edit.exists_make?_iff.2 (h.1 _ List.mem_cons_self)
    rw [show Edit.make? accentedText ⟨⟨1, 2⟩, []⟩ = none by decide] at hmade
    exact absurd hmade (by simp only [reduceCtorEq, not_false_eq_true])
  · by_cases hspan : span = ⟨1, 1⟩
    · subst hspan
      decide
    · simp only [scatteredFix, Edit.ofSpan_cons, if_neg (Ne.symm hspan)]

end SharpLint

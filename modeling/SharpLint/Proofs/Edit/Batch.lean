import SharpLint.Edit.Batch
import SharpLint.Proofs.Edit.Splice
import SharpLint.Proofs.Edit.Tidy

/-!
# Batches of Fixes

A batch takes fixes whose edits lie apart, and a fix stays out of it only where
it conflicts with one that is in it. If all fixes fit the text, the batch can be
made, and how often a character of ink stands in the new text can be counted
edit by edit.

## Main definitions

* `Fix.Fits`: the edits of a fix come in order and fit a text.
* `Fix.Conflicts`: two fixes have bytes in common.
* `Batch.Collects`: what a batch has taken of what it was offered.
* `Edit.AddsNo`: an edit that does not make a character more frequent.

## Theorems

* `Fix.Fits.applies`: A fix that fits a text can be applied to it.
* `Batch.collects_ofFixes`: A fix is taken, or conflicts with one that is.
* `Batch.run_eq`: The text after a batch is the tidied splice of its edits.
* `Edit.Splices.count`: The characters of a text, counted through its edits.
* `Batch.count_run`: The ink of a text, counted through a batch.
-/

namespace SharpLint

open Text

/-- The edits of the fix come one after the other and fit the text. -/
structure Fix.Fits (fix : Fix) (text : Text) : Prop where
  inChain : Edit.InChain fix.edits
  fitsIn : ∀ edit ∈ fix.edits, edit.FitsIn text

theorem Fix.Fits.apart {fix : Fix} {text : Text} (h : fix.Fits text) :
    fix.edits.Pairwise Edit.Apart :=
  h.inChain.imp .inl

/-- Edits that lie apart and fit a text make a fix that does. -/
theorem Fix.ofEdits_fits (title key : String) {text : Text} {planned : List Edit}
    (hapart : planned.Pairwise Edit.Apart) (hfits : ∀ edit ∈ planned, edit.FitsIn text) :
    Fix.ofEdits title key planned = .ok ⟨title, key, Edit.inOrder planned⟩
      ∧ (⟨title, key, Edit.inOrder planned⟩ : Fix).Fits text := by
  have hchain := Edit.inChain_inOrder hapart fun edit hedit => (hfits edit hedit).forward
  refine ⟨?_, hchain, fun edit hedit =>
    hfits edit ((sortBy_perm Edit.precedes planned).mem_iff.1 hedit)⟩
  rw [Fix.ofEdits, Edit.overlapping_of_inChain hchain]
  rfl

/-- A fix that fits a text can be applied to it. -/
theorem Fix.Fits.applies {fix : Fix} {text : Text} (h : fix.Fits text) :
    ∃ after, fix.apply text = .ok after := by
  obtain ⟨spliced, hspliced⟩ : ∃ new, Edit.Splices 0 text fix.edits new :=
    Edit.exists_splices [] text h.inChain h.fitsIn fun _ _ => Nat.zero_le _
  refine ⟨tidy spliced (Edit.landed 0 0 fix.edits), ?_⟩
  rw [Fix.apply, Fix.applyEdits, hspliced.splice?_eq]

/-- Some byte belongs to an edit of each of the fixes. -/
def Fix.Conflicts (fix other : Fix) : Prop :=
  ∃ a ∈ fix.edits, ∃ b ∈ other.edits, ¬a.Apart b

namespace Batch

variable {text : Text} {batch : Batch} {offered taken : List Fix}

/-- The batch holds the edits of the fixes in `taken`, which are those of the
    offered ones that conflict with none before them. -/
structure Collects (batch : Batch) (text : Text) (offered taken : List Fix) : Prop where
  sublist : taken.Sublist offered
  edits : batch.edits.Perm (taken.flatMap Fix.edits)
  count : batch.taken = taken.length
  apart : batch.edits.Pairwise Edit.Apart
  fitsIn : ∀ edit ∈ batch.edits, edit.FitsIn text
  inChain : Edit.InChain batch.edits
  /-- A fix that stays out conflicts with one that is in. -/
  displaced : ∀ fix ∈ offered, fix ∈ taken ∨ ∃ other ∈ taken, other.Conflicts fix
  /-- The batch can be made from the fixes in it alone. -/
  alone : ofFixes taken = batch

namespace Collects

theorem mem_edits (h : batch.Collects text offered taken) {edit : Edit} :
    edit ∈ batch.edits ↔ ∃ fix ∈ taken, edit ∈ fix.edits := by
  rw [h.edits.mem_iff, List.mem_flatMap]

theorem empty (text : Text) : Collects {} text [] [] where
  sublist := List.Sublist.refl []
  edits := List.Perm.refl []
  count := rfl
  apart := List.Pairwise.nil
  fitsIn := fun _ hedit => absurd hedit List.not_mem_nil
  inChain := List.Pairwise.nil
  displaced := fun _ hfix => absurd hfix List.not_mem_nil
  alone := rfl

/-- A fix that is offered is taken, or it conflicts with one that is. -/
theorem offer (h : batch.Collects text offered taken) {fix : Fix} (hfix : fix.Fits text) :
    (batch.offer fix).Collects text (offered ++ [fix]) (taken ++ [fix])
      ∨ (batch.offer fix).Collects text (offered ++ [fix]) taken := by
  have hperm : (Edit.inOrder (batch.edits ++ fix.edits)).Perm (batch.edits ++ fix.edits) :=
    sortBy_perm Edit.precedes _
  have hfits : ∀ edit ∈ batch.edits ++ fix.edits, edit.FitsIn text := fun edit hedit =>
    (List.mem_append.1 hedit).elim (h.fitsIn edit) (hfix.fitsIn edit)
  have hforward : ∀ edit ∈ Edit.inOrder (batch.edits ++ fix.edits),
      edit.span.start ≤ edit.span.stop := fun edit hedit =>
    (hfits edit (hperm.mem_iff.1 hedit)).forward
  rw [Batch.offer]
  split
  · next hoverlap =>
    right
    refine ⟨h.sublist.trans (List.sublist_append_left _ _), h.edits, h.count, h.apart, h.fitsIn,
      h.inChain, fun other hother => ?_, h.alone⟩
    rcases List.mem_append.1 hother with hother | hother
    · exact h.displaced other hother
    · obtain rfl := List.mem_singleton.1 hother
      right
      -- Were all edits apart, none would overlap once they are sorted.
      have hnot : ¬(batch.edits ++ other.edits).Pairwise Edit.Apart := fun hapart => by
        rw [Edit.overlapping_of_inChain (Edit.inChain_inOrder hapart fun edit hedit =>
          (hfits edit hedit).forward)] at hoverlap
        exact absurd hoverlap (by decide)
      rw [List.pairwise_append] at hnot
      simp only [h.apart, hfix.apart, true_and, Classical.not_forall] at hnot
      obtain ⟨a, ha, b, hb, hab⟩ := hnot
      obtain ⟨fix, hfix, ha⟩ := h.mem_edits.1 ha
      exact ⟨fix, hfix, a, ha, b, hb, hab⟩
  · next hoverlap =>
    left
    rw [Bool.not_eq_true] at hoverlap
    have hchain := Edit.inChain_of_overlapping hoverlap hforward
    refine ⟨h.sublist.append_right [fix], ?_, ?_, hchain.imp .inl,
      fun edit hedit => hfits edit (hperm.mem_iff.1 hedit), hchain, fun other hother => ?_, ?_⟩
    · rw [List.flatMap_append, List.flatMap_singleton]
      exact hperm.trans (h.edits.append_right fix.edits)
    · simp only [h.count, List.length_append, List.length_singleton]
    · rcases List.mem_append.1 hother with hother | hother
      · refine (h.displaced other hother).imp (List.mem_append_left _) fun ⟨first, hfirst, hconflict⟩ =>
          ⟨first, List.mem_append_left _ hfirst, hconflict⟩
      · exact .inl (List.mem_append_right _ hother)
    · rw [ofFixes, List.foldl_append, ← ofFixes, h.alone, List.foldl_cons, List.foldl_nil,
        Batch.offer, hoverlap]
      rfl

/-- Offering further fixes keeps what the batch is. -/
theorem foldl (h : batch.Collects text offered taken) {fixes : List Fix}
    (hfixes : ∀ fix ∈ fixes, fix.Fits text) :
    ∃ taken, (fixes.foldl Batch.offer batch).Collects text (offered ++ fixes) taken := by
  induction fixes generalizing batch offered taken with
  | nil => exact ⟨taken, by rwa [List.append_nil]⟩
  | cons fix fixes ih =>
      have hrest : ∀ other ∈ fixes, other.Fits text := fun other hother =>
        hfixes other (List.mem_cons_of_mem _ hother)
      rw [List.foldl_cons, List.append_cons]
      rcases h.offer (hfixes fix List.mem_cons_self) with h | h
      · exact ih h hrest
      · exact ih h hrest

end Collects

/-- A fix is in the batch, or it conflicts with one that is. -/
theorem collects_ofFixes {fixes : List Fix} (hfixes : ∀ fix ∈ fixes, fix.Fits text) :
    ∃ taken, (ofFixes fixes).Collects text fixes taken :=
  (Collects.empty text).foldl hfixes

/-- The text after a batch is the tidied splice of its edits. -/
theorem run_eq (h : (ofFixes offered).Collects text offered taken) :
    ∃ spliced touched, Edit.Splices 0 text (ofFixes offered).edits spliced
      ∧ run text offered = (tidy spliced touched, taken.length) := by
  obtain ⟨spliced, hspliced⟩ : ∃ new, Edit.Splices 0 text (ofFixes offered).edits new :=
    Edit.exists_splices [] text h.inChain h.fitsIn fun _ _ => Nat.zero_le _
  refine ⟨spliced, Edit.landed 0 0 (ofFixes offered).edits, hspliced, ?_⟩
  simp only [run, Fix.applyEdits, hspliced.splice?_eq, h.count]

end Batch

/-! ### Counting -/

/-- The edit brings the character no more often than it takes it away. -/
def Edit.AddsNo (c : Char) (text : Text) (edit : Edit) : Prop :=
  edit.text.count c ≤ (text.slice edit.span).count c

/-- Where each part has a character no more often than its counterpart, so do
    all of them together. -/
theorem count_flatMap_le {α : Type} {c : Char} {f g : α → Text} {parts : List α}
    (h : ∀ part ∈ parts, (f part).count c ≤ (g part).count c) :
    (parts.flatMap f).count c ≤ (parts.flatMap g).count c := by
  induction parts with
  | nil => exact Nat.le_refl _
  | cons part parts ih =>
      rw [List.flatMap_cons, List.flatMap_cons, List.count_append, List.count_append]
      exact Nat.add_le_add (h part List.mem_cons_self)
        (ih fun other hother => h other (List.mem_cons_of_mem _ hother))

/-- Where some part has a character less often, so have all of them together. -/
theorem count_flatMap_lt {α : Type} {c : Char} {f g : α → Text} {parts : List α}
    (h : ∀ part ∈ parts, (f part).count c ≤ (g part).count c) {part : α} (hpart : part ∈ parts)
    (hlt : (f part).count c < (g part).count c) :
    (parts.flatMap f).count c < (parts.flatMap g).count c := by
  obtain ⟨before, after, rfl⟩ := List.append_of_mem hpart
  have hbefore := count_flatMap_le fun other hother => h other (List.mem_append_left _ hother)
  have hafter := count_flatMap_le fun other hother =>
    h other (List.mem_append_right _ (List.mem_cons_of_mem _ hother))
  simp only [List.flatMap_append, List.flatMap_cons, List.count_append]
  omega

/-- The characters of the new text are those of the old one without those that
    the edits replace, and with those that they bring. -/
theorem Edit.Splices.count {source rest new : Text} {edits : List Edit} (before : Text)
    (h : Splices (size before) rest edits new) (hsource : source = before ++ rest) (c : Char) :
    new.count c + (edits.flatMap fun edit => source.slice edit.span).count c
      = rest.count c + (edits.flatMap Edit.text).count c := by
  generalize hcursor : size before = cursor at h
  induction h generalizing before with
  | nil => rfl
  | @cons cursor start stop kept old rest new text edits hstart hstop tail ih =>
      -- What the first edit replaces is the slice of the whole source at its span.
      have hslice : source.slice ⟨start, stop⟩ = old :=
        slice_eq_of_slice? (slice?_eq_some_iff.2 ⟨before ++ kept, rest, by
          rw [hsource]
          simp only [List.append_assoc], by
          rw [size_append, hcursor, hstart], hstop⟩)
      have htail := ih (before ++ kept ++ old)
        (by rw [hsource]; simp only [List.append_assoc])
        (by rw [size_append, size_append]; omega)
      simp only [List.flatMap_cons, List.count_append, hslice] at htail ⊢
      omega

/-- Tidying keeps how often a character of ink stands in a text. -/
theorem count_tidy {c : Char} (hink : isInk c = true) (text : Text) (touched : List Span) :
    (tidy text touched).count c = text.count c := by
  have h := congrArg (List.count c) (tidied_tidy text touched).ink
  rwa [List.count_filter hink, List.count_filter hink] at h

/-- A batch changes how often a character of ink stands in the text as its
    edits do. -/
theorem Batch.count_run {text : Text} {offered taken : List Fix}
    (h : (ofFixes offered).Collects text offered taken) {c : Char} (hink : isInk c = true) :
    (run text offered).1.count c
        + ((ofFixes offered).edits.flatMap fun edit => text.slice edit.span).count c
      = text.count c + ((ofFixes offered).edits.flatMap Edit.text).count c := by
  obtain ⟨spliced, touched, hspliced, hrun⟩ := run_eq h
  rw [hrun, count_tidy hink]
  exact hspliced.count [] rfl c

end SharpLint

import SharpLint.Proofs.Edit.Batch

/-!
# A Batch Is Its Fixes One After the Other

Edits that are planned on one text may be made one fix at a time, if the edits
of a later fix are moved to where the text they replace has gone. That yields
the text of the batch. What sets a batch apart from single fixes is thus only
that no fix in it is planned anew on what those before it have left.

## Main definitions

* `Edit.moved`: an edit on the text that others have left.
* `Edit.Merged`: edits in order, told apart by the fix they belong to.
* `Batch.inTurn`: the text after fixes that are made one after the other.

## Theorems

* `Edit.merged_inOrder`: Sorting merges edits that are sorted.
* `Edit.Splices.inTurn`: A splice may be made in two turns.
* `Batch.inTurn_eq`: A batch leaves what its fixes leave one after the other.
-/

namespace SharpLint

open Text

namespace Edit

/-- The edit on the text that the edits `made` have left, where byte `cursor`
    of the text before them has become byte `out`. -/
def moved (cursor out : Nat) (made : List Edit) (edit : Edit) : Edit :=
  let before := made.filter fun other => other.precedes edit
  let gone := before.foldr (fun other sum => other.span.stop - other.span.start + sum) 0
  let start := (out + edit.span.start + size (before.flatMap Edit.text)) - (cursor + gone)
  ⟨⟨start, start + (edit.span.stop - edit.span.start)⟩, edit.text⟩

/-- The edits in `made` and those in `more`, each in order, are those in the
    third list; where two are at one place, those made go first. -/
inductive Merged : List Edit → List Edit → List Edit → Prop
  | nil : Merged [] [] []
  | made {edit : Edit} {made more merged : List Edit}
      (hbefore : ∀ later ∈ more, edit.precedes later = true) (tail : Merged made more merged) :
      Merged (edit :: made) more (edit :: merged)
  | more {edit : Edit} {made more merged : List Edit}
      (hbefore : ∀ later ∈ made, later.precedes edit = false) (tail : Merged made more merged) :
      Merged made (edit :: more) (edit :: merged)

theorem precedes_trans {a b c : Edit} (hab : a.precedes b = true) (hbc : b.precedes c = true) :
    a.precedes c = true := by
  rw [precedes_iff] at *
  omega

/-- An edit that comes before all of those made is merged in as one of them. -/
theorem Merged.insert {edit : Edit} {made more merged : List Edit} (h : Merged made more merged)
    (hmade : ∀ later ∈ made, edit.precedes later = true)
    (hmore : more.Pairwise fun a b => a.precedes b = true) :
    Merged (edit :: made) more (insertBy precedes edit merged) := by
  -- The edit goes before the first of those merged that it precedes.
  induction h with
  | nil => exact .made (fun _ hlater => absurd hlater List.not_mem_nil) .nil
  | @made other made more merged hbefore tail ih =>
      have hother := hmade other List.mem_cons_self
      rw [insertBy, if_pos hother]
      exact .made (fun later hlater => precedes_trans hother (hbefore later hlater))
        (.made hbefore tail)
  | @more other made more merged hbefore tail ih =>
      rw [insertBy]
      split
      · next hother =>
        refine .made (fun later hlater => ?_) (.more hbefore tail)
        rcases List.mem_cons.1 hlater with rfl | hlater
        · exact hother
        · exact precedes_trans hother (List.rel_of_pairwise_cons hmore hlater)
      · next hother =>
        rw [Bool.not_eq_true] at hother
        refine .more (fun later hlater => ?_) (ih hmade hmore.tail)
        rcases List.mem_cons.1 hlater with rfl | hlater
        · exact hother
        · exact hbefore later hlater

/-- Sorting merges edits that are sorted. -/
theorem merged_inOrder {made more : List Edit}
    (hmade : made.Pairwise fun a b => a.precedes b = true)
    (hmore : more.Pairwise fun a b => a.precedes b = true) :
    Merged made more (inOrder (made ++ more)) := by
  induction made with
  | nil =>
      rw [List.nil_append, inOrder, sortBy_eq_self hmore]
      clear hmore
      induction more with
      | nil => exact .nil
      | cons edit more ih => exact .more (fun _ hlater => absurd hlater List.not_mem_nil) ih
  | cons edit made ih =>
      rw [List.cons_append, inOrder, sortBy, ← inOrder]
      exact (ih hmade.tail).insert (fun later hlater => List.rel_of_pairwise_cons hmade hlater) hmore

/-- A splice of merged edits is made in two turns: first the ones, then the
    others where their places have gone. -/
theorem Splices.inTurn {cursor : Nat} {text new : Text} {made more merged : List Edit}
    (h : Splices cursor text merged new) (hmerged : Merged made more merged) (out : Nat) :
    ∃ mid, Splices cursor text made mid ∧ Splices out mid (more.map (moved cursor out made)) new := by
  induction hmerged generalizing cursor text new out with
  | nil =>
      cases h
      exact ⟨text, .nil, .nil⟩
  | @made edit made more merged hbefore tail ih =>
      cases h with
      | @cons _ start stop kept old rest new brought _ hstart hstop htail =>
          obtain ⟨mid, hmid, hnew⟩ := ih htail (out + size (kept ++ brought))
          refine ⟨kept ++ brought ++ mid, .cons hstart hstop hmid, ?_⟩
          -- The edit moves all that is still to come by what it adds.
          have hmap : more.map (moved cursor out (⟨⟨start, stop⟩, brought⟩ :: made))
              = more.map (moved stop (out + size (kept ++ brought)) made) := by
            refine List.map_congr_left fun later hlater => ?_
            have hfilter := List.filter_cons_of_pos (l := made)
              (p := fun other : Edit => other.precedes later) (hbefore later hlater)
            simp only [moved, hfilter, List.flatMap_cons, List.foldr_cons, size_append]
            congr 2 <;> omega
          rw [hmap]
          exact hnew.keep
  | @more edit made more merged hbefore tail ih =>
      cases h with
      | @cons _ start stop kept old rest new brought _ hstart hstop htail =>
          obtain ⟨mid, hmid, hnew⟩ := ih htail (out + size (kept ++ old))
          refine ⟨kept ++ old ++ mid, ?_, ?_⟩
          · exact Splices.keep (by rwa [size_append, show cursor + (size kept + size old) = stop by omega])
          have hfilter : made.filter (fun other => other.precedes ⟨⟨start, stop⟩, brought⟩) = [] :=
            List.filter_eq_nil_iff.2 fun later hlater => by
              rw [hbefore later hlater]
              exact Bool.false_ne_true
          have hmoved : moved cursor out made ⟨⟨start, stop⟩, brought⟩
              = ⟨⟨out + size kept, out + size kept + size old⟩, brought⟩ := by
            simp only [moved, hfilter, List.flatMap_nil, List.foldr_nil, size_nil]
            congr 2 <;> omega
          have hmap : more.map (moved cursor out made)
              = more.map (moved stop (out + size kept + size old) made) := by
            refine List.map_congr_left fun later _ => ?_
            simp only [moved]
            congr 2 <;> omega
          rw [List.map_cons, hmoved, hmap]
          rw [size_append, ← Nat.add_assoc] at hnew
          exact .cons rfl rfl hnew

end Edit

namespace Batch

/-- The text after the fixes are made one after the other on what the edits
    `made` have left. -/
def inTurn (text : Text) (made : List Edit) : List Fix → Option Text
  | [] => some text
  | fix :: fixes =>
    match Edit.splice? text (fix.edits.map (Edit.moved 0 0 made)) with
    | some (after, _) => inTurn after (Edit.inOrder (made ++ fix.edits)) fixes
    | none => none

variable {text : Text} {offered taken : List Fix}

/-- A splice of two lists of edits in order is made in two turns. -/
theorem exists_turn {made more : List Edit} {mid new : Text} (hmid : Edit.Splices 0 text made mid)
    (hmore : Edit.InChain more) (hforward : ∀ edit ∈ more, edit.span.start ≤ edit.span.stop)
    (hnew : Edit.Splices 0 text (Edit.inOrder (made ++ more)) new) :
    Edit.Splices 0 mid (more.map (Edit.moved 0 0 made)) new := by
  have hmerged : Edit.Merged made more (Edit.inOrder (made ++ more)) := Edit.merged_inOrder
    (List.Pairwise.imp_of_mem (fun ha hb => Edit.precedes_of_chain (hmid.forward ha).2.1
      (hmid.forward hb).2.1) hmid.inChain)
    (List.Pairwise.imp_of_mem (fun ha hb => Edit.precedes_of_chain (hforward _ ha)
      (hforward _ hb)) hmore)
  obtain ⟨mid', hmid', hturn⟩ := hnew.inTurn hmerged 0
  exact hmid.unique hmid' ▸ hturn

theorem taken_offer_le (batch : Batch) (fix : Fix) : (batch.offer fix).taken ≤ batch.taken + 1 := by
  simp only [offer]
  split
  · exact Nat.le_succ batch.taken
  · exact Nat.le_refl _

theorem taken_foldl_le (batch : Batch) (fixes : List Fix) :
    (fixes.foldl offer batch).taken ≤ batch.taken + fixes.length := by
  induction fixes generalizing batch with
  | nil => exact Nat.le_refl _
  | cons fix fixes ih =>
      have hoffer := taken_offer_le batch fix
      have hrest := ih (batch.offer fix)
      rw [List.foldl_cons, List.length_cons]
      omega

/-- Fixes that a batch takes one and all are made one after the other. -/
theorem inTurn_foldl {mid : Text} (batch : Batch) (fixes : List Fix) (hfits : ∀ fix ∈ fixes, fix.Fits text)
    (hedits : ∀ edit ∈ batch.edits, edit.FitsIn text) (hmid : Edit.Splices 0 text batch.edits mid)
    (hall : (fixes.foldl offer batch).taken = batch.taken + fixes.length) :
    ∃ new, inTurn mid batch.edits fixes = some new
      ∧ Edit.Splices 0 text (fixes.foldl offer batch).edits new := by
  induction fixes generalizing batch mid with
  | nil => exact ⟨mid, rfl, hmid⟩
  | cons fix fixes ih =>
      have hfix := hfits fix List.mem_cons_self
      have hmem : ∀ edit ∈ Edit.inOrder (batch.edits ++ fix.edits), edit.FitsIn text :=
        fun edit hedit => (List.mem_append.1 ((sortBy_perm Edit.precedes _).mem_iff.1 hedit)).elim
          (hedits edit) (hfix.fitsIn edit)
      rw [List.foldl_cons, List.length_cons] at hall
      have hle := taken_foldl_le (batch.offer fix) fixes
      -- The first fix is taken, for else fewer would be.
      have hoffer : Edit.overlapping (Edit.inOrder (batch.edits ++ fix.edits)) = false
          ∧ batch.offer fix = ⟨Edit.inOrder (batch.edits ++ fix.edits), batch.taken + 1⟩ := by
        cases hoverlap : Edit.overlapping (Edit.inOrder (batch.edits ++ fix.edits)) with
        | true =>
            rw [show batch.offer fix = batch by simp only [offer, hoverlap, if_true]] at hle hall
            omega
        | false => exact ⟨rfl, by simp only [offer, hoverlap, Bool.false_eq_true, if_false]⟩
      have hchain := Edit.inChain_of_overlapping hoffer.1 fun edit hedit => (hmem edit hedit).forward
      obtain ⟨next, hnext⟩ : ∃ next, Edit.Splices 0 text (Edit.inOrder (batch.edits ++ fix.edits)) next :=
        Edit.exists_splices [] text hchain hmem fun _ _ => Nat.zero_le _
      have hturn := exists_turn hmid hfix.inChain (fun edit hedit => (hfix.fitsIn edit hedit).forward)
        hnext
      rw [List.foldl_cons, hoffer.2, inTurn, hturn.splice?_eq]
      rw [hoffer.2] at hall
      refine ih ⟨Edit.inOrder (batch.edits ++ fix.edits), batch.taken + 1⟩
        (fun other hother => hfits other (List.mem_cons_of_mem _ hother)) hmem hnext ?_
      simp only at hall ⊢
      omega

/-- A batch leaves what the fixes in it leave one after the other, but for the
    lines that are tidied. -/
theorem inTurn_eq (h : (ofFixes offered).Collects text offered taken)
    (hfits : ∀ fix ∈ offered, fix.Fits text) :
    ∃ spliced touched, inTurn text [] taken = some spliced
      ∧ run text offered = (tidy spliced touched, taken.length) := by
  obtain ⟨spliced, touched, hspliced, hrun⟩ := run_eq h
  obtain ⟨new, hnew, hsplices⟩ := inTurn_foldl {} taken
    (fun fix hfix => hfits fix (h.sublist.subset hfix))
    (fun edit hedit => absurd hedit List.not_mem_nil) .nil (by
      rw [← ofFixes, h.alone, h.count, Nat.zero_add])
  rw [← ofFixes, h.alone] at hsplices
  exact ⟨spliced, touched, hspliced.unique hsplices ▸ hnew, hrun⟩

end Batch

end SharpLint

import SharpLint.Edit.Batch
import SharpLint.Lint.Issue
import SharpLint.Proofs.Edit.Clear

/-!
# What a Pass Takes

A pass is offered one fix after the other, and takes each that goes with those
it has taken, all of its edits or none. Fixes are never given back, so what was
refused once would be refused by the finished batch as well. The batch is made
as a whole: if its edits fit the text they are all applied, and otherwise
nothing is applied and nothing is counted. Fixes that could each be applied
alone make a batch that can.

## Main definitions

* `Fix.GoesWith`: the edits of a fix are clear of one another and of others.
* `Batch.verdicts`: the fixes on offer, each with whether it is taken.
* `Batch.accepted`: those that are taken.

## Theorems

* `Fix.GoesWith.mono`: A fix that goes with others goes with fewer.
* `Batch.Holds.offer`: What a batch does with one fix.
* `Batch.Holds.foldl`: What a batch holds when all are offered.
* `Batch.run_takes_greedily`: Which fixes a pass takes, and what it leaves.
-/

namespace SharpLint

open Text

/-- All edits of the fix are clear of one another and of those of the fixes in
    `taken`. -/
structure Fix.GoesWith (fix : Fix) (taken : List Fix) : Prop where
  itself : fix.edits.Pairwise Edit.Clear
  others : ∀ other ∈ taken, ∀ a ∈ other.edits, ∀ b ∈ fix.edits, a.Clear b

/-- A fix that goes with others goes with fewer of them. -/
theorem Fix.GoesWith.mono {fix : Fix} {taken fewer : List Fix} (h : fix.GoesWith taken)
    (hfewer : ∀ other ∈ fewer, other ∈ taken) : fix.GoesWith fewer :=
  ⟨h.itself, fun other hother => h.others other (hfewer other hother)⟩

namespace Batch

/-- The fixes, offered to the batch one after the other, each with whether it
    is taken. -/
def verdicts (batch : Batch) : List Fix → List (Fix × Bool)
  | [] => []
  | fix :: fixes =>
    (fix, decide (batch.taken < (batch.offer fix).taken)) :: verdicts (batch.offer fix) fixes

/-- The fixes that are taken. -/
def accepted (verdicts : List (Fix × Bool)) : List Fix :=
  (verdicts.filter Prod.snd).map Prod.fst

theorem accepted_append (verdicts more : List (Fix × Bool)) :
    accepted (verdicts ++ more) = accepted verdicts ++ accepted more := by
  rw [accepted, List.filter_append, List.map_append, ← accepted, ← accepted]

theorem map_fst_verdicts (batch : Batch) (fixes : List Fix) :
    (batch.verdicts fixes).map Prod.fst = fixes := by
  induction fixes generalizing batch with
  | nil => rfl
  | cons fix fixes ih => rw [verdicts, List.map_cons, ih]

/-- The batch holds the edits of the fixes in `taken`, all clear of one
    another. -/
structure Holds (batch : Batch) (taken : List Fix) : Prop where
  edits : batch.edits = Edit.inOrder (taken.flatMap Fix.edits)
  count : batch.taken = taken.length
  clear : (taken.flatMap Fix.edits).Pairwise Edit.Clear

variable {batch : Batch} {taken : List Fix}

theorem holds_empty : Holds {} [] :=
  ⟨rfl, rfl, List.Pairwise.nil⟩

/-- The edits of a fix may join those taken if the fix goes with them. -/
theorem Holds.pairwise_append_iff (h : batch.Holds taken) {fix : Fix} :
    (taken.flatMap Fix.edits ++ fix.edits).Pairwise Edit.Clear ↔ fix.GoesWith taken := by
  rw [List.pairwise_append]
  constructor
  · rintro ⟨-, hitself, hothers⟩
    exact ⟨hitself, fun other hother a ha b hb =>
      hothers a (List.mem_flatMap.2 ⟨other, hother, ha⟩) b hb⟩
  · intro hgoes
    refine ⟨h.clear, hgoes.itself, fun a ha b hb => ?_⟩
    obtain ⟨other, hother, ha⟩ := List.mem_flatMap.1 ha
    exact hgoes.others other hother a ha b hb

/-- A fix is taken as a whole if it goes with those taken before; else the batch
    stays as it is. -/
theorem Holds.offer (h : batch.Holds taken) (fix : Fix) :
    (fix.GoesWith taken ∧ batch.taken < (batch.offer fix).taken
        ∧ (batch.offer fix).Holds (taken ++ [fix]))
      ∨ (¬fix.GoesWith taken ∧ batch.offer fix = batch) := by
  have hunion : (taken ++ [fix]).flatMap Fix.edits = taken.flatMap Fix.edits ++ fix.edits := by
    rw [List.flatMap_append, List.flatMap_singleton]
  have hjoined : Edit.inOrder (batch.edits ++ fix.edits)
      = Edit.inOrder (taken.flatMap Fix.edits ++ fix.edits) := by
    rw [h.edits, Edit.inOrder_append_inOrder]
  have hdecides : Edit.overlapping (Edit.inOrder (taken.flatMap Fix.edits ++ fix.edits)) = false
      ↔ fix.GoesWith taken := Edit.overlapping_inOrder.trans h.pairwise_append_iff
  rw [Batch.offer, hjoined]
  -- What the batch tests is all pairs, as it sorts before it tests neighbours.
  cases hoverlap : Edit.overlapping (Edit.inOrder (taken.flatMap Fix.edits ++ fix.edits)) with
  | false =>
      have hgoes := hdecides.1 hoverlap
      refine .inl ⟨hgoes, Nat.lt_succ_self _, by rw [hunion]; rfl, ?_, ?_⟩
      · rw [List.length_append, ← h.count]
        rfl
      · rw [hunion]
        exact h.pairwise_append_iff.2 hgoes
  | true =>
      refine .inr ⟨fun hgoes => ?_, rfl⟩
      rw [hdecides.2 hgoes] at hoverlap
      exact Bool.false_ne_true hoverlap

/-- What a batch holds when all fixes have been offered. -/
theorem Holds.foldl (h : batch.Holds taken) (fixes : List Fix) :
    (fixes.foldl Batch.offer batch).Holds (taken ++ accepted (batch.verdicts fixes)) := by
  induction fixes generalizing batch taken with
  | nil =>
      rw [verdicts, accepted, List.filter_nil, List.map_nil, List.append_nil]
      exact h
  | cons fix fixes ih =>
      rw [List.foldl_cons, verdicts]
      rcases h.offer fix with ⟨-, hlt, hoffer⟩ | ⟨-, hoffer⟩
      · have hrest := ih hoffer
        rwa [List.append_assoc, ← show accepted [(fix, true)] = [fix] from rfl, ← accepted_append,
          List.singleton_append, ← decide_eq_true hlt] at hrest
      · rw [hoffer, decide_eq_false (Nat.lt_irrefl _)]
        exact ih h

/-- A fix is taken exactly if it goes with those taken before it. -/
theorem Holds.verdict_iff (h : batch.Holds taken) {fixes : List Fix} {fix : Fix} {flag : Bool}
    {before after : List (Fix × Bool)}
    (hsplit : batch.verdicts fixes = before ++ (fix, flag) :: after) :
    flag = true ↔ fix.GoesWith (taken ++ accepted before) := by
  -- Along the fixes on offer: the batch at each holds what is taken of those before.
  induction fixes generalizing batch taken before with
  | nil => exact absurd hsplit (by simp only [verdicts, List.nil_eq, List.append_eq_nil_iff,
      reduceCtorEq, and_false, not_false_eq_true])
  | cons first fixes ih =>
      rw [verdicts] at hsplit
      have hfirst := h.offer first
      cases before with
      | nil =>
          rw [List.nil_append, List.cons.injEq, Prod.mk.injEq] at hsplit
          obtain ⟨⟨rfl, rfl⟩, -⟩ := hsplit
          rw [decide_eq_true_eq, show accepted [] = [] from rfl, List.append_nil]
          rcases hfirst with ⟨hgoes, hlt, -⟩ | ⟨hnot, hoffer⟩
          · exact iff_of_true hlt hgoes
          · rw [hoffer]
            exact iff_of_false (Nat.lt_irrefl _) hnot
      | cons verdict before =>
          rw [List.cons_append, List.cons.injEq] at hsplit
          obtain ⟨rfl, hrest⟩ := hsplit
          rcases hfirst with ⟨-, hlt, hoffer⟩ | ⟨-, hoffer⟩
          · rw [decide_eq_true hlt, ← List.singleton_append, accepted_append, ← List.append_assoc]
            exact ih hoffer hrest
          · rw [hoffer, decide_eq_false (Nat.lt_irrefl _)]
            rw [hoffer] at hrest
            change flag = true ↔ fix.GoesWith (taken ++ accepted before)
            exact ih h hrest

/-- A pass takes the fix of an issue exactly if all its edits are clear of one
    another and of those of the fixes taken before, so each fix that is left
    conflicts with itself or with one that is taken. It leaves the text after
    the edits of the fixes taken, and adds their number to that of the fixes
    applied before; where the edits do not fit the text, both stay as they are.
    Where each fix fits the text alone, the edits taken do. -/
theorem run_takes_greedily (text : Text) (issues : List Issue) (applied : Nat) :
    let fixes := issues.filterMap Issue.fix
    let verdicts := Batch.verdicts {} fixes
    let union := (accepted verdicts).flatMap Fix.edits
    verdicts.map Prod.fst = fixes
      ∧ (∀ before fix flag after, verdicts = before ++ (fix, flag) :: after →
        (flag = true ↔ fix.GoesWith (accepted before)))
      ∧ (∀ fix, (fix, false) ∈ verdicts → ¬fix.GoesWith (accepted verdicts))
      ∧ ((run text fixes).1, applied + (run text fixes).2) = (match Fix.applyEdits text union with
        | .ok after => (after, applied + (accepted verdicts).length)
        | .error _ => (text, applied))
      ∧ ((∀ fix ∈ fixes, ∃ after, fix.apply text = .ok after) →
        ∃ after, Fix.applyEdits text union = .ok after) := by
  intro fixes verdicts union
  have hverdict : ∀ before fix flag after, verdicts = before ++ (fix, flag) :: after →
      (flag = true ↔ fix.GoesWith (accepted before)) := fun before fix flag after hsplit => by
    have h := holds_empty.verdict_iff hsplit
    rwa [List.nil_append] at h
  have hholds : (ofFixes fixes).Holds (accepted verdicts) := holds_empty.foldl fixes
  refine ⟨map_fst_verdicts {} fixes, hverdict, fun fix hfix hgoes => ?_, ?_, fun halone => ?_⟩
  · -- What goes with all that is taken went with what was taken before it.
    obtain ⟨before, after, hsplit⟩ := List.append_of_mem hfix
    refine Bool.false_ne_true ((hverdict before fix false after hsplit).2 (hgoes.mono ?_))
    rw [hsplit, accepted_append]
    exact fun other hother => List.mem_append_left _ hother
  · have hunion : Fix.applyEdits text (ofFixes fixes).edits = Fix.applyEdits text union := by
      have hagain := Edit.inOrder_append_inOrder union []
      rw [List.append_nil, List.append_nil] at hagain
      rw [hholds.edits, Fix.applyEdits, Edit.splice?, hagain]
      rfl
    rw [run, hunion, hholds.count]
    cases Fix.applyEdits text union <;> rfl
  · -- An edit that fits the text alone fits it in the union, and the batch keeps all clear.
    refine Fix.applyEdits_ok_iff.2 ⟨fun edit hedit => ?_, hholds.clear⟩
    obtain ⟨fix, hfix, hedit⟩ := List.mem_flatMap.1 hedit
    obtain ⟨verdict, hmem, rfl⟩ := List.mem_map.1 hfix
    have hoffered : verdict.1 ∈ fixes := by
      rw [← map_fst_verdicts {} fixes]
      exact List.mem_map_of_mem (List.mem_filter.1 hmem).1
    exact (Fix.applyEdits_ok_iff.1 (halone _ hoffered)).1 edit hedit

/-- The issue of an edit, for it does not matter to a pass what an issue says. -/
def plainIssue (edit : Edit) : Issue :=
  { rule := .constructorLength, message := "", location := default, span := edit.span,
    fix := some ⟨"", "", [edit]⟩ }

/-- Issues with fixes of which the second reaches into the first, and the third
    touches the first and stands inside the second. -/
def touchingIssues : List Issue :=
  [plainIssue ⟨⟨0, 3⟩, ['x']⟩, plainIssue ⟨⟨2, 4⟩, []⟩, plainIssue ⟨⟨3, 3⟩, ['y']⟩]

/-- Fixes that touch are taken together. -/
theorem run_takes_greedily_touching :
    (∀ fix ∈ touchingIssues.filterMap Issue.fix, ∃ after, fix.apply "abcdef".toList = .ok after)
      ∧ (accepted (verdicts {} (touchingIssues.filterMap Issue.fix))).length = 2
      ∧ (∃ after, Fix.applyEdits "abcdef".toList
        ((accepted (verdicts {} (touchingIssues.filterMap Issue.fix))).flatMap Fix.edits)
          = .ok after) := by
  have halone : ∀ fix ∈ touchingIssues.filterMap Issue.fix,
      ∃ after, fix.apply "abcdef".toList = .ok after := by
    intro fix hfix
    change fix ∈ [_, _, _] at hfix
    simp only [List.mem_cons, List.not_mem_nil, or_false] at hfix
    rcases hfix with rfl | rfl | rfl
    · exact ⟨"xdef".toList, rfl⟩
    · exact ⟨"abef".toList, rfl⟩
    · exact ⟨"abcydef".toList, rfl⟩
  exact ⟨halone, by decide, (run_takes_greedily "abcdef".toList touchingIssues 0).2.2.2.2 halone⟩

end Batch

end SharpLint

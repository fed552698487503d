import SharpLint.Proofs.Edit.Single

/-!
# Planning and Applying

A fixer plans its edits in any order. The plan sorts them and refuses them if one
starts before its neighbour stops; no text is at hand then. When the fix is
applied, a cursor runs through a text and refuses an edit that reaches back over
it. Both come down to the same question: whether the edits are clear of one
another, all pairs of them. So a plan is refused exactly if the edits would be
refused by every text that each of them fits.

The fix holds the sorted edits, and applying it sorts them again. Sorting is
stable, so edits of one span keep the order in which they were planned.

## Theorems

* `Fix.ofEdits_eq_ok_iff`: When a plan becomes a fix, and which one.
* `Fix.applyEdits_inOrder`: Edits may be sorted before they are applied.
* `Fix.planning_agrees`: A plan becomes a fix exactly if its edits are applied.
-/

namespace SharpLint

namespace Fix

variable {title key : String} {planned : List Edit} {fix : Fix} {text : Text}

/-- A plan becomes a fix exactly if its edits are clear of one another. -/
theorem ofEdits_eq_ok_iff : Fix.ofEdits title key planned = .ok fix
    ↔ planned.Pairwise Edit.Clear ∧ fix = ⟨title, key, Edit.inOrder planned⟩ := by
  rw [Fix.ofEdits, ← Edit.overlapping_inOrder]
  split
  · next hoverlapping =>
    simp only [hoverlapping, reduceCtorEq, false_and]
  · next hclear =>
    rw [Bool.not_eq_true] at hclear
    rw [Except.ok.injEq, eq_comm, hclear]
    exact (and_iff_right rfl).symm

/-- A plan that becomes no fix is refused for its conflicts. -/
theorem ofEdits_eq_error_iff : Fix.ofEdits title key planned = .error .conflictingEdits
    ↔ ¬∃ fix, Fix.ofEdits title key planned = .ok fix := by
  rw [Fix.ofEdits]
  split
  · simp only [reduceCtorEq, exists_false, not_false_eq_true]
  · simp only [reduceCtorEq, Except.ok.injEq, exists_eq', not_true_eq_false]

/-- Edits may be sorted before they are applied. -/
theorem applyEdits_inOrder (text : Text) (edits : List Edit) :
    Fix.applyEdits text (Edit.inOrder edits) = Fix.applyEdits text edits := by
  rw [Fix.applyEdits, Fix.applyEdits, Edit.splice?, Edit.splice?,
    Edit.inOrder_congr fun span => Edit.ofSpan_inOrder span edits]

/-- Where all planned edits fit a text, planning and applying agree: a plan becomes
    a fix exactly if its edits are applied to the text in the order in which they
    were planned, and that is if no two have a byte in common. Otherwise both are
    refused, for the same reason. The fix has the planned edits, sorted, and makes
    of the text what they make of it. -/
theorem planning_agrees (title key : String) (hfits : ∀ edit ∈ planned, edit.FitsIn text) :
    ((∃ fix, Fix.ofEdits title key planned = .ok fix)
        ↔ ∃ after, Fix.apply text ⟨title, key, planned⟩ = .ok after)
      ∧ ((∃ fix, Fix.ofEdits title key planned = .ok fix) ↔ planned.Pairwise Edit.Apart)
      ∧ (Fix.ofEdits title key planned = .error .conflictingEdits
        ↔ Fix.apply text ⟨title, key, planned⟩ = .error .conflictingEdits)
      ∧ ∀ fix, Fix.ofEdits title key planned = .ok fix → fix.title = title ∧ fix.key = key
        ∧ fix.edits.Perm planned ∧ fix.edits.Pairwise (fun a b => a.precedes b = true)
        ∧ (∀ span, Edit.ofSpan span fix.edits = Edit.ofSpan span planned)
        ∧ Fix.apply text fix = Fix.apply text ⟨title, key, planned⟩ := by
  have hplan : (∃ fix, Fix.ofEdits title key planned = .ok fix) ↔ planned.Pairwise Edit.Clear := by
    simp only [ofEdits_eq_ok_iff, exists_and_left, exists_eq, and_true]
  have hagree : (∃ fix, Fix.ofEdits title key planned = .ok fix)
      ↔ ∃ after, Fix.apply text ⟨title, key, planned⟩ = .ok after := by
    rw [hplan, Fix.apply, applyEdits_ok_iff]
    exact (and_iff_right hfits).symm
  refine ⟨hagree, ?_, ?_, fun fix hfix => ?_⟩
  · -- Edits that fit go forward, so they are clear exactly if they are apart.
    rw [hplan]
    exact List.Pairwise.iff_of_mem fun ha hb =>
      Edit.clear_iff_apart (hfits _ ha).forward (hfits _ hb).forward
  · rw [ofEdits_eq_error_iff, apply_eq_error_iff, hagree]
  · obtain ⟨-, rfl⟩ := ofEdits_eq_ok_iff.1 hfix
    exact ⟨rfl, rfl, sortBy_perm Edit.precedes planned, Edit.pairwise_inOrder planned,
      fun span => Edit.ofSpan_inOrder span planned, applyEdits_inOrder text planned⟩

/-- A replacement with two insertions at its start, planned from the last on. -/
def touchingEdits : List Edit :=
  [⟨⟨3, 4⟩, ['z']⟩, ⟨⟨1, 3⟩, ['e']⟩, ⟨⟨1, 1⟩, ['x']⟩, ⟨⟨1, 1⟩, ['y']⟩]

/-- A removal with an insertion inside it. -/
def nestedEdits : List Edit :=
  [⟨⟨1, 4⟩, []⟩, ⟨⟨3, 3⟩, ['x']⟩]

/-- The edits that touch are planned and applied, and the nested ones are refused
    by both. -/
theorem planning_agrees_accented :
    (∃ fix, Fix.ofEdits "" "" touchingEdits = .ok fix
        ∧ Fix.apply accentedText fix = .ok "axyez".toList)
      ∧ Fix.ofEdits "" "" nestedEdits = .error .conflictingEdits
      ∧ Fix.apply accentedText ⟨"", "", nestedEdits⟩ = .error .conflictingEdits := by
  have hfits (edits : List Edit)
      (h : ∀ edit ∈ edits, (Edit.make? accentedText edit).isSome = true) :
      ∀ edit ∈ edits, edit.FitsIn accentedText := fun edit hedit =>
    Edit.exists_make?_iff.1 (Option.isSome_iff_exists.1 (h edit hedit))
  obtain ⟨hagree, -, -, hfix⟩ := planning_agrees "" "" (hfits touchingEdits (by decide))
  obtain ⟨-, -, hrefused, -⟩ := planning_agrees "" "" (hfits nestedEdits (by decide))
  have happlied : Fix.apply accentedText ⟨"", "", touchingEdits⟩ = .ok "axyez".toList := by rfl
  have hnested : Fix.ofEdits "" "" nestedEdits = .error .conflictingEdits := by rfl
  obtain ⟨fix, hplanned⟩ := hagree.2 ⟨_, happlied⟩
  obtain ⟨-, -, -, -, -, hsame⟩ := hfix fix hplanned
  exact ⟨⟨fix, hplanned, hsame.trans happlied⟩, hnested, hrefused.1 hnested⟩

end Fix

end SharpLint

import SharpLint.Proofs.Edit.Spared
import SharpLint.Proofs.Lint.Rounds
import SharpLint.Proofs.Syntax.Strings

/-!
# Fixes and String Literals

A fix keeps the string literals that it does not edit, each in its place. What
tidies the edited lines does not know of literals, though: a literal of several
lines may begin on an edited line, and what looks like padding there is part of
its value.

## Main definitions

* `Fix.Spares`: a string literal lies apart from the edits of a fix.

## Theorems

* `analyze_keeps_literals`: What a fix leaves of a literal apart from its edits.
* `padding_of_literal_is_lost`: A literal may lose padding that is part of it.
-/

namespace SharpLint

open Text Place

/-- The place is one of a string literal, and no edit of the fix meets it. -/
structure Fix.Spares (fix : Fix) (document : Document) (literal : Place) : Prop where
  has : document.Has literal
  isString : literal.kind.isString = true
  apart : ∀ edit ∈ fix.edits,
    edit.span.stop ≤ literal.start ∨ literal.stop ≤ edit.span.start

/-- A fix on offer applies, and every string literal that lies apart from its
    edits stands in the new text between what the edits before it and those
    behind it have left. It is what it was, but for padding at the end of its
    first line, if it has several and an edit ends on this line before it. -/
theorem analyze_keeps_literals {config : Config} {source : Text} {issue : Issue} {fix : Fix}
    (hissue : issue ∈ analyze config source) (hfix : issue.fix = some fix) {literal : Place}
    (hspares : fix.Spares (.parse source) literal) :
    ∃ first last X Y before behind, fix.edits = first ++ last
      ∧ Edit.Splices 0 (source.slice ⟨0, literal.start⟩) first X
      ∧ Edit.Splices literal.stop (source.slice ⟨literal.stop, source.size⟩) last Y
      ∧ before.filter isInk = X.filter isInk ∧ behind.filter isInk = Y.filter isInk
      ∧ fix.apply source = .ok (before
        ++ (if fix.edits.any (Edit.endsBefore source literal.start)
          then (source.slice literal.span).trimFirstLine else source.slice literal.span)
        ++ behind) := by
  have hfits := (fits_of_mem_analyze hissue hfix).1
  obtain ⟨new, hnew⟩ : ∃ new, Edit.Splices 0 source fix.edits new :=
    Edit.exists_splices [] source hfits.inChain hfits.fitsIn fun _ _ => Nat.zero_le _
  obtain ⟨text, ⟨x, y, hsource, hstart⟩, hstop, hsolid⟩ :=
    hspares.has.solid_of_isString (Document.parse_sound source) (Document.parse_worded source)
      hspares.isString
  change source = x ++ text ++ y at hsource
  -- The source is what stands before the literal, the literal, and what stands behind it.
  have hstop' : size (x ++ text) = literal.stop := by rw [size_append, hstart, hstop]
  have hbefore : source.slice ⟨0, literal.start⟩ = x :=
    slice_eq_of_slice? (slice?_eq_some_iff.2
      ⟨[], text ++ y, by rw [hsource, List.nil_append, List.append_assoc], rfl,
        by rw [← hstart, Nat.zero_add]⟩)
  have hslice : source.slice literal.span = text :=
    slice_eq_of_slice? (slice?_eq_some_iff.2 ⟨x, y, hsource, hstart, hstop⟩)
  have hbehind : source.slice ⟨literal.stop, source.size⟩ = y :=
    slice_eq_of_slice? (slice?_eq_some_iff.2
      ⟨x ++ text, [], by rw [hsource, List.append_nil], hstop', by
        rw [← hstop', hsource, size_append (x ++ text)]⟩)
  have hapart := hspares.apart
  rw [← hstart, ← hstop'] at hapart
  rw [hbefore, hslice, hbehind, ← hstart, ← hstop']
  rw [hsource] at hnew ⊢
  obtain ⟨first, last, X, Y, before, behind, hedits, hfirst, hlast, hbeforeInk, hbehindInk,
    htidy⟩ := hnew.tidy_spared hsolid hapart
  refine ⟨first, last, X, Y, before, behind, hedits, hfirst, hlast, hbeforeInk, hbehindInk, ?_⟩
  rw [Fix.apply, Fix.applyEdits, hnew.splice?_eq]
  exact congrArg _ htidy

/-- A constructor on a long line, on which a literal of two lines begins. -/
def paddedSource : Text :=
  "class C \x7b C(int a) \x7b Use(@\"b  \nc\"); \x7d \x7d".toList

set_option maxRecDepth 100000 in
/-- The wrap of its parameter spares the literal and yields a text without it. -/
theorem exists_padding_lost :
    ∃ issue ∈ analyze narrow paddedSource, ∃ fix literal after, issue.fix = some fix
      ∧ fix.Spares (.parse paddedSource) literal ∧ fix.apply paddedSource = .ok after
      ∧ ¬paddedSource.slice literal.span <:+: after := by
  have hlost : ((analyze narrow paddedSource).any fun issue => issue.fix.any fun fix =>
      (fix.apply paddedSource).toOption.any fun after =>
        (Document.parse paddedSource).root.descendants.any fun literal =>
          literal.kind.isString && fix.edits.all (fun edit =>
            edit.span.stop ≤ literal.start || literal.stop ≤ edit.span.start)
          && !decide (paddedSource.slice literal.span <:+: after)) = true := by
    decide +kernel
  obtain ⟨issue, hissue, hlost⟩ := List.any_eq_true.1 hlost
  obtain ⟨fix, hfix, hlost⟩ := (Option.any_eq_true _ _).1 hlost
  obtain ⟨after, hafter, hlost⟩ := (Option.any_eq_true _ _).1 hlost
  obtain ⟨literal, hliteral, hlost⟩ := List.any_eq_true.1 hlost
  simp only [Bool.and_eq_true, List.all_eq_true, Bool.or_eq_true, decide_eq_true_eq,
    Bool.not_eq_true', decide_eq_false_iff_not] at hlost
  exact ⟨issue, hissue, fix, literal, after, hfix,
    ⟨mem_descendants.1 hliteral, hlost.1.1, hlost.1.2⟩, eq_ok_of_toOption hafter, hlost.2⟩

/-- What the wrap leaves of the literal. -/
theorem analyze_keeps_literals_behind_wrap :
    ∃ issue ∈ analyze narrow paddedSource, ∃ fix literal, issue.fix = some fix
      ∧ fix.Spares (.parse paddedSource) literal ∧ ∃ before behind,
        fix.apply paddedSource = .ok (before
          ++ (if fix.edits.any (Edit.endsBefore paddedSource literal.start)
            then (paddedSource.slice literal.span).trimFirstLine
            else paddedSource.slice literal.span)
          ++ behind) := by
  obtain ⟨issue, hissue, fix, literal, -, hfix, hspares, -⟩ := exists_padding_lost
  obtain ⟨-, -, -, -, before, behind, -, -, -, -, -, happly⟩ :=
    analyze_keeps_literals hissue hfix hspares
  exact ⟨issue, hissue, fix, literal, hfix, hspares, before, behind, happly⟩

set_option maxRecDepth 100000 in
/-- A literal that a fix spares may lose padding that is part of it. -/
theorem padding_of_literal_is_lost :
    ¬∀ (config : Config) (source : Text), (Document.parse source).hasErrors = false →
      ∀ issue ∈ analyze config source, ∀ fix, issue.fix = some fix →
      ∀ literal, fix.Spares (.parse source) literal →
      ∀ after, fix.apply source = .ok after → source.slice literal.span <:+: after := by
  intro h
  obtain ⟨issue, hissue, fix, literal, after, hfix, hspares, happly, hlost⟩ := exists_padding_lost
  exact hlost (h narrow paddedSource (by decide +kernel) issue hissue fix hfix literal hspares after
    happly)

end SharpLint

import SharpLint.Proofs.Edit.Batch
import SharpLint.Proofs.Edit.Greedy
import SharpLint.Proofs.Text.Returns

/-!
# Edits and Line Endings

Making edits may leave bare line feeds in two ways: an edit brings line feeds of
its own, or it stops between a carriage return and its line feed, so that the
line feed stays without its return. Tidying keeps the return of every line that
it keeps. So edits that part no return from its line feed leave at most as many
bare line feeds as there were, and those that they bring.

## Main definitions

* `Edit.KeepsReturns`: an edit parts no return from its line feed.
* `Edit.feeds`: the number of bare line feeds that edits bring.

## Theorems

* `bareFeeds_tidy_le`: Tidying makes no line feed bare.
* `Edit.Splices.bareFrom_le`: A splice makes only those bare that it brings.
* `Batch.bareFeeds_run_le`: So does a batch of fixes.
-/

namespace SharpLint

open Text

/-! ### Tidying -/

/-- A line that is kept keeps its return, and no line feed comes into it. -/
theorem TidyLine.written_spec (touched : Bool) {raw : Text} (hraw : '\n' ∉ raw) :
    '\n' ∉ (ofRaw touched raw).written
      ∧ (carry false raw = true → carry false (ofRaw touched raw).written = true) := by
  obtain ⟨ret, hbody, hwritten, -, hret⟩ := ofRaw_spec touched raw
  have hcleaned : '\n' ∉ (ofRaw touched raw).cleaned := by
    rw [cleaned]
    split
    · -- What is left of the body begins it.
      obtain ⟨pad, hpad, -⟩ := exists_dropPaddingEnd (ofRaw touched raw).body
      intro hmem
      rw [hbody, hpad] at hraw
      exact hraw (List.mem_append_left _ (List.mem_append_left _ hmem))
    · intro hmem
      rw [hbody] at hraw
      exact hraw (List.mem_append_left _ hmem)
  rw [hwritten]
  rcases hret with rfl | ⟨rfl, hnot⟩
  · refine ⟨fun hmem => ?_, fun _ => carry_concat _ _ _⟩
    rcases List.mem_append.1 hmem with hmem | hmem
    · exact hcleaned hmem
    · exact absurd (List.mem_singleton.1 hmem) (by decide)
  · rw [List.append_nil]
    exact ⟨hcleaned, fun hcarry => absurd (carry_eq_true_iff.1 hcarry) hnot⟩

/-- Of lines, those that are kept are followed by no more bare line feeds. -/
theorem bareFrom_tidyLines_le (flags : Nat → Bool) (shadowed : Bool) {raws : List Text}
    (hne : raws ≠ []) (hraws : ∀ raw ∈ raws, '\n' ∉ raw) :
    bareFrom false (joinLines
        (tidyLines shadowed (raws.mapIdx fun n raw => .ofRaw (flags n) raw)))
      ≤ bareFrom false (joinLines raws) := by
  induction raws generalizing shadowed flags with
  | nil => exact absurd rfl hne
  | cons raw raws ih =>
      have hraw := hraws raw List.mem_cons_self
      rcases TidyLine.written_spec (flags 0) hraw with ⟨hfeed, hreturn⟩
      rw [List.mapIdx_cons, tidyLines]
      by_cases hnil : raws = []
      · -- The last line is kept, and no line feed follows it.
        subst hnil
        rw [List.mapIdx_nil, List.isEmpty_nil, Bool.not_true, Bool.and_false,
          if_neg Bool.false_ne_true]
        exact Nat.le_trans (Nat.le_of_eq (bareFrom_eq_zero hfeed)) (Nat.zero_le _)
      · have htail (shadowed : Bool) := ih (fun n => flags (n + 1)) shadowed hnil
          fun other hother => hraws other (List.mem_cons_of_mem _ hother)
        rw [joinLines_cons hnil, bareFrom_line hraw]
        split
        · exact Nat.le_trans (htail shadowed) (Nat.le_add_left _ _)
        · have hrest : (raws.mapIdx fun n raw => TidyLine.ofRaw (flags (n + 1)) raw) ≠ [] := by
            simpa only [Ne, List.mapIdx_eq_nil_iff] using hnil
          rw [joinLines_cons (tidyLines_ne_nil hrest), bareFrom_line hfeed]
          refine Nat.add_le_add ?_ (htail _)
          cases hcarry : carry false raw with
          | false =>
              rw [if_pos rfl]
              split <;> omega
          | true => rw [if_neg (by rw [hreturn hcarry]; decide)]; exact Nat.zero_le _

/-- Tidying makes no line feed bare. -/
theorem bareFeeds_tidy_le (text : Text) (spans : List Span) :
    (tidy text spans).bareFeeds ≤ text.bareFeeds := by
  have hlines := bareFrom_tidyLines_le (touchesLine (.ofText text) spans) false
    (splitLines_ne_nil text) fun raw => not_mem_of_mem_splitLines
  rwa [joinLines_splitLines] at hlines

/-! ### Splicing -/

/-- The edit does not stop between a carriage return and its line feed. -/
def Edit.KeepsReturns (edit : Edit) (text : Text) : Prop :=
  ¬text.PartsReturn edit.span.stop

/-- The number of bare line feeds that the edits bring. -/
def Edit.feeds : List Edit → Nat
  | [] => 0
  | edit :: edits => edit.text.bareFeeds + feeds edits

namespace Edit

variable {edits more : List Edit}

theorem feeds_append (edits more : List Edit) :
    feeds (edits ++ more) = feeds edits + feeds more := by
  induction edits with
  | nil => exact (Nat.zero_add _).symm
  | cons edit edits ih => rw [List.cons_append, feeds, feeds, ih, Nat.add_assoc]

theorem feeds_eq_zero_iff : feeds edits = 0 ↔ ∀ edit ∈ edits, edit.text.bareFeeds = 0 := by
  induction edits with
  | nil => simp only [feeds, List.not_mem_nil, false_implies, implies_true]
  | cons edit edits ih => rw [feeds, Nat.add_eq_zero_iff, ih, List.forall_mem_cons]

/-- The order of the edits does not matter. -/
theorem feeds_of_perm (h : edits.Perm more) : feeds edits = feeds more := by
  induction h with
  | nil => rfl
  | cons edit _ ih => rw [feeds, feeds, ih]
  | swap a b edits => simp only [feeds]; omega
  | trans _ _ ih ih' => exact ih.trans ih'

end Edit

/-- A splice has no bare line feeds but those of the text and those that the
    edits bring, if no edit parts a return from its line feed. `returned` tells
    whether a return stands before what is spliced, in the new text. -/
theorem Edit.Splices.bareFrom_le {source rest new : Text} {edits : List Edit} (before : Text)
    {returned : Bool} (h : Splices (size before) rest edits new) (hsource : source = before ++ rest)
    (hkeeps : ∀ edit ∈ edits, edit.KeepsReturns source)
    (hreturned : rest.head? = some '\n' → carry false before = true → returned = true) :
    bareFrom returned new ≤ bareFrom (carry false before) rest + Edit.feeds edits := by
  generalize hcursor : size before = cursor at h
  induction h generalizing before returned with
  | nil => exact bareFrom_mono hreturned
  | @cons cursor start stop kept old rest new text edits hstart hstop tail ih =>
      have hwhole : source = before ++ kept ++ old ++ rest := by
        rw [hsource]
        simp only [List.append_assoc]
      have hsize : size (before ++ kept ++ old) = stop := by
        rw [size_append, size_append]
        omega
      -- Behind the edit no line feed has lost a return that stood in the source.
      have hparted : rest.head? = some '\n' → carry false (before ++ kept ++ old) = false := by
        refine carry_of_not_partsReturn ?_
        rw [← hwhole, hsize]
        exact hkeeps ⟨⟨start, stop⟩, text⟩ List.mem_cons_self
      have htail : bareFrom (carry returned (kept ++ text)) new ≤ _ :=
        ih (before ++ kept ++ old) hwhole
          (fun edit hedit => hkeeps edit (List.mem_cons_of_mem _ hedit))
          (fun hfeed hcarry => absurd ((hparted hfeed).symm.trans hcarry) Bool.false_ne_true) hsize
      have hkept : bareFrom returned kept ≤ bareFrom (carry false before) kept := by
        refine bareFrom_mono fun hfeed => hreturned ?_
        rw [List.append_assoc, List.head?_append, hfeed, Option.some_or]
      have htext : bareFrom (carry returned kept) text ≤ text.bareFeeds :=
        bareFrom_mono fun _ hfalse => absurd hfalse Bool.false_ne_true
      simp only [Edit.feeds, bareFrom_append, carry_append] at htail ⊢
      omega

/-! ### Batches -/

/-- A batch leaves no bare line feeds but those of the text and those that the
    fixes bring which it takes. -/
theorem Batch.bareFeeds_run_le {text : Text} {fixes : List Fix}
    (hfits : ∀ fix ∈ fixes, fix.Fits text)
    (hkeeps : ∀ fix ∈ fixes, ∀ edit ∈ fix.edits, edit.KeepsReturns text) :
    (run text fixes).1.bareFeeds
      ≤ text.bareFeeds + Edit.feeds ((accepted (verdicts {} fixes)).flatMap Fix.edits) := by
  obtain ⟨taken, htaken⟩ := collects_ofFixes hfits
  obtain ⟨spliced, touched, hspliced, hrun⟩ := run_eq htaken
  have hholds : (ofFixes fixes).Holds (accepted (verdicts {} fixes)) := holds_empty.foldl fixes
  have hfeeds : Edit.feeds (ofFixes fixes).edits
      = Edit.feeds ((accepted (verdicts {} fixes)).flatMap Fix.edits) := by
    rw [hholds.edits]
    exact Edit.feeds_of_perm (sortBy_perm Edit.precedes _)
  -- The splice adds no bare feed at a cut, since no edit parts a return from its feed.
  have hsplice : bareFrom false spliced ≤ bareFrom false text + _ :=
    hspliced.bareFrom_le [] rfl (fun edit hedit => by
      obtain ⟨fix, hfix, hmem⟩ := htaken.mem_edits.1 hedit
      exact hkeeps fix (htaken.sublist.subset hfix) edit hmem) fun _ hfalse => hfalse
  rw [hfeeds] at hsplice
  rw [hrun]
  exact Nat.le_trans (bareFeeds_tidy_le spliced touched) hsplice

end SharpLint

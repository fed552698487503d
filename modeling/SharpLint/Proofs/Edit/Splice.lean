import SharpLint.Edit.Fix
import SharpLint.Proofs.Text.Cut

/-!
# Splicing

What splicing edits into a text yields. The text is taken apart at the edits:
what stands between them is kept, the stretch of each edit is replaced. Edits
that come one after the other on cuts of the text always fit, and a text may be
cut anywhere between the edits, each part being spliced alone.

## Main definitions

* `Edit.Splices`: the text after edits that fit it.
* `Edit.landed`: where the new texts stand in it.
* `Edit.InChain`: edits that come one after the other.
* `Edit.Parted`: edits of which no two touch.
* `Edit.Apart`: edits that have no byte in common.
* `Edit.FitsIn`: an edit lies on cuts of a text.

## Theorems

* `Edit.inChain_inOrder`: Edits that are apart come one after the other once
  they are sorted.
* `Edit.spliceFrom_eq_some_iff`: The splice, told by what is kept and replaced.
* `Edit.exists_splices`: Edits in a chain that fit a text can be spliced in.
* `Edit.Splices.split`: A splice is cut where no edit crosses the cut.
* `Edit.Splices.around`: A stretch that no edit meets is kept.
* `Edit.Splices.exists_at`: Where the new text of one of the edits stands.
-/

namespace SharpLint

open Text

namespace Edit

/-! ### Edits in order -/

/-- Each edit begins where the edits before it have stopped. -/
def InChain (edits : List Edit) : Prop :=
  edits.Pairwise fun a b => a.span.stop ≤ b.span.start

/-- Something stands between any two of the edits. -/
def Parted (edits : List Edit) : Prop :=
  edits.Pairwise fun a b => a.span.stop < b.span.start

theorem Parted.inChain {edits : List Edit} (h : Parted edits) : InChain edits :=
  h.imp Nat.le_of_lt

/-- The edit goes forward, from one cut of the text to another. -/
structure FitsIn (text : Text) (edit : Edit) : Prop where
  forward : edit.span.start ≤ edit.span.stop
  startCut : text.CutsAt edit.span.start
  stopCut : text.CutsAt edit.span.stop

theorem inChain_of_overlapping {edits : List Edit} (h : overlapping edits = false)
    (hforward : ∀ edit ∈ edits, edit.span.start ≤ edit.span.stop) : InChain edits := by
  induction edits with
  | nil => exact List.Pairwise.nil
  | cons a edits ih =>
      cases edits with
      | nil => exact List.pairwise_singleton _ _
      | cons b rest =>
          rw [overlapping, Bool.or_eq_false_iff, decide_eq_false_iff_not] at h
          have hrest : InChain (b :: rest) :=
            ih h.2 fun edit hedit => hforward edit (List.mem_cons_of_mem _ hedit)
          have hab : a.span.stop ≤ b.span.start := Nat.le_of_not_lt h.1
          refine List.Pairwise.cons (fun edit hedit => ?_) hrest
          rcases List.mem_cons.1 hedit with rfl | hedit
          · exact hab
          · -- What comes after the next edit comes after that edit's stop.
            have hb := hforward b (List.mem_cons_of_mem _ List.mem_cons_self)
            have hlater := List.rel_of_pairwise_cons hrest hedit
            omega

theorem overlapping_of_inChain {edits : List Edit} (h : InChain edits) :
    overlapping edits = false := by
  induction edits with
  | nil => rfl
  | cons a edits ih =>
      cases edits with
      | nil => rfl
      | cons b rest =>
          have hab := List.rel_of_pairwise_cons h List.mem_cons_self
          rw [overlapping, ih h.tail, Bool.or_false, decide_eq_false_iff_not]
          exact Nat.not_lt_of_le hab

theorem precedes_of_chain {a b : Edit} (ha : a.span.start ≤ a.span.stop)
    (hb : b.span.start ≤ b.span.stop) (hab : a.span.stop ≤ b.span.start) :
    a.precedes b = true := by
  rw [precedes, Bool.or_eq_true, Bool.and_eq_true, decide_eq_true_eq, beq_iff_eq,
    decide_eq_true_eq]
  omega

theorem insertBy_eq_cons {α : Type} {le : α → α → Bool} {x : α} {xs : List α}
    (h : ∀ y ∈ xs, le x y = true) : insertBy le x xs = x :: xs := by
  cases xs with
  | nil => rfl
  | cons y ys => rw [insertBy, if_pos (h y List.mem_cons_self)]

/-- Sorting leaves what is sorted. -/
theorem sortBy_eq_self {α : Type} {le : α → α → Bool} {xs : List α}
    (h : xs.Pairwise fun a b => le a b = true) : sortBy le xs = xs := by
  induction xs with
  | nil => rfl
  | cons x xs ih =>
      rw [sortBy, ih h.tail]
      exact insertBy_eq_cons fun y hy => List.rel_of_pairwise_cons h hy

theorem inOrder_eq_self {edits : List Edit} (h : InChain edits)
    (hforward : ∀ edit ∈ edits, edit.span.start ≤ edit.span.stop) : inOrder edits = edits :=
  sortBy_eq_self (List.Pairwise.imp_of_mem
    (fun ha hb hab => precedes_of_chain (hforward _ ha) (hforward _ hb) hab) h)

/-! ### Edits apart -/

theorem pairwise_insertBy {α : Type} {le : α → α → Bool}
    (htotal : ∀ x y, le x y = true ∨ le y x = true)
    (htrans : ∀ x y z, le x y = true → le y z = true → le x z = true) (x : α) {xs : List α}
    (h : xs.Pairwise fun a b => le a b = true) :
    (insertBy le x xs).Pairwise fun a b => le a b = true := by
  induction xs with
  | nil => exact List.pairwise_singleton _ _
  | cons y ys ih =>
      rw [insertBy]
      split
      · next hxy =>
        refine List.Pairwise.cons (fun z hz => ?_) h
        rcases List.mem_cons.1 hz with rfl | hz
        · exact hxy
        · exact htrans x y z hxy (List.rel_of_pairwise_cons h hz)
      · next hxy =>
        refine List.Pairwise.cons (fun z hz => ?_) (ih h.tail)
        rcases List.mem_cons.1 ((insertBy_perm le x ys).mem_iff.1 hz) with rfl | hz
        · exact (htotal z y).resolve_left hxy
        · exact List.rel_of_pairwise_cons h hz

/-- Sorting sorts. -/
theorem pairwise_sortBy {α : Type} {le : α → α → Bool}
    (htotal : ∀ x y, le x y = true ∨ le y x = true)
    (htrans : ∀ x y z, le x y = true → le y z = true → le x z = true) (xs : List α) :
    (sortBy le xs).Pairwise fun a b => le a b = true := by
  induction xs with
  | nil => exact List.Pairwise.nil
  | cons x xs ih => exact pairwise_insertBy htotal htrans x ih

theorem precedes_iff {a b : Edit} :
    a.precedes b = true ↔ a.span.start < b.span.start
      ∨ a.span.start = b.span.start ∧ a.span.stop ≤ b.span.stop := by
  rw [precedes, Bool.or_eq_true, Bool.and_eq_true, decide_eq_true_eq, beq_iff_eq,
    decide_eq_true_eq]

theorem pairwise_inOrder (edits : List Edit) :
    (inOrder edits).Pairwise fun a b => a.precedes b = true := by
  refine pairwise_sortBy (fun a b => ?_) (fun a b c => ?_) edits
  · simp only [precedes_iff]
    omega
  · simp only [precedes_iff]
    omega

/-- No byte lies in both edits; they may touch. -/
def Apart (a b : Edit) : Prop :=
  a.span.stop ≤ b.span.start ∨ b.span.stop ≤ a.span.start

theorem Apart.symm {a b : Edit} (h : Apart a b) : Apart b a :=
  Or.symm h

/-- Edits that are apart come one after the other once they are sorted. -/
theorem inChain_inOrder {edits : List Edit} (hapart : edits.Pairwise Apart)
    (hforward : ∀ edit ∈ edits, edit.span.start ≤ edit.span.stop) : InChain (inOrder edits) := by
  have hperm : (inOrder edits).Perm edits := sortBy_perm precedes edits
  have hsorted := (pairwise_inOrder edits).and (hperm.symm.pairwise hapart Apart.symm)
  refine List.Pairwise.imp_of_mem (fun {a b} ha hb hab => ?_) hsorted
  -- An edit that comes first and lies behind is empty, at the place of the other.
  have haForward := hforward a (hperm.mem_iff.1 ha)
  have hbForward := hforward b (hperm.mem_iff.1 hb)
  rcases hab.2 with h | h <;> rcases precedes_iff.1 hab.1 with hle | hle <;> omega

/-! ### Splices -/

/-- The text after the edits, where each of them finds its place in the text
    from byte `cursor` on. -/
inductive Splices : Nat → Text → List Edit → Text → Prop
  | nil {cursor : Nat} {rest : Text} : Splices cursor rest [] rest
  | cons {cursor start stop : Nat} {kept old rest new text : Text} {edits : List Edit}
      (hstart : cursor + size kept = start) (hstop : start + size old = stop)
      (tail : Splices stop rest edits new) :
      Splices cursor (kept ++ old ++ rest) (⟨⟨start, stop⟩, text⟩ :: edits) (kept ++ text ++ new)

/-- Where the new texts stand, if the edits are made from byte `cursor` on and
    `out` bytes are written before. -/
def landed (cursor out : Nat) : List Edit → List Span
  | [] => []
  | edit :: edits =>
    let start := out + (edit.span.start - cursor)
    let stop := start + size edit.text
    ⟨start, stop⟩ :: landed edit.span.stop stop edits

/-- The splice, told by what is kept and what is replaced. -/
theorem spliceFrom_eq_some_iff {cursor out : Nat} {rest new : Text} {edits : List Edit}
    {touched : List Span} :
    spliceFrom cursor out rest edits = some (new, touched) ↔
      Splices cursor rest edits new ∧ touched = landed cursor out edits := by
  induction edits generalizing cursor out rest new touched with
  | nil =>
      simp only [spliceFrom, Option.some.injEq, Prod.mk.injEq, landed]
      constructor
      · rintro ⟨rfl, rfl⟩
        exact ⟨.nil, rfl⟩
      · rintro ⟨h, rfl⟩
        cases h
        exact ⟨rfl, rfl⟩
  | cons edit edits ih =>
      obtain ⟨⟨start, stop⟩, text⟩ := edit
      simp only [spliceFrom, landed]
      constructor
      · -- The text before the edit is kept, the next is replaced, and the rest is spliced.
        intro h
        split at h
        rotate_left
        · exact absurd h (by simp only [reduceCtorEq, not_false_eq_true])
        next hle =>
        split at h
        · exact absurd h (by simp only [reduceCtorEq, not_false_eq_true])
        next kept old hkept =>
        split at h
        · exact absurd h (by simp only [reduceCtorEq, not_false_eq_true])
        next old' rest' hold =>
        obtain ⟨⟨new', touched'⟩, htail, heq⟩ := Option.map_eq_some_iff.1 h
        obtain ⟨hsplices, rfl⟩ := ih.1 htail
        rw [Prod.mk.injEq] at heq
        have hkeptSize := size_of_splitAt? hkept
        have holdSize := size_of_splitAt? hold
        rw [← append_of_splitAt? hkept, ← append_of_splitAt? hold, ← List.append_assoc, ← heq.1,
          ← heq.2, hkeptSize]
        exact ⟨.cons (by omega) (by omega) hsplices, rfl⟩
      · rintro ⟨h, rfl⟩
        cases h with
        | @cons _ _ _ kept old rest new' _ _ hstart hstop tail =>
            rw [if_pos ⟨by omega, by omega⟩, show start - cursor = size kept by omega,
              List.append_assoc, splitAt?_append]
            simp only
            rw [show stop - start = size old by omega, splitAt?_append]
            simp only
            rw [ih.2 ⟨tail, rfl⟩, Option.map_some]

/-- Edits in a chain that fit a text can be spliced into what is left of it. -/
theorem exists_splices (before rest : Text) {edits : List Edit} (hchain : InChain edits)
    (hfits : ∀ edit ∈ edits, edit.FitsIn (before ++ rest))
    (hfrom : ∀ edit ∈ edits, size before ≤ edit.span.start) :
    ∃ new, Splices (size before) rest edits new := by
  induction edits generalizing before rest with
  | nil => exact ⟨rest, .nil⟩
  | cons edit edits ih =>
      obtain ⟨⟨start, stop⟩, text⟩ := edit
      have hfit := hfits _ List.mem_cons_self
      obtain ⟨a, old, b, hsource, hstart, hstop⟩ := hfit.startCut.split hfit.stopCut hfit.forward
      have hle : size before ≤ start := hfrom _ List.mem_cons_self
      -- The cut is not before the cursor, so the part before it ends with what is kept.
      change size a = start at hstart
      rw [List.append_assoc] at hsource
      obtain ⟨kept, rfl, rfl⟩ := exists_append_of_size_le hsource (hstart.symm ▸ hle)
      change size (before ++ kept) + size old = stop at hstop
      rw [hstart] at hstop
      rw [size_append] at hstart
      have hsize : size (before ++ kept ++ old) = stop := by
        rw [size_append, size_append]
        omega
      have hwhole : before ++ kept ++ old ++ b = before ++ (kept ++ (old ++ b)) := by
        simp only [List.append_assoc]
      obtain ⟨new, hnew⟩ := ih (before ++ kept ++ old) b hchain.tail
        (fun edit hedit => hwhole ▸ hfits edit (List.mem_cons_of_mem _ hedit))
        (fun edit hedit => hsize ▸ List.rel_of_pairwise_cons hchain hedit)
      rw [hsize] at hnew
      rw [← List.append_assoc]
      exact ⟨kept ++ text ++ new, .cons hstart hstop hnew⟩

namespace Splices

variable {cursor : Nat} {text new x y X Y : Text} {edits more : List Edit}

/-- Edits that can be spliced go forward from the cursor. -/
theorem forward (h : Splices cursor text edits new) {edit : Edit} (hedit : edit ∈ edits) :
    cursor ≤ edit.span.start ∧ edit.span.start ≤ edit.span.stop
      ∧ edit.span.stop ≤ cursor + size text := by
  induction h with
  | nil => exact absurd hedit List.not_mem_nil
  | cons hstart hstop tail ih =>
      rw [size_append, size_append]
      rcases List.mem_cons.1 hedit with rfl | hedit
      · simp only
        omega
      · have := ih hedit
        omega

/-- Edits that can be spliced come one after the other. -/
theorem inChain (h : Splices cursor text edits new) : InChain edits := by
  induction h with
  | nil => exact List.Pairwise.nil
  | cons hstart hstop tail ih => exact List.Pairwise.cons (fun edit hedit => (tail.forward hedit).1) ih

/-- Edits that can be spliced are spliced. -/
theorem splice?_eq (h : Splices 0 text edits new) :
    splice? text edits = some (new, landed 0 0 edits) := by
  rw [splice?, inOrder_eq_self h.inChain fun edit hedit => (h.forward hedit).2.1]
  exact spliceFrom_eq_some_iff.2 ⟨h, rfl⟩

/-- There is one text after the edits. -/
theorem unique (h : Splices cursor text edits X) (h' : Splices cursor text edits Y) : X = Y := by
  have hX : spliceFrom cursor 0 text edits = some (X, _) := spliceFrom_eq_some_iff.2 ⟨h, rfl⟩
  have hY : spliceFrom cursor 0 text edits = some (Y, _) := spliceFrom_eq_some_iff.2 ⟨h', rfl⟩
  rw [hX] at hY
  exact (Prod.mk.inj (Option.some.inj hY)).1

/-- What stands before all edits is kept. -/
theorem keep (h : Splices (cursor + size x) y edits Y) : Splices cursor (x ++ y) edits (x ++ Y) := by
  cases h with
  | nil => exact .nil
  | @cons _ start stop kept old rest new text edits hstart hstop tail =>
      rw [← List.append_assoc, ← List.append_assoc, ← List.append_assoc, ← List.append_assoc]
      exact .cons (by rw [size_append]; omega) hstop tail

/-- What is kept before all edits stands before the new text. -/
theorem unkeep (h : Splices cursor (x ++ y) edits new)
    (hfrom : ∀ edit ∈ edits, cursor + size x ≤ edit.span.start) :
    ∃ Y, new = x ++ Y ∧ Splices (cursor + size x) y edits Y := by
  generalize hxy : x ++ y = text at h
  cases h with
  | nil => exact ⟨y, hxy.symm, .nil⟩
  | @cons _ start stop kept old rest new text edits hstart hstop tail =>
      have hle : cursor + size x ≤ start := hfrom _ List.mem_cons_self
      rw [List.append_assoc] at hxy
      -- The stretch before the first edit begins with what is kept.
      obtain ⟨m, rfl, rfl⟩ := exists_append_of_size_le hxy (by omega)
      rw [size_append] at hstart
      refine ⟨m ++ text ++ new, by simp only [List.append_assoc], ?_⟩
      rw [← List.append_assoc]
      exact .cons (by omega) hstop tail

/-- A splice is cut where no edit crosses the cut: the edits that stop up to
    there, and the others. -/
theorem split (h : Splices cursor (x ++ y) edits new)
    (hcut : ∀ edit ∈ edits, edit.span.stop ≤ cursor + size x ∨ cursor + size x ≤ edit.span.start) :
    ∃ before after X Y, edits = before ++ after ∧ new = X ++ Y ∧ Splices cursor x before X
      ∧ Splices (cursor + size x) y after Y
      ∧ ∀ edit ∈ after, cursor + size x ≤ edit.span.start ∧ cursor + size x < edit.span.stop := by
  generalize hxy : x ++ y = text at h
  induction h generalizing x with
  | nil => exact ⟨[], [], x, y, rfl, hxy.symm, .nil, .nil, fun _ hmem => absurd hmem List.not_mem_nil⟩
  | @cons cursor start stop kept old rest new text edits hstart hstop tail ih =>
      by_cases hle : stop ≤ cursor + size x
      · -- The first edit stops before the cut, so the cut lies behind it.
        obtain ⟨m, rfl, rfl⟩ := exists_append_of_size_le hxy.symm (by rw [size_append]; omega)
        have hcursor : cursor + size (kept ++ old ++ m) = stop + size m := by
          rw [size_append, size_append]
          omega
        rw [hcursor] at hcut ⊢
        obtain ⟨before, after, X, Y, rfl, rfl, hbefore, hafter, hbehind⟩ :=
          ih (fun edit hedit => hcut edit (List.mem_cons_of_mem _ hedit)) rfl
        exact ⟨_ :: before, after, kept ++ text ++ X, Y, rfl, by rw [List.append_assoc _ X],
          .cons hstart hstop hbefore, hafter, hbehind⟩
      · have hstart' : cursor + size x ≤ start := (hcut _ List.mem_cons_self).resolve_left hle
        have hwhole : Splices cursor (x ++ y) (⟨⟨start, stop⟩, text⟩ :: edits)
            (kept ++ text ++ new) := by
          rw [hxy]
          exact .cons hstart hstop tail
        have hbehind : ∀ edit ∈ (⟨⟨start, stop⟩, text⟩ : Edit) :: edits,
            cursor + size x ≤ edit.span.start ∧ cursor + size x < edit.span.stop := by
          intro edit hedit
          rcases List.mem_cons.1 hedit with rfl | hedit
          · exact ⟨hstart', Nat.lt_of_not_le hle⟩
          · have := tail.forward hedit
            omega
        obtain ⟨Y, hY, hsplices⟩ := hwhole.unkeep fun edit hedit => (hbehind edit hedit).1
        exact ⟨[], _, x, Y, rfl, hY, .nil, hsplices, hbehind⟩

/-- A stretch that no edit meets is kept, between what the edits before it and
    those behind it yield. -/
theorem around {t : Text} (h : Splices cursor (x ++ t ++ y) edits new)
    (hapart : ∀ edit ∈ edits, edit.span.stop ≤ cursor + size x
      ∨ cursor + size (x ++ t) ≤ edit.span.start) :
    ∃ before after X Y, edits = before ++ after ∧ new = X ++ t ++ Y ∧ Splices cursor x before X
      ∧ Splices (cursor + size (x ++ t)) y after Y := by
  rw [List.append_assoc] at h
  rw [size_append] at hapart ⊢
  obtain ⟨before, after, X, Y, rfl, rfl, hbefore, hafter, hbehind⟩ := h.split fun edit hedit =>
    (hapart edit hedit).imp_right fun hle => by omega
  -- The edits behind the stretch leave it alone, so it is kept at the front of what they yield.
  obtain ⟨Z, rfl, hZ⟩ := hafter.unkeep fun edit hedit => by
    have := hbehind edit hedit
    rcases hapart edit (List.mem_append_right _ hedit) with hle | hle <;> omega
  refine ⟨before, after, X, Z, rfl, by rw [List.append_assoc], hbefore, ?_⟩
  rwa [← Nat.add_assoc]

/-- What one of the edits puts into its place stands between what the edits
    before it yield and what those behind it do. -/
theorem exists_at {first last : List Edit} {edit : Edit}
    (h : Splices cursor text (first ++ edit :: last) new) :
    ∃ a old b A B, text = a ++ old ++ b ∧ new = A ++ edit.text ++ B
      ∧ cursor + size a = edit.span.start ∧ edit.span.start + size old = edit.span.stop
      ∧ Splices cursor a first A ∧ Splices edit.span.stop b last B := by
  induction first generalizing cursor text new with
  | nil =>
      cases h with
      | @cons _ _ _ kept old rest new _ _ hstart hstop tail =>
          exact ⟨kept, old, rest, kept, new, rfl, rfl, hstart, hstop, .nil, tail⟩
  | cons before first ih =>
      cases h with
      | @cons _ _ stop kept gone rest new put _ hstart hstop tail =>
          obtain ⟨a, old, b, A, B, rfl, rfl, ha, hold, hfirst, hlast⟩ := ih tail
          refine ⟨kept ++ gone ++ a, old, b, kept ++ put ++ A, B, ?_, ?_, ?_, hold,
            .cons hstart hstop hfirst, hlast⟩
          · simp only [List.append_assoc]
          · simp only [List.append_assoc]
          · rw [size_append, size_append]
            omega

end Splices

end Edit

end SharpLint

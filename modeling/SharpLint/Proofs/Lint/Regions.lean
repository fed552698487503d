import SharpLint.Lint.RemoveField
import SharpLint.Proofs.Syntax.Place
import SharpLint.Proofs.Text.Breaks

/-!
# What Removals Reach

How far the spans reach that take a statement, a member or the items of a list
out of a source. A *piece* is a node that begins and ends with ink and holds no
member, such as a token. Around a statement or a member a removal reaches over
blanks and comments only, so a piece that it meets belongs to what is removed;
in a list it begins and ends between the nodes of the list.

## Main definitions

* `Document.Piece`: a node that no removal cuts in two.
* `Document.Border`: an offset that cuts no child of a node in two.

## Theorems

* `mem_removalsFromList`: The removals from a list, case by case.
* `removed_of_within`: An item in a removal from its list is removed.
* `exists_removal`: An item that is removed lies in a removal from its list.
* `statementRemoval_spec`: What surrounds a removed statement is blank.
* `Document.Piece.of_statementRemoval`: A piece in the removal of a statement
  belongs to the statement.
* `Document.Piece.of_memberRemoval`: A piece in the removal of a member belongs
  to the member.
* `Document.Piece.of_borders`: A piece in a stretch of a list belongs to a child
  of the list there.
-/

namespace SharpLint

/-! ### Lists -/

theorem pairwise_zipIdx {α : Type} (items : List α) (n : Nat) :
    (items.zipIdx n).Pairwise fun a b => a.2 < b.2 := by
  induction items generalizing n with
  | nil => exact List.Pairwise.nil
  | cons item items ih =>
      rw [List.zipIdx_cons]
      refine List.Pairwise.cons (fun entry hentry => ?_) (ih (n + 1))
      exact Nat.lt_of_lt_of_le (Nat.lt_succ_self n) (List.le_snd_of_mem_zipIdx hentry)

/-- The last item that is kept, and what is behind it. -/
theorem lastKept?_spec (removed : List Bool) :
    match lastKept? removed with
    | none => ∀ n : Nat, removed[n]? ≠ some false
    | some kept => removed[kept]? = some false ∧ ∀ n, kept < n → removed[n]? ≠ some false := by
  have hmem {n : Nat} (hn : removed[n]? = some false) :
      (false, n) ∈ removed.zipIdx.filter fun item => !item.1 := by
    refine List.mem_filter.2 ⟨List.mem_zipIdx_iff_getElem?.2 hn, rfl⟩
  cases hlast : (removed.zipIdx.filter fun item => !item.1).getLast? with
  | none =>
      rw [lastKept?, hlast]
      intro n hn
      rw [List.getLast?_eq_none_iff] at hlast
      exact absurd (hlast ▸ hmem hn) List.not_mem_nil
  | some entry =>
      obtain ⟨flag, kept⟩ := entry
      rw [lastKept?, hlast]
      have hentry := List.mem_filter.1 (List.mem_of_getLast? hlast)
      have hflag : flag = false := by simpa only [Bool.not_eq_true'] using hentry.2
      subst hflag
      refine ⟨List.mem_zipIdx_iff_getElem?.1 hentry.1, fun n hlt hn => ?_⟩
      -- Entries come in the order of their numbers, so a later one is not last.
      obtain ⟨before, heq⟩ := List.getLast?_eq_some_iff.1 hlast
      have hpairs := (pairwise_zipIdx removed 0).filter fun item => !item.1
      rw [heq, List.pairwise_append] at hpairs
      have hn := hmem hn
      rw [heq, List.mem_append, List.mem_singleton] at hn
      rcases hn with hn | hn
      · have hle := hpairs.2.2 _ hn _ List.mem_cons_self
        simp only at hle
        omega
      · simp only [Prod.mk.injEq, true_and] at hn
        omega

theorem mem_leadingRemovals {entries : List (Span × Bool)} {span : Span}
    (h : span ∈ leadingRemovals entries) :
    ∃ (n : Nat) (item next : Span) (flag : Bool), entries[n]? = some (item, true)
      ∧ entries[n + 1]? = some (next, flag) ∧ span = ⟨item.start, next.start⟩ := by
  induction entries with
  | nil => exact absurd h List.not_mem_nil
  | cons entry entries ih =>
      obtain ⟨item, flag⟩ := entry
      cases entries with
      | nil => exact absurd h List.not_mem_nil
      | cons entry' entries =>
          obtain ⟨next, flag'⟩ := entry'
          -- A removal behind the first entry is one of the rest.
          have hfurther (h : span ∈ leadingRemovals ((next, flag') :: entries)) :
              ∃ (n : Nat) (item' next' : Span) (flag'' : Bool),
                ((item, flag) :: (next, flag') :: entries)[n]? = some (item', true)
                ∧ ((item, flag) :: (next, flag') :: entries)[n + 1]? = some (next', flag'')
                ∧ span = ⟨item'.start, next'.start⟩ := by
            obtain ⟨n, item', next', flag'', hitem, hnext, hspan⟩ := ih h
            exact ⟨n + 1, item', next', flag'', hitem, hnext, hspan⟩
          simp only [leadingRemovals] at h
          split at h
          · next hflag =>
            rcases List.mem_cons.1 h with rfl | h
            · exact ⟨0, item, next, flag', by rw [List.getElem?_cons_zero, hflag], rfl, rfl⟩
            · exact hfurther h
          · exact hfurther h

/-- The removals from a list: from a removed item to the next one, behind the
    last item that is kept, or all of the list. -/
theorem mem_removalsFromList {items : List Span} {removed : List Bool} {span : Span}
    (h : span ∈ removalsFromList items removed) :
    (∃ (n : Nat) (item next : Span), items[n]? = some item ∧ items[n + 1]? = some next
      ∧ removed[n]? = some true ∧ span = ⟨item.start, next.start⟩)
    ∨ (∃ (kept : Nat) (item last : Span), items[kept]? = some item ∧ items.getLast? = some last
      ∧ kept + 1 < items.length ∧ removed[kept]? = some false
      ∧ (∀ n, kept < n → removed[n]? ≠ some false) ∧ span = ⟨item.stop, last.stop⟩)
    ∨ ∃ first last : Span, items.head? = some first ∧ items.getLast? = some last
      ∧ (∀ n : Nat, removed[n]? ≠ some false) ∧ span = ⟨first.start, last.stop⟩ := by
  have hkept := lastKept?_spec removed
  -- All items go, or the last that is kept splits those before from those behind.
  unfold removalsFromList at h
  split at h
  · split at h
    · next first last hnone hfirst hlast =>
      rw [hnone] at hkept
      exact .inr (.inr ⟨first, last, hfirst, hlast, hkept, List.mem_singleton.1 h⟩)
    · next _ kept last hsome hlast =>
      rw [hsome] at hkept
      have hleading (h : span ∈ leadingRemovals ((items.zip removed).take (kept + 1))) :
          ∃ (n : Nat) (item next : Span), items[n]? = some item ∧ items[n + 1]? = some next
            ∧ removed[n]? = some true ∧ span = ⟨item.start, next.start⟩ := by
        obtain ⟨n, item, next, flag, hitem, hnext, hspan⟩ := mem_leadingRemovals h
        have hzip {m : Nat} {entry : Span × Bool}
            (hm : ((items.zip removed).take (kept + 1))[m]? = some entry) :
            items[m]? = some entry.1 ∧ removed[m]? = some entry.2 := by
          rw [List.getElem?_take] at hm
          split at hm
          · exact List.getElem?_zip_eq_some.1 hm
          · exact absurd hm (by simp only [reduceCtorEq, not_false_eq_true])
        exact ⟨n, item, next, (hzip hitem).1, (hzip hnext).1, (hzip hitem).2, hspan⟩
      simp only at h
      split at h
      · next item hitem =>
        split at h
        · next hlt =>
          rcases List.mem_append.1 h with h | h
          · exact .inl (hleading h)
          · exact .inr (.inl ⟨kept, item, last, hitem, hlast, hlt, hkept.1, hkept.2,
              List.mem_singleton.1 h⟩)
        · exact .inl (hleading h)
      · exact .inl (hleading h)
    · exact absurd h List.not_mem_nil
  · exact absurd h List.not_mem_nil

/-- Of two items at different positions, the pairs tell how they stand. -/
theorem rel_of_getElem? {α : Type} {r : α → α → Prop} {items : List α} (hpairs : items.Pairwise r)
    {m n : Nat} {a b : α} (ha : items[m]? = some a) (hb : items[n]? = some b) (hmn : m < n) :
    r a b := by
  obtain ⟨hm, rfl⟩ := List.getElem?_eq_some_iff.1 ha
  obtain ⟨hn, rfl⟩ := List.getElem?_eq_some_iff.1 hb
  exact List.pairwise_iff_getElem.1 hpairs m n hm hn hmn

/-- An item that lies in a removal from its list is one of those removed. -/
theorem removed_of_within {items : List Span} {removed : List Bool}
    (hlength : removed.length = items.length) (hproper : ∀ item ∈ items, item.start < item.stop)
    (hpairs : items.Pairwise fun a b => a.stop ≤ b.start) {span item : Span} {n : Nat}
    (hspan : span ∈ removalsFromList items removed) (hitem : items[n]? = some item)
    (hwithin : item.within span = true) : removed[n]? = some true := by
  have horder {i j : Nat} {a b : Span} (ha : items[i]? = some a) (hb : items[j]? = some b)
      (hij : i < j) : a.stop ≤ b.start :=
    rel_of_getElem? hpairs ha hb hij
  have hitemProper := hproper item (List.mem_of_getElem? hitem)
  obtain ⟨flag, hflag⟩ : ∃ flag, removed[n]? = some flag := by
    obtain ⟨hn, -⟩ := List.getElem?_eq_some_iff.1 hitem
    exact ⟨removed[n], List.getElem?_eq_getElem (hlength ▸ hn)⟩
  have hunkept (h : removed[n]? ≠ some false) : removed[n]? = some true := by
    cases flag with
    | true => exact hflag
    | false => exact absurd hflag h
  rw [Span.within_iff] at hwithin
  rcases mem_removalsFromList hspan with ⟨m, first, next, hfirst, hnext, hremoved, rfl⟩
    | ⟨kept, first, last, hfirst, -, -, -, hbehind, rfl⟩ | ⟨-, -, -, -, hall, rfl⟩
  · -- From one item to the next, only the first of the two lies within.
    have hfirstProper := hproper first (List.mem_of_getElem? hfirst)
    simp only at hwithin
    rcases Nat.lt_trichotomy n m with hlt | rfl | hlt
    · have := horder hitem hfirst hlt
      omega
    · exact hremoved
    · rcases Nat.eq_or_lt_of_le (Nat.succ_le_of_lt hlt) with rfl | hlt
      · rw [hnext, Option.some.injEq] at hitem
        subst hitem
        omega
      · have := horder hnext hitem hlt
        have := hproper next (List.mem_of_getElem? hnext)
        omega
  · -- Behind the last that is kept all items go, and those up to it do not lie within.
    have hfirstProper := hproper first (List.mem_of_getElem? hfirst)
    simp only at hwithin
    refine hunkept (hbehind n (Nat.lt_of_not_le fun hle => ?_))
    rcases Nat.eq_or_lt_of_le hle with rfl | hlt
    · rw [hfirst, Option.some.injEq] at hitem
      subst hitem
      omega
    · have := horder hitem hfirst hlt
      omega
  · exact hunkept (hall n)

/-- An item that goes before another goes up to that one. -/
theorem mem_leadingRemovals_of_flagged {entries : List (Span × Bool)} {n : Nat} {item next : Span}
    {flag : Bool} (hitem : entries[n]? = some (item, true))
    (hnext : entries[n + 1]? = some (next, flag)) :
    ⟨item.start, next.start⟩ ∈ leadingRemovals entries := by
  induction entries generalizing n with
  | nil => exact absurd hitem (by simp only [List.getElem?_nil, reduceCtorEq, not_false_eq_true])
  | cons entry entries ih =>
      obtain ⟨first, flag'⟩ := entry
      cases entries with
      | nil => exact absurd hnext (by
          simp only [List.getElem?_cons_succ, List.getElem?_nil, reduceCtorEq, not_false_eq_true])
      | cons entry' entries =>
          obtain ⟨second, flag''⟩ := entry'
          rw [leadingRemovals]
          -- On the entries: the item is the first of them, or comes later.
          cases n with
          | zero =>
              simp only [List.getElem?_cons_zero, List.getElem?_cons_succ, Option.some.injEq,
                Prod.mk.injEq, Nat.zero_add] at hitem hnext
              obtain ⟨rfl, rfl⟩ := hitem
              rw [if_pos rfl, hnext.1]
              exact List.mem_cons_self
          | succ n =>
              rw [List.getElem?_cons_succ] at hitem hnext
              have hmem := ih hitem hnext
              split
              · exact List.mem_cons_of_mem _ hmem
              · exact hmem

/-- An item that is flagged and stands before the last that is kept goes up to
    the item behind it. -/
theorem exists_leadingRemoval {items : List Span} {removed : List Bool}
    (hlength : removed.length = items.length)
    (hpairs : items.Pairwise fun a b => a.stop ≤ b.start) {item : Span} {n kept : Nat}
    (hitem : items[n]? = some item) (hflag : removed[n]? = some true) (hlt : n < kept)
    (hkept : kept < items.length) :
    ∃ span ∈ leadingRemovals ((items.zip removed).take (kept + 1)), item.within span = true := by
  have hnext : items[n + 1]? = some items[n + 1] := List.getElem?_eq_getElem (by omega)
  obtain ⟨flag, hnextFlag⟩ : ∃ flag, removed[n + 1]? = some flag :=
    ⟨_, List.getElem?_eq_getElem (show n + 1 < removed.length by omega)⟩
  have htake {m : Nat} {entry : Span × Bool} (hm : m < kept + 1)
      (hentry : items[m]? = some entry.1) (hentryFlag : removed[m]? = some entry.2) :
      ((items.zip removed).take (kept + 1))[m]? = some entry := by
    rw [List.getElem?_take, if_pos hm]
    exact List.getElem?_zip_eq_some.2 ⟨hentry, hentryFlag⟩
  exact ⟨⟨item.start, items[n + 1].start⟩,
    mem_leadingRemovals_of_flagged (htake (by omega) hitem hflag) (htake (by omega) hnext hnextFlag),
    Span.within_iff.2 ⟨Nat.le_refl _, rel_of_getElem? hpairs hitem hnext (Nat.lt_succ_self n)⟩⟩

/-- An item that is flagged lies in a removal from its list. -/
theorem exists_removal {items : List Span} {removed : List Bool}
    (hlength : removed.length = items.length) (hproper : ∀ item ∈ items, item.start ≤ item.stop)
    (hpairs : items.Pairwise fun a b => a.stop ≤ b.start) {item : Span} {n : Nat}
    (hitem : items[n]? = some item) (hflag : removed[n]? = some true) :
    ∃ span ∈ removalsFromList items removed, item.within span = true := by
  obtain ⟨hn, -⟩ := List.getElem?_eq_some_iff.1 hitem
  have hle {i j : Nat} {a b : Span} (ha : items[i]? = some a) (hb : items[j]? = some b)
      (hij : i ≤ j) : a.start ≤ b.start ∧ a.stop ≤ b.stop := by
    rcases Nat.eq_or_lt_of_le hij with rfl | hlt
    · rw [ha, Option.some.injEq] at hb
      rw [hb]
      exact ⟨Nat.le_refl _, Nat.le_refl _⟩
    · have horder := rel_of_getElem? hpairs ha hb hlt
      have haProper := hproper a (List.mem_of_getElem? ha)
      have hbProper := hproper b (List.mem_of_getElem? hb)
      omega
  have hany : removed.any id = true :=
    List.any_eq_true.2 ⟨true, List.mem_of_getElem? hflag, rfl⟩
  -- The first item and the last stand around all others.
  have hfirst : items[0]? = some items[0] := List.getElem?_eq_getElem (by omega)
  have hlast : items[items.length - 1]? = some items[items.length - 1] :=
    List.getElem?_eq_getElem (by omega)
  have hfirstLe := hle hfirst hitem (Nat.zero_le n)
  have hlastLe := hle hitem hlast (by omega)
  have hkept := lastKept?_spec removed
  simp only [removalsFromList, if_pos hany, List.head?_eq_getElem?, List.getLast?_eq_getElem?,
    hfirst, hlast]
  cases hsome : lastKept? removed with
  | none => exact ⟨_, List.mem_singleton.2 rfl, Span.within_iff.2 ⟨hfirstLe.1, hlastLe.2⟩⟩
  | some kept =>
      rw [hsome] at hkept
      obtain ⟨hkeptFlag, -⟩ := hkept
      have hkeptLt : kept < items.length := by
        obtain ⟨hlt, -⟩ := List.getElem?_eq_some_iff.1 hkeptFlag
        omega
      have hkeptItem := List.getElem?_eq_getElem hkeptLt
      simp only [hkeptItem]
      -- The item is before the last that is kept or behind it.
      rcases Nat.lt_trichotomy n kept with hlt | rfl | hlt
      · obtain ⟨span, hspan, hwithin⟩ :=
          exists_leadingRemoval hlength hpairs hitem hflag hlt hkeptLt
        refine ⟨span, ?_, hwithin⟩
        split
        · exact List.mem_append_left _ hspan
        · exact hspan
      · rw [hkeptFlag, Option.some.injEq] at hflag
        exact absurd hflag Bool.false_ne_true
      · rw [if_pos (by omega)]
        exact ⟨_, List.mem_append_right _ (List.mem_singleton.2 rfl),
          Span.within_iff.2 ⟨rel_of_getElem? hpairs hkeptItem hitem hlt, hlastLe.2⟩⟩

/-! ### Statements -/

open Text Place

/-- The source around a node: what stands before its lines, the start of the
    first of them, the node, and the rest of the last. -/
structure Document.Surrounds (document : Document) (node : Place)
    (before lead mid line after : Text) : Prop where
  source : document.source = before ++ lead ++ mid ++ line ++ after
  start : size (before ++ lead) = node.start
  stop : size (before ++ lead ++ mid) = node.stop
  lead : '\n' ∉ lead
  line : '\n' ∉ line
  atLineStart : AtLineStart before
  breaksOff : BreaksOff after

theorem Document.Has.exists_surrounds {document : Document} {node : Place}
    (hnode : document.Has node) (hsound : document.Sound) :
    ∃ before lead mid line after, document.Surrounds node before lead mid line after := by
  obtain ⟨a, mid, b, hsource, hstart, hstop⟩ :=
    (hnode.laidOut hsound).startCut.split (hnode.laidOut hsound).stopCut
      (hnode.laidOut hsound).proper
  obtain ⟨before, lead, rfl, hlead, hbefore⟩ := exists_lastLine a
  obtain ⟨line, after, rfl, hline, hafter⟩ := exists_firstLine b
  refine ⟨before, lead, mid, line, after, ?_, hstart, ?_, hlead, hline, hbefore, hafter⟩
  · rw [hsource, ← List.append_assoc]
  · rw [size_append]
    exact hstop

namespace Document.Surrounds

variable {document : Document} {node : Place} {before lead mid line after : Text}

theorem lineStart (h : document.Surrounds node before lead mid line after)
    (hsound : document.Sound) :
    document.lines.start (document.lines.line node.start) = size before := by
  rw [hsound.lines, h.source, ← h.start, List.append_assoc, List.append_assoc (before ++ lead),
    LineTable.line_cut]
  exact LineTable.start_cut _ h.lead h.atLineStart

theorem lastLine (h : document.Surrounds node before lead mid line after)
    (hsound : document.Sound) :
    document.lines.line node.stop = (before ++ lead ++ mid).count '\n' := by
  rw [hsound.lines, h.source, ← h.stop, List.append_assoc (before ++ lead ++ mid)]
  exact LineTable.line_cut _ _

theorem holds_lead (h : document.Surrounds node before lead mid line after) :
    document.source.HoldsAt (size before) lead := by
  refine ⟨before, mid ++ line ++ after, ?_, rfl⟩
  rw [h.source]
  simp only [List.append_assoc]

theorem slice_lead (h : document.Surrounds node before lead mid line after) :
    document.source.slice? ⟨size before, node.start⟩ = some lead := by
  rw [← h.start, size_append]
  exact h.holds_lead.slice?

/-- The line behind the last one of the node starts behind the line feed, if
    there is one. -/
theorem start_nextLine (h : document.Surrounds node before lead mid line after)
    (hsound : document.Sound) :
    document.lines.start (document.lines.line node.stop + 1)
      = size (before ++ lead ++ mid ++ line ++ after.take 1) := by
  rw [h.lastLine hsound, hsound.lines, h.source]
  rcases h.breaksOff with rfl | ⟨more, rfl⟩
  · rw [List.take_nil, List.append_nil, LineTable.start_end h.line]
  · rw [LineTable.start_next more h.line, size_append _ (List.take 1 _)]
    rfl

/-- The text behind the node on its last line is read but for a carriage
    return, which is blank. -/
theorem slice_line (h : document.Surrounds node before lead mid line after)
    (hsound : document.Sound) :
    ∃ tail, line = document.source.slice ⟨node.stop, (document.source.lineRange document.lines
        (document.lines.line node.stop)).stop⟩ ++ tail ∧ tail.isBlank = true := by
  obtain ⟨before', lead', hmid, hlead', hbefore'⟩ := exists_lastLine (before ++ lead ++ mid)
  obtain ⟨tail, htail, hblank⟩ := slice_lineRange_cut hlead' h.line hbefore' h.breaksOff
  rw [← hmid, ← h.source, ← hsound.lines, h.stop, ← h.lastLine hsound] at htail
  exact ⟨tail, htail, hblank⟩

/-- The removal of a statement, told by the text around it: what stands on its
    lines with their line feed, if that is blank, and else the statement with
    the padding behind it. -/
theorem statementRemoval_cases (h : document.Surrounds node before lead mid line after)
    (hsound : document.Sound) :
    (lead.isBlank = true ∧ line.isBlank = true ∧ statementRemoval document node
        = ⟨size before, size (before ++ lead ++ mid ++ line ++ after.take 1)⟩)
      ∨ ∃ padding rest, line = padding ++ rest ∧ (∀ c ∈ padding, isPadding c = true)
        ∧ statementRemoval document node = ⟨node.start, node.stop + size padding⟩ := by
  obtain ⟨tail, htail, hblankTail⟩ := h.slice_line hsound
  unfold statementRemoval
  simp only [h.lineStart hsound, slice_eq_of_slice? h.slice_lead, h.start_nextLine hsound]
  split
  · next hblank =>
    rw [Bool.and_eq_true] at hblank
    refine .inl ⟨hblank.1, ?_, rfl⟩
    rw [htail, isBlank, List.all_append, Bool.and_eq_true]
    exact ⟨hblank.2, hblankTail⟩
  · generalize document.source.slice ⟨node.stop, _⟩ = rest at htail
    refine .inr ⟨rest.takeWhile isPadding, rest.dropWhile isPadding ++ tail, ?_,
      List.all_eq_true.1 List.all_takeWhile, rfl⟩
    rw [htail, ← List.append_assoc, List.takeWhile_append_dropWhile]

/-- What stands behind the node holds a prefix of the rest of its line. -/
theorem holds_line (h : document.Surrounds node before lead mid line after) {padding rest : Text}
    (hline : line = padding ++ rest) : document.source.HoldsAt node.stop padding := by
  refine ⟨before ++ lead ++ mid, rest ++ after, ?_, h.stop⟩
  rw [h.source, hline]
  simp only [List.append_assoc]

end Document.Surrounds

theorem isBlank_of_padding {padding : Text} (h : ∀ c ∈ padding, isPadding c = true) :
    padding.isBlank = true := by
  refine List.all_eq_true.2 fun c hc => ?_
  have hpadding := h c hc
  rw [isPadding, Bool.or_eq_true, beq_iff_eq, beq_iff_eq] at hpadding
  rcases hpadding with rfl | rfl <;> decide

/-- What surrounds a removed statement is blank. -/
theorem statementRemoval_spec {document : Document} (hsound : document.Sound) {node : Place}
    (hnode : document.Has node) :
    document.source.BlankAt (statementRemoval document node).start node.start
      ∧ document.source.BlankAt node.stop (statementRemoval document node).stop := by
  obtain ⟨before, lead, mid, line, after, h⟩ := hnode.exists_surrounds hsound
  rcases h.statementRemoval_cases hsound with ⟨hlead, hline, heq⟩ | ⟨padding, rest, hline, hpadding, heq⟩
  all_goals rw [heq]
  · -- The break behind the lines is blank, too.
    have hbreak : isBlank (after.take 1) = true := by
      rcases h.breaksOff with rfl | ⟨more, rfl⟩ <;> rfl
    refine ⟨⟨lead, h.holds_lead, (size_append before lead).symm.trans h.start, hlead⟩,
      line ++ after.take 1, ⟨before ++ lead ++ mid, after.drop 1, ?_, h.stop⟩, ?_, ?_⟩
    · rw [h.source, List.append_assoc _ _ (after.drop 1), List.append_assoc line,
        List.take_append_drop, ← List.append_assoc]
    · rw [← h.stop, ← size_append, ← List.append_assoc]
    · rw [isBlank, List.all_append, Bool.and_eq_true]
      exact ⟨hline, hbreak⟩
  · exact ⟨blankAt_self (hnode.laidOut hsound).startCut, padding, h.holds_line hline, rfl,
      isBlank_of_padding hpadding⟩

/-- What stands before a node on its line is blank, if its slice is. -/
theorem blankAt_lineStart {document : Document} (hsound : document.Sound) {node : Place}
    (hnode : document.Has node)
    (hblank : (document.source.slice
      ⟨document.lines.start (document.lines.line node.start), node.start⟩).isBlank = true) :
    document.source.BlankAt (document.lines.start (document.lines.line node.start)) node.start := by
  obtain ⟨before, lead, mid, line, after, h⟩ := hnode.exists_surrounds hsound
  rw [h.lineStart hsound] at hblank ⊢
  rw [slice_eq_of_slice? h.slice_lead] at hblank
  exact ⟨lead, h.holds_lead, by rw [← h.start, size_append], hblank⟩

/-- Lines come in the order of their offsets. -/
theorem line_mono (table : LineTable) {a b : Nat} (h : a ≤ b) : table.line a ≤ table.line b := by
  have hlength (starts : List Nat) :
      (starts.takeWhile (· ≤ a)).length ≤ (starts.takeWhile (· ≤ b)).length := by
    induction starts with
    | nil => exact Nat.le_refl _
    | cons start starts ih =>
        by_cases hstart : start ≤ a
        · rw [List.takeWhile_cons_of_pos (by rw [decide_eq_true_eq]; exact hstart),
            List.takeWhile_cons_of_pos (by rw [decide_eq_true_eq]; omega)]
          exact Nat.succ_le_succ ih
        · rw [List.takeWhile_cons_of_neg (by rw [decide_eq_true_eq]; exact hstart)]
          exact Nat.zero_le _
  exact Nat.sub_le_sub_right (hlength table.starts) 1

/-- The removal of a member may start above it, but not below. -/
theorem commentsStart_spec {document : Document} (hsound : document.Sound) {parent next : Place}
    (hparent : document.Has parent) {n start : Nat} (hnext : parent.child? n = some next)
    (hcut : document.source.CutsAt start) :
    commentsStart document start next.preceding ≤ start
      ∧ document.source.CutsAt (commentsStart document start next.preceding) := by
  -- Comments are passed upwards, each one ending on a line above the start so far.
  induction n generalizing start next with
  | zero =>
      rw [preceding_zero hnext]
      exact ⟨Nat.le_refl _, hcut⟩
  | succ n ih =>
      obtain ⟨sibling, hsibling, hpreceding⟩ := preceding_succ hnext
      rw [hpreceding, commentsStart]
      split
      · simp only
        split
        · next hcondition =>
          rw [Bool.and_eq_true, beq_iff_eq] at hcondition
          have hlead := blankAt_lineStart hsound (hparent.child hsibling) hcondition.1
          have hspec := ih hsibling hlead.startCut
          have hspan := hparent.child_span hsound hsibling
          have hle := hlead.le
          have hlt : sibling.stop < start := Nat.lt_of_not_le fun hle => by
            have := line_mono document.lines hle
            omega
          exact ⟨by omega, hspec.2⟩
        · exact ⟨Nat.le_refl _, hcut⟩
      · exact ⟨Nat.le_refl _, hcut⟩

/-- The removal of a member is that of a statement, or starts with comments. -/
theorem memberRemoval_cases (document : Document) (member : Place) :
    memberRemoval document member = statementRemoval document member
      ∨ memberRemoval document member
        = ⟨commentsStart document (statementRemoval document member).start member.preceding,
          (statementRemoval document member).stop⟩ := by
  unfold memberRemoval
  simp only
  split
  · exact .inl rfl
  · exact .inr rfl

/-- The removal of a member holds the member and lies between characters. -/
theorem memberRemoval_spec {document : Document} (hsound : document.Sound) {parent member : Place}
    (hparent : document.Has parent) {n : Nat} (hmember : parent.child? n = some member) :
    (memberRemoval document member).start ≤ member.start
      ∧ member.stop ≤ (memberRemoval document member).stop
      ∧ document.source.CutsAt (memberRemoval document member).start
      ∧ document.source.CutsAt (memberRemoval document member).stop := by
  obtain ⟨hbefore, hafter⟩ := statementRemoval_spec hsound (hparent.child hmember)
  have hle := hbefore.le
  have hcomments := commentsStart_spec hsound hparent hmember hbefore.startCut
  rcases memberRemoval_cases document member with heq | heq <;> rw [heq]
  · exact ⟨hle, hafter.le, hbefore.startCut, hafter.stopCut⟩
  · exact ⟨Nat.le_trans hcomments.1 hle, hafter.le, hcomments.2, hafter.stopCut⟩

/-! ### Pieces -/

/-- The two spans have bytes in common. -/
def Span.Meets (a b : Span) : Prop :=
  a.start < b.stop ∧ b.start < a.stop

namespace Document

variable {document : Document} {p : Place}

/-- A node that begins and ends with ink, is no comment or directive, and has
    no member in it. -/
structure Piece (document : Document) (p : Place) : Prop where
  has : document.Has p
  code : p.kind.isExtra = false
  simple : p.kind.isComposite = false
  closed : ∀ q, Below p q → q.kind.isMember = false
  solid : ∃ text, document.source.HoldsAt p.start text ∧ p.start + size text = p.stop ∧ text.Solid

/-- A token that begins and ends with ink is a piece. -/
theorem piece_of_token (hsound : document.Sound) (hp : document.Has p)
    (hlexeme : p.node.lexeme ≠ "") (hextra : p.kind.isExtra = false)
    (hblank : p.kind.mayBeBlank = false) : document.Piece p := by
  have hshape := hp.shaped hsound
  have hlaid := hp.laidOut hsound
  have hsimple := hshape.composite hlexeme
  have hleaf : p.node.children = [] := by
    refine (hshape.leaf hlexeme).resolve_left fun hkind => ?_
    rw [Place.kind, hkind] at hextra
    exact absurd hextra (by decide)
  refine ⟨hp, hextra, hsimple, fun q hq => ?_, p.node.lexeme.toList, ?_⟩
  · rw [eq_of_below_leaf hleaf hq, ← Bool.not_eq_true]
    intro hmember
    exact absurd (hsimple.symm.trans (Kind.isComposite_of_isMember hmember)) Bool.false_ne_true
  · obtain ⟨hholds, hsize⟩ := slice?_eq_some_iff_holdsAt.1 (hlaid.token hlexeme)
    exact ⟨hholds, hsize, hshape.solid hlexeme hextra hblank⟩

/-- A name is a piece. -/
theorem piece_of_identifier (hsound : document.Sound) (hp : document.Has p)
    (hkind : p.kind = .identifier) : document.Piece p :=
  piece_of_token hsound hp ((hp.shaped hsound).named (.inl hkind)) (by rw [hkind]; rfl)
    (by rw [hkind]; rfl)

namespace Piece

theorem start_lt_stop (h : document.Piece p) : p.start < p.stop := by
  obtain ⟨text, -, hsize, hsolid⟩ := h.solid
  cases text with
  | nil => exact absurd rfl hsolid.ne_nil
  | cons c rest =>
      have hc := Char.utf8Size_pos c
      rw [size_cons] at hsize
      omega

/-- A piece that meets a blank stretch reaches over it. -/
theorem around (h : document.Piece p) {start stop : Nat}
    (hblank : document.source.BlankAt start stop) (hmeets : p.span.Meets ⟨start, stop⟩) :
    p.start < start ∧ stop < p.stop := by
  obtain ⟨text, hholds, hsize, hsolid⟩ := h.solid
  have hstart : p.start < stop := hmeets.1
  have hstop : start < p.start + size text := by
    rw [hsize]
    exact hmeets.2
  rw [← hsize]
  exact hsolid.around hholds hblank hstart hstop

/-- A piece is not above what a composite node of its own parent holds. -/
theorem not_above_child (h : document.Piece p) {parent child : Place} {n : Nat}
    (hparent : ¬Below p parent) (hchild : parent.child? n = some child)
    (hkind : child.kind.isComposite = true) : ¬Below p child := by
  intro hbelow
  rcases hbelow.last with rfl | ⟨m, parent', hparent', hbelow⟩
  · exact absurd (h.simple.symm.trans hkind) Bool.false_ne_true
  · obtain ⟨rfl, -⟩ := child?_unique hchild hparent'
    exact hparent hbelow

/-- A piece is not above a member. -/
theorem not_above_member (h : document.Piece p) {member : Place}
    (hkind : member.kind.isMember = true) : ¬Below p member := by
  intro hbelow
  exact absurd ((h.closed member hbelow).symm.trans hkind) Bool.false_ne_true

/-- A piece that meets a node it is not above is below it. -/
theorem below_of_meets (h : document.Piece p) (hsound : document.Sound) {node : Place}
    (hnode : document.Has node) (habove : ¬Below p node) (hmeets : p.span.Meets node.span) :
    Below node p := by
  have hstart : p.start < node.stop := hmeets.1
  have hstop : node.start < p.stop := hmeets.2
  rcases hnode.nested h.has hsound with hbelow | hbelow | hapart | hapart
  · exact hbelow
  · exact absurd hbelow habove
  · omega
  · omega

/-- A piece in the removal of a statement belongs to the statement. -/
theorem of_statementRemoval (h : document.Piece p) (hsound : document.Sound) {node : Place}
    (hnode : document.Has node) (habove : ¬Below p node)
    (hmeets : p.span.Meets (statementRemoval document node)) : Below node p := by
  obtain ⟨hbefore, hafter⟩ := statementRemoval_spec hsound hnode
  have hproper := h.start_lt_stop
  have hstart : p.start < (statementRemoval document node).stop := hmeets.1
  have hstop : (statementRemoval document node).start < p.stop := hmeets.2
  refine h.below_of_meets hsound hnode habove ⟨Nat.lt_of_not_le fun hle => ?_,
    Nat.lt_of_not_le fun hle => ?_⟩
  · have haround := h.around hafter ⟨hstart, Nat.lt_of_le_of_lt hle hproper⟩
    exact absurd haround.1 (Nat.not_lt_of_le hle)
  · have haround := h.around hbefore ⟨Nat.lt_of_lt_of_le hproper hle, hstop⟩
    exact absurd haround.2 (Nat.not_lt_of_le hle)

/-- A piece that meets the stretch of a comment above a child of a node, up to
    that child, is the comment; so there is none. -/
theorem not_meets_comment (h : document.Piece p) (hsound : document.Sound)
    {parent comment next : Place} (hparent : document.Has parent) (habove : ¬Below p parent) {n : Nat}
    (hcomment : parent.child? n = some comment) (hkind : comment.kind = .comment)
    (hnext : parent.child? (n + 1) = some next) :
    ¬p.span.Meets ⟨comment.start, next.start⟩ := by
  rintro ⟨hstart, hstop⟩
  simp only at hstart hstop
  have hproper := h.start_lt_stop
  have hcommentSpan := hparent.child_span hsound hcomment
  have hnextSpan := hparent.child_span hsound hnext
  have horder := hparent.child_order hsound hcomment hnext (Nat.lt_succ_self n)
  have hbelow := h.below_of_meets hsound hparent habove
    ⟨show p.start < parent.stop from Nat.lt_of_lt_of_le hstart (by omega),
      show parent.start < p.stop from Nat.lt_of_le_of_lt hcommentSpan.1 hstop⟩
  rcases hbelow.head with rfl | ⟨k, child, hchild, hchildBelow⟩
  · exact habove .refl
  · have hinside := (hparent.child hchild).inside hsound hchildBelow
    have hstart' : p.start < next.start := hstart
    have hstop' : comment.start < p.stop := hstop
    -- The child that the piece is below is before the comment, is it, or is behind it.
    rcases Nat.lt_trichotomy k n with hlt | rfl | hlt
    · have := hparent.child_order hsound hchild hcomment hlt
      omega
    · rw [hcomment, Option.some.injEq] at hchild
      subst hchild
      have hshape := (hparent.child hcomment).shaped hsound
      have hlexeme : comment.node.lexeme ≠ "" :=
        hshape.named (.inr (by rw [show comment.node.kind = .comment from hkind]; rfl))
      have hleaf : comment.node.children = [] :=
        (hshape.leaf hlexeme).resolve_left (by
          rw [show comment.node.kind = .comment from hkind]; decide)
      -- A comment is a leaf, and no piece of code.
      have hcode := h.code
      rw [eq_of_below_leaf hleaf hchildBelow, hkind] at hcode
      exact absurd hcode (by decide)
    · rcases Nat.eq_or_lt_of_le (Nat.succ_le_of_lt hlt) with rfl | hlt
      · rw [hnext, Option.some.injEq] at hchild
        subst hchild
        omega
      · have := hparent.child_order hsound hnext hchild hlt
        omega

/-- Above a child of a node, over blanks and comments, there is no piece. -/
theorem not_meets_commentsStart (h : document.Piece p) (hsound : document.Sound) {parent : Place}
    (hparent : document.Has parent) (habove : ¬Below p parent) {stop n start : Nat} {next : Place}
    (hnext : parent.child? n = some next) (hblank : document.source.BlankAt start next.start)
    (hnot : ¬p.span.Meets ⟨start, stop⟩) :
    ¬p.span.Meets ⟨commentsStart document start next.preceding, stop⟩ := by
  induction n generalizing start next with
  | zero =>
      rw [preceding_zero hnext]
      exact hnot
  | succ n ih =>
      obtain ⟨sibling, hsibling, hpreceding⟩ := preceding_succ hnext
      rw [hpreceding, commentsStart]
      split
      · next hkind =>
        rw [isA, beq_iff_eq] at hkind
        simp only
        split
        · next hcondition =>
          rw [Bool.and_eq_true] at hcondition
          have hlead := blankAt_lineStart hsound (hparent.child hsibling) hcondition.1
          refine ih hsibling hlead fun hmeets => ?_
          have hproper := h.start_lt_stop
          have hstart : p.start < stop := hmeets.1
          have hstop : document.lines.start (document.lines.line sibling.start) < p.stop := hmeets.2
          -- The piece ends before the old start, so it meets the comment or what is before it.
          have hle : p.stop ≤ start := Nat.le_of_not_lt fun hlt => hnot ⟨hstart, hlt⟩
          have hnextStart := hblank.le
          by_cases hbefore : p.stop ≤ sibling.start
          · have haround := h.around hlead ⟨Nat.lt_of_lt_of_le hproper hbefore, hstop⟩
            exact absurd haround.2 (Nat.not_lt_of_le hbefore)
          · exact h.not_meets_comment hsound hparent habove hsibling hkind hnext
              ⟨show p.start < next.start by omega, show sibling.start < p.stop by omega⟩
        · exact hnot
      · exact hnot

/-- A piece in the removal of a member belongs to the member. -/
theorem of_memberRemoval (h : document.Piece p) (hsound : document.Sound) {parent member : Place}
    (hparent : document.Has parent) (habove : ¬Below p parent) {n : Nat}
    (hmember : parent.child? n = some member) (hkind : member.kind.isMember = true)
    (hmeets : p.span.Meets (memberRemoval document member)) : Below member p := by
  have hhas := hparent.child hmember
  have hstatement := h.of_statementRemoval hsound hhas (h.not_above_member hkind)
  obtain ⟨hbefore, hafter⟩ := statementRemoval_spec hsound hhas
  rcases memberRemoval_cases document member with heq | heq <;> rw [heq] at hmeets
  · exact hstatement hmeets
  · by_cases hmeets' : p.span.Meets (statementRemoval document member)
    · exact hstatement hmeets'
    · exact absurd hmeets
        (h.not_meets_commentsStart hsound hparent habove hmember hbefore hmeets')

end Piece

/-- The offset lies between the children of the node. -/
def Border (parent : Place) (offset : Nat) : Prop :=
  ∀ n child, parent.child? n = some child → child.stop ≤ offset ∨ offset ≤ child.start

theorem Has.border_start (hp : document.Has p) (hsound : document.Sound) {n : Nat} {child : Place}
    (hchild : p.child? n = some child) : Border p child.start := by
  intro m other hother
  have hspan := hp.child_span hsound hchild
  rcases Nat.lt_trichotomy m n with hlt | rfl | hlt
  · exact .inl (hp.child_order hsound hother hchild hlt)
  · rw [hchild, Option.some.injEq] at hother
    exact .inr (hother ▸ Nat.le_refl _)
  · have := hp.child_order hsound hchild hother hlt
    exact .inr (by omega)

theorem Has.border_stop (hp : document.Has p) (hsound : document.Sound) {n : Nat} {child : Place}
    (hchild : p.child? n = some child) : Border p child.stop := by
  intro m other hother
  have hspan := hp.child_span hsound hchild
  rcases Nat.lt_trichotomy m n with hlt | rfl | hlt
  · have := hp.child_order hsound hother hchild hlt
    exact .inl (by omega)
  · rw [hchild, Option.some.injEq] at hother
    exact .inl (hother ▸ Nat.le_refl _)
  · exact .inr (hp.child_order hsound hchild hother hlt)

theorem Has.border_end (hp : document.Has p) (hsound : document.Sound) : Border p p.stop :=
  fun _ _ hchild => .inl (hp.child_span hsound hchild).2.2

/-- A piece in a stretch of a list belongs to a child of the list there. -/
theorem Piece.of_borders (h : document.Piece p) (hsound : document.Sound) {parent : Place}
    (hparent : document.Has parent) (habove : ¬Below p parent) {start stop : Nat}
    (hstart : Border parent start) (hstop : Border parent stop) (hfrom : parent.start ≤ start)
    (hto : stop ≤ parent.stop) (hmeets : p.span.Meets ⟨start, stop⟩) :
    ∃ n child, parent.child? n = some child ∧ Below child p ∧ start ≤ child.start
      ∧ child.stop ≤ stop := by
  have hmeetsStart : p.start < stop := hmeets.1
  have hmeetsStop : start < p.stop := hmeets.2
  have hbelow := h.below_of_meets hsound hparent habove
    ⟨Nat.lt_of_lt_of_le hmeetsStart hto, Nat.lt_of_le_of_lt hfrom hmeetsStop⟩
  rcases hbelow.head with rfl | ⟨n, child, hchild, hchildBelow⟩
  · exact absurd .refl habove
  · have hinside := (hparent.child hchild).inside hsound hchildBelow
    refine ⟨n, child, hchild, hchildBelow, ?_, ?_⟩
    · rcases hstart n child hchild with hle | hle
      · omega
      · exact hle
    · rcases hstop n child hchild with hle | hle
      · exact hle
      · omega

/-- The removals from a list of children begin and end between children, inside
    the parent and between characters. -/
theorem Has.mem_removalsFromList (hp : document.Has p) (hsound : document.Sound)
    {items : List Place} (hitems : items.Sublist p.children) {removed : List Bool} {span : Span}
    (h : span ∈ removalsFromList (items.map Place.span) removed) :
    Border p span.start ∧ Border p span.stop ∧ p.start ≤ span.start ∧ span.start ≤ span.stop
      ∧ span.stop ≤ p.stop ∧ document.source.CutsAt span.start
      ∧ document.source.CutsAt span.stop := by
  have hpairs := (hp.pairwise_children hsound).sublist hitems
  have hget {n : Nat} {span : Span} (hn : (items.map Place.span)[n]? = some span) :
      ∃ item, items[n]? = some item ∧ item.span = span ∧ ∃ i, p.child? i = some item := by
    rw [List.getElem?_map, Option.map_eq_some_iff] at hn
    obtain ⟨item, hitem, hspan⟩ := hn
    exact ⟨item, hitem, hspan, mem_children.1 (hitems.subset (List.mem_of_getElem? hitem))⟩
  have horder {m n : Nat} {a b : Place} (ha : items[m]? = some a) (hb : items[n]? = some b)
      (hmn : m < n) : a.stop ≤ b.start :=
    rel_of_getElem? hpairs ha hb hmn
  -- From an item to the next, from the end of one to the end of the last, or all of them.
  rcases SharpLint.mem_removalsFromList h with ⟨n, item, next, hitem, hnext, -, rfl⟩
    | ⟨kept, item, last, hitem, hlast, hlt, -, -, rfl⟩ | ⟨first, last, hfirst, hlast, -, rfl⟩
  · obtain ⟨a, ha, rfl, i, hi⟩ := hget hitem
    obtain ⟨b, hb, rfl, j, hj⟩ := hget hnext
    have hab := horder ha hb (Nat.lt_succ_self n)
    have haSpan := hp.child_span hsound hi
    have hbSpan := hp.child_span hsound hj
    exact ⟨hp.border_start hsound hi, hp.border_start hsound hj, haSpan.1,
      Nat.le_trans (Nat.le_of_lt haSpan.2.1) hab, Nat.le_trans (Nat.le_of_lt hbSpan.2.1) hbSpan.2.2,
      ((hp.child hi).laidOut hsound).startCut, ((hp.child hj).laidOut hsound).startCut⟩
  · rw [List.getLast?_eq_getElem?] at hlast
    obtain ⟨a, ha, rfl, i, hi⟩ := hget hitem
    obtain ⟨b, hb, rfl, j, hj⟩ := hget hlast
    have hab := horder ha hb (by omega)
    have haSpan := hp.child_span hsound hi
    have hbSpan := hp.child_span hsound hj
    exact ⟨hp.border_stop hsound hi, hp.border_stop hsound hj,
      Nat.le_trans haSpan.1 (Nat.le_of_lt haSpan.2.1),
      Nat.le_trans hab (Nat.le_of_lt hbSpan.2.1), hbSpan.2.2,
      ((hp.child hi).laidOut hsound).stopCut, ((hp.child hj).laidOut hsound).stopCut⟩
  · rw [List.head?_eq_getElem?] at hfirst
    rw [List.getLast?_eq_getElem?] at hlast
    obtain ⟨a, ha, rfl, i, hi⟩ := hget hfirst
    obtain ⟨b, hb, rfl, j, hj⟩ := hget hlast
    have haSpan := hp.child_span hsound hi
    have hbSpan := hp.child_span hsound hj
    refine ⟨hp.border_start hsound hi, hp.border_stop hsound hj, haSpan.1, ?_, hbSpan.2.2,
      ((hp.child hi).laidOut hsound).startCut, ((hp.child hj).laidOut hsound).stopCut⟩
    rcases Nat.eq_zero_or_pos ((items.map Place.span).length - 1) with hzero | hpos
    · rw [hzero, ha, Option.some.injEq] at hb
      rw [← hb]
      exact Nat.le_of_lt haSpan.2.1
    · have hab := horder ha hb hpos
      exact Nat.le_trans (Nat.le_of_lt haSpan.2.1) (Nat.le_trans hab (Nat.le_of_lt hbSpan.2.1))

end Document

end SharpLint

import SharpLint.Proofs.Lint.Apart

/-!
# Lists Without Some of Their Items

What is left of a list in a text when some of its items are removed. An item
before one that is kept goes with the separator behind it, and the items behind
the last one that is kept go with the separator before them, so flagged items
at the start, in the middle and at the end are treated in different ways. What
is left is a list all the same: between two neighbours stands one of the old
separators, whole.

A separator is a comma among blanks and comments. A comment may hold commas of
its own; they do not count. A comment that ends with its line has the end of
the line behind it, or it would hide what stands there.

## Main definitions

* `Text.IsAside`: blanks and comments.
* `Text.IsSeparator`: a comma among blanks and comments.
* `Text.Lists`: a text that lists items, and nothing before or behind them.
* `Text.ListedAt`: the spans of items in a text with separators between them.

## Theorems

* `removalsFromList_cons`: An item before a kept one goes on its own.
* `removalsFromList_kept`: What goes behind the last item that is kept.
* `Text.SpansFrom.splices`: What is left of a list.
* `removalsFromList_keeps_list`: The removals from a list, and what they leave.
-/

namespace SharpLint

open Text

namespace Text

/-- A text of blanks and comments. -/
inductive IsAside : Text → Prop
  | nil : IsAside []
  | blank {c : Char} {rest : Text} (blank : isBlankChar c = true) (aside : IsAside rest) :
      IsAside (c :: rest)
  /-- A comment up to the end of its line, which is blank. -/
  | line {inner rest : Text} {c : Char} (inner_unbroken : ∀ d ∈ inner, d ≠ '\n' ∧ d ≠ '\r')
      (ends : c = '\n' ∨ c = '\r') (aside : IsAside (c :: rest)) :
      IsAside ('/' :: '/' :: inner ++ c :: rest)
  /-- A comment up to its closing mark. -/
  | block {inner rest : Text} (closed : Gap.blockCommentRest inner = some inner.length)
      (aside : IsAside rest) : IsAside ('/' :: '*' :: inner ++ rest)

/-- One comma, with blanks and comments around it. -/
def IsSeparator (text : Text) : Prop :=
  ∃ before after, text = before ++ ',' :: after ∧ IsAside before ∧ IsAside after

/-- The text is the items one behind the other, with what may stand between two
    neighbours there, and nothing before the first or behind the last. -/
inductive Lists (between : Text → Prop) : List Text → Text → Prop
  | single (item : Text) : Lists between [item] item
  | cons {gap text : Text} {items : List Text} (item : Text) (gap_between : between gap)
      (rest : Lists between items text) : Lists between (item :: items) (item ++ gap ++ text)

/-- The items stand in the text one behind the other, with what may stand between
    two neighbours there. -/
structure ListedAt (between : Text → Prop) (text : Text) (items : List Span) : Prop where
  parts : ∀ item ∈ items, ∃ part, text.slice? item = some part
  gaps : ∀ n a b, items[n]? = some a → items[n + 1]? = some b →
    ∃ gap, text.slice? ⟨a.stop, b.start⟩ = some gap ∧ between gap

/-- The spans of the items of a list that begins at byte `start`. -/
inductive SpansFrom (between : Text → Prop) : Nat → List Span → List Text → Text → Prop
  | single {start stop : Nat} {item : Text} (stop_eq : start + size item = stop) :
      SpansFrom between start [⟨start, stop⟩] [item] item
  | cons {start stop next : Nat} {item gap text : Text} {spans : List Span} {items : List Text}
      (stop_eq : start + size item = stop) (next_eq : stop + size gap = next)
      (gap_between : between gap) (rest : SpansFrom between next spans items text) :
      SpansFrom between start (⟨start, stop⟩ :: spans) (item :: items) (item ++ gap ++ text)

namespace SpansFrom

variable {between : Text → Prop} {start : Nat} {spans : List Span} {items : List Text} {text : Text}

theorem head (h : SpansFrom between start spans items text) :
    ∃ stop more, spans = ⟨start, stop⟩ :: more := by
  cases h with
  | single => exact ⟨_, [], rfl⟩
  | cons => exact ⟨_, _, rfl⟩

theorem last (h : SpansFrom between start spans items text) :
    ∃ last, spans.getLast? = some last ∧ last.stop = start + size text := by
  induction h with
  | single stop_eq => exact ⟨_, rfl, stop_eq.symm⟩
  | cons stop_eq next_eq gap_between rest ih =>
      obtain ⟨last, hlast, hstop⟩ := ih
      refine ⟨last, ?_, ?_⟩
      · rw [List.getLast?_cons, hlast, Option.getD_some]
      · rw [hstop, size_append, size_append]
        omega

theorem mem (h : SpansFrom between start spans items text) {span : Span} (hspan : span ∈ spans) :
    start ≤ span.start ∧ span.start ≤ span.stop := by
  induction h with
  | single stop_eq =>
      rw [List.mem_singleton.1 hspan]
      simp only
      omega
  | cons stop_eq next_eq gap_between rest ih =>
      rcases List.mem_cons.1 hspan with rfl | hspan
      · simp only
        omega
      · have hlater := ih hspan
        omega

theorem chained (h : SpansFrom between start spans items text) : Chained spans := by
  induction h with
  | single => exact List.pairwise_singleton _ _
  | cons stop_eq next_eq gap_between rest ih =>
      refine List.Pairwise.cons (fun span hspan => ?_) ih
      have hlater := rest.mem hspan
      simp only
      omega

end SpansFrom

/-- Items in a text with something between them make up a list there. -/
theorem ListedAt.spansFrom {between : Text → Prop} {text : Text} {item : Span} {items : List Span}
    (h : ListedAt between text (item :: items)) :
    ∃ before list after, text = before ++ list ++ after ∧ size before = item.start
      ∧ SpansFrom between item.start (item :: items) ((item :: items).map text.slice) list := by
  induction items generalizing item with
  | nil =>
      obtain ⟨part, hpart⟩ := h.parts item List.mem_cons_self
      obtain ⟨before, after, htext, hbefore, hstop⟩ := slice?_eq_some_iff.1 hpart
      refine ⟨before, part, after, htext, hbefore, ?_⟩
      rw [List.map_singleton, slice_eq_of_slice? hpart]
      exact .single hstop
  | cons next items ih =>
      have htail : ListedAt between text (next :: items) :=
        ⟨fun span hspan => h.parts span (List.mem_cons_of_mem _ hspan),
          fun n a b ha hb => h.gaps (n + 1) a b ha hb⟩
      obtain ⟨before', list, after', htext', hbefore', hlist⟩ := ih htail
      obtain ⟨part, hpart⟩ := h.parts item List.mem_cons_self
      obtain ⟨gap, hgap, hbetween⟩ := h.gaps 0 item next rfl rfl
      obtain ⟨before, after, htext, hbefore, hstop⟩ := slice?_eq_some_iff.1 hpart
      obtain ⟨upto, behind, htextGap, hupto, hnext⟩ := slice?_eq_some_iff.1 hgap
      -- Item, gap and rest meet where the sizes say so.
      have hmeet : before ++ part = upto := by
        refine (append_inj_of_size (htext.symm.trans (htextGap.trans (List.append_assoc ..))) ?_).1
        rw [size_append, hbefore, hupto, hstop]
      have hmeet' : upto ++ gap = before' := by
        refine (append_inj_of_size (htextGap.symm.trans (htext'.trans (List.append_assoc ..))) ?_).1
        rw [size_append, hupto, hbefore', hnext]
      refine ⟨before, part ++ gap ++ list, after', ?_, hbefore, ?_⟩
      · rw [htext', ← hmeet', ← hmeet]
        simp only [List.append_assoc]
      · rw [List.map_cons, slice_eq_of_slice? hpart]
        exact .cons hstop hnext hbetween hlist

end Text

/-! ### The removals, item by item -/

/-- The items that are not flagged. -/
def keptItems {α : Type} (items : List α) (removed : List Bool) : List α :=
  ((items.zip removed).filter fun item => !item.2).map Prod.fst

theorem exists_lastKept {removed : List Bool} (h : false ∈ removed) :
    ∃ kept, lastKept? removed = some kept ∧ removed[kept]? = some false
      ∧ ∀ n, kept < n → removed[n]? ≠ some false := by
  have hspec := lastKept?_spec removed
  cases hkept : lastKept? removed with
  | none =>
      rw [hkept] at hspec
      obtain ⟨n, hn⟩ := List.getElem?_of_mem h
      exact absurd hn (hspec n)
  | some kept =>
      rw [hkept] at hspec
      exact ⟨kept, rfl, hspec⟩

/-- The last item that is kept is the one behind which none is. -/
theorem lastKept?_eq {removed : List Bool} {kept : Nat} (hkept : removed[kept]? = some false)
    (hbehind : ∀ n, kept < n → removed[n]? ≠ some false) : lastKept? removed = some kept := by
  obtain ⟨kept', heq, hkept', hbehind'⟩ := exists_lastKept (List.mem_of_getElem? hkept)
  rcases Nat.lt_trichotomy kept kept' with hlt | rfl | hlt
  · exact absurd hkept' (hbehind kept' hlt)
  · exact heq
  · exact absurd hkept (hbehind' kept hlt)

/-- The removals from a list of which an item is kept: the items before the last
    one that is kept go one by one, and those behind it together. -/
theorem removalsFromList_eq {items : List Span} {removed : List Bool} {kept : Nat}
    {item last : Span} (hlength : removed.length = items.length)
    (hkept : removed[kept]? = some false) (hbehind : ∀ n, kept < n → removed[n]? ≠ some false)
    (hitem : items[kept]? = some item) (hlast : items.getLast? = some last) :
    removalsFromList items removed = leadingRemovals ((items.zip removed).take (kept + 1))
      ++ if kept + 1 < items.length then [⟨item.stop, last.stop⟩] else [] := by
  unfold removalsFromList
  split
  · simp only [lastKept?_eq hkept hbehind, hlast, hitem]
    split
    · rfl
    · rw [List.append_nil]
  · next hnone =>
    -- Nothing is flagged, so nothing goes before or behind the last item.
    have hflag {n : Nat} (hn : removed[n]? = some true) : False :=
      hnone (List.any_eq_true.2 ⟨true, List.mem_of_getElem? hn, rfl⟩)
    have hleading : leadingRemovals ((items.zip removed).take (kept + 1)) = [] := by
      refine List.eq_nil_iff_forall_not_mem.2 fun span hspan => ?_
      obtain ⟨n, _, _, _, hn, -, -⟩ := mem_leadingRemovals hspan
      rw [List.getElem?_take] at hn
      split at hn
      · exact hflag (List.getElem?_zip_eq_some.1 hn).2
      · exact absurd hn (by simp only [reduceCtorEq, not_false_eq_true])
    rw [hleading, if_neg, List.append_nil]
    intro hlt
    cases hnext : removed[kept + 1]? with
    | none =>
        rw [List.getElem?_eq_none_iff] at hnext
        omega
    | some flag =>
        cases flag with
        | true => exact hflag hnext
        | false => exact hbehind (kept + 1) (Nat.lt_succ_self kept) hnext

/-- An item before one that is kept goes on its own, up to the item behind it. -/
theorem removalsFromList_cons {item next : Span} {items : List Span} {flag flag' : Bool}
    {flags : List Bool} (hlength : flags.length = items.length) (hkept : false ∈ flag' :: flags) :
    removalsFromList (item :: next :: items) (flag :: flag' :: flags)
      = (if flag then [⟨item.start, next.start⟩] else [])
        ++ removalsFromList (next :: items) (flag' :: flags) := by
  obtain ⟨kept, -, hkeptFlag, hbehind⟩ := exists_lastKept hkept
  have hlt : kept < (next :: items).length := by
    obtain ⟨hlt, -⟩ := List.getElem?_eq_some_iff.1 hkeptFlag
    rw [List.length_cons] at hlt ⊢
    omega
  obtain ⟨last, hlast⟩ : ∃ last, (next :: items).getLast? = some last :=
    ⟨_, List.getLast?_eq_some_getLast (List.cons_ne_nil next items)⟩
  have hlast' : (item :: next :: items).getLast? = some last := by
    rw [List.getLast?_cons, hlast, Option.getD_some]
  have hitem := List.getElem?_eq_getElem hlt
  -- The last item that is kept is one further on in the longer list.
  have hbehind' : ∀ n, kept + 1 < n → (flag :: flag' :: flags)[n]? ≠ some false := by
    intro n hn
    obtain ⟨m, rfl⟩ := Nat.exists_eq_succ_of_ne_zero (Nat.ne_zero_of_lt hn)
    rw [List.getElem?_cons_succ]
    exact hbehind m (Nat.lt_of_succ_lt_succ hn)
  rw [removalsFromList_eq (by simp only [List.length_cons, hlength]) hkeptFlag hbehind hitem hlast,
    removalsFromList_eq (by simp only [List.length_cons, hlength])
      (List.getElem?_cons_succ.trans hkeptFlag) hbehind' (List.getElem?_cons_succ.trans hitem) hlast',
    List.zip_cons_cons, List.zip_cons_cons, List.take_succ_cons, List.take_succ_cons,
    leadingRemovals]
  simp only [List.length_cons, Nat.add_lt_add_iff_right]
  -- Both sides have the same removals but for that of the first item.
  cases flag with
  | true => rw [if_pos rfl, if_pos rfl, List.cons_append, List.singleton_append]
  | false => rw [if_neg Bool.false_ne_true, if_neg Bool.false_ne_true, List.nil_append]

/-- The items behind the last one that is kept go together, with what stands
    before them. -/
theorem removalsFromList_kept {item last : Span} {items : List Span} {flags : List Bool}
    (hlength : flags.length = items.length) (hnone : false ∉ flags)
    (hlast : items.getLast? = some last) :
    removalsFromList (item :: items) (false :: flags) = [⟨item.stop, last.stop⟩] := by
  have hbehind : ∀ n, 0 < n → (false :: flags)[n]? ≠ some false := by
    intro n hn hflag
    obtain ⟨m, rfl⟩ := Nat.exists_eq_succ_of_ne_zero (Nat.ne_zero_of_lt hn)
    rw [List.getElem?_cons_succ] at hflag
    exact hnone (List.mem_of_getElem? hflag)
  have hpos : 0 < items.length := by
    cases items with
    | nil => exact absurd hlast (by simp only [List.getLast?_nil, reduceCtorEq, not_false_eq_true])
    | cons => exact Nat.succ_pos _
  have hkept : (false :: flags)[0]? = some false := rfl
  have hitem : (item :: items)[0]? = some item := rfl
  have hlast' : (item :: items).getLast? = some last := by
    rw [List.getLast?_cons, hlast, Option.getD_some]
  rw [removalsFromList_eq (by rw [List.length_cons, List.length_cons, hlength]) hkept hbehind hitem
    hlast', if_pos (by rw [List.length_cons]; omega)]
  rfl

/-- A removal lies apart from every item that is kept. -/
theorem apart_of_kept {items : List Span} {removed : List Bool} (hpairs : Chained items)
    (hproper : ∀ item ∈ items, item.start ≤ item.stop) {span item : Span} {n : Nat}
    (hspan : span ∈ removalsFromList items removed) (hitem : items[n]? = some item)
    (hkept : removed[n]? = some false) : item.stop ≤ span.start ∨ span.stop ≤ item.start := by
  have horder {i j : Nat} {a b : Span} (ha : items[i]? = some a) (hb : items[j]? = some b)
      (hij : i ≤ j) : a.start ≤ b.start ∧ a.stop ≤ b.stop := by
    rcases Nat.eq_or_lt_of_le hij with rfl | hlt
    · rw [Option.some.inj (ha.symm.trans hb)]
      exact ⟨Nat.le_refl _, Nat.le_refl _⟩
    · have hab : a.stop ≤ b.start := rel_of_getElem? hpairs ha hb hlt
      have haProper := hproper a (List.mem_of_getElem? ha)
      have hbProper := hproper b (List.mem_of_getElem? hb)
      omega
  -- A removal runs from a flagged item to the next one, or from the last kept item to the end.
  rcases mem_removalsFromList hspan with ⟨m, first, next, hfirst, hnext, hflag, rfl⟩
    | ⟨kept, first, last, hfirst, -, -, -, hbehind, rfl⟩ | ⟨-, -, -, -, hall, -⟩
  · rcases Nat.lt_trichotomy n m with hlt | rfl | hlt
    · have hbefore : item.stop ≤ first.start := rel_of_getElem? hpairs hitem hfirst hlt
      exact .inl hbefore
    · exact absurd (Option.some.inj (hflag.symm.trans hkept)).symm Bool.false_ne_true
    · exact .inr (horder hnext hitem hlt).1
  · refine .inl (horder hitem hfirst (Nat.le_of_not_lt fun hlt => ?_)).2
    exact hbehind n hlt hkept
  · exact absurd hkept (hall n)

/-! ### What is left -/

theorem keptItems_cons {α : Type} (item : α) (items : List α) (flag : Bool) (flags : List Bool) :
    keptItems (item :: items) (flag :: flags)
      = if flag then keptItems items flags else item :: keptItems items flags := by
  cases flag <;> rfl

theorem keptItems_eq_nil {α : Type} (items : List α) {flags : List Bool} (h : false ∉ flags) :
    keptItems items flags = [] := by
  rw [keptItems, List.map_eq_nil_iff, List.filter_eq_nil_iff]
  intro item hitem
  rw [Bool.not_eq_true', Bool.not_eq_false]
  cases hflag : item.2 with
  | true => rfl
  | false => exact absurd (hflag ▸ (List.of_mem_zip hitem).2) h

theorem keptItems_map {α β : Type} (f : α → β) (items : List α) (flags : List Bool) :
    keptItems (items.map f) flags = (keptItems items flags).map f := by
  induction items generalizing flags with
  | nil => rfl
  | cons item items ih =>
      cases flags with
      | nil => rfl
      | cons flag flags =>
          rw [List.map_cons, keptItems_cons, keptItems_cons, ih]
          cases flag <;> rfl

/-- What is left of a list: the items that are kept, with what stood between
    two neighbours between any two of them. -/
theorem Text.SpansFrom.splices {between : Text → Prop} {start : Nat} {spans : List Span}
    {items : List Text} {list : Text} (h : SpansFrom between start spans items list)
    {removed : List Bool} (hlength : removed.length = spans.length) (hkept : false ∈ removed)
    (after : Text) :
    ∃ left, Edit.Splices start (list ++ after) ((removalsFromList spans removed).map .remove)
        (left ++ after)
      ∧ Lists between (keptItems items removed) left := by
  induction h generalizing removed with
  | @single start stop item stop_eq =>
      obtain ⟨flag, rfl⟩ := List.length_eq_one_iff.1 hlength
      obtain rfl := List.mem_singleton.1 hkept
      exact ⟨item, .nil, .single item⟩
  | @cons start stop next item gap list spans items stop_eq next_eq gap_between rest ih =>
      cases removed with
      | nil => exact absurd hkept List.not_mem_nil
      | cons flag flags =>
          rw [List.length_cons, List.length_cons, Nat.add_right_cancel_iff] at hlength
          rw [keptItems_cons]
          by_cases hmore : false ∈ flags
          · -- An item behind is kept, so this one goes up to the next, or stays.
            obtain ⟨left, hleft, hlists⟩ := ih hlength hmore
            obtain ⟨stop', spans', rfl⟩ := rest.head
            obtain ⟨flag', flags', rfl⟩ := List.exists_cons_of_ne_nil (List.ne_nil_of_mem hmore)
            rw [List.length_cons, List.length_cons, Nat.add_right_cancel_iff] at hlength
            rw [removalsFromList_cons hlength hmore, List.append_assoc]
            cases flag with
            | true =>
                have hgone : start + size (item ++ gap) = next := by
                  rw [size_append]
                  omega
                have hsplices : Edit.Splices start ([] ++ (item ++ gap) ++ (list ++ after)) _
                    ([] ++ [] ++ (left ++ after)) := .cons rfl hgone hleft
                exact ⟨left, hsplices, hlists⟩
            | false =>
                refine ⟨item ++ gap ++ left, ?_, .cons item gap_between hlists⟩
                rw [List.append_assoc _ left]
                refine Edit.Splices.keep ?_
                rwa [size_append, ← Nat.add_assoc, stop_eq, next_eq]
          · -- This is the last item that is kept, so all behind it goes.
            obtain rfl : flag = false := by
              rcases List.mem_cons.1 hkept with hflag | hflag
              · exact hflag.symm
              · exact absurd hflag hmore
            obtain ⟨last, hlast, hstop⟩ := rest.last
            refine ⟨item, ?_, ?_⟩
            · have hgone : stop + size (gap ++ list) = last.stop := by
                rw [size_append]
                omega
              have hsplices : Edit.Splices start (item ++ (gap ++ list) ++ after) _
                  (item ++ [] ++ after) := .cons stop_eq hgone .nil
              rw [removalsFromList_kept hlength hmore hlast, List.append_assoc item]
              rwa [List.append_nil] at hsplices
            · rw [if_neg Bool.false_ne_true, keptItems_eq_nil items hmore]
              exact .single item

/-- The removals from a list of which some item is kept. They come in order, one
    behind the other; each flagged item lies in one, and each kept item apart
    from all. What they leave of the list is a list again: the kept items in
    order, with one separator between any two neighbours, nothing before the
    first and nothing behind the last. -/
theorem removalsFromList_keeps_list {text : Text} {items : List Span} {removed : List Bool}
    (hlisted : ListedAt IsSeparator text items) (hlength : removed.length = items.length)
    (hkept : false ∈ removed) :
    Chained (removalsFromList items removed)
      ∧ (∀ span ∈ removalsFromList items removed, span.start ≤ span.stop)
      ∧ (∀ (n : Nat) (item : Span), items[n]? = some item → removed[n]? = some true →
        ∃ span ∈ removalsFromList items removed, item.within span = true)
      ∧ (∀ (n : Nat) (item : Span), items[n]? = some item → removed[n]? = some false →
        ∀ span ∈ removalsFromList items removed, item.stop ≤ span.start ∨ span.stop ≤ item.start)
      ∧ ∃ before list after left, text = before ++ list ++ after
        ∧ items.head?.map Span.start = some (size before)
        ∧ items.getLast?.map Span.stop = some (size (before ++ list))
        ∧ (Edit.splice? text ((removalsFromList items removed).map .remove)).map Prod.fst
          = some (before ++ left ++ after)
        ∧ Lists IsSeparator ((keptItems items removed).map text.slice) left := by
  cases items with
  | nil =>
      obtain rfl := List.length_eq_zero_iff.1 hlength
      exact absurd hkept List.not_mem_nil
  | cons first items =>
      obtain ⟨before, list, after, htext, hbefore, hspans⟩ := hlisted.spansFrom
      have hproper : ∀ item ∈ first :: items, item.start ≤ item.stop := fun item hitem =>
        (hspans.mem hitem).2
      -- What is left is read off the splice, which begins where the first item does.
      obtain ⟨left, hleft, hlists⟩ := hspans.splices hlength hkept after
      obtain ⟨last, hlast, hstop⟩ := hspans.last
      rw [← hbefore, ← Nat.zero_add (size before)] at hleft
      have hsplices := hleft.keep
      rw [← List.append_assoc, ← List.append_assoc, ← htext] at hsplices
      refine ⟨pairwise_removalsFromList hspans.chained hproper removed, fun span hspan => ?_,
        fun n item hitem hflag => exists_removal hlength hproper hspans.chained hitem hflag,
        fun n item hitem hflag span hspan =>
          apart_of_kept hspans.chained hproper hspan hitem hflag,
        before, list, after, left, htext, ?_, ?_, ?_, ?_⟩
      · exact (hsplices.forward (List.mem_map.2 ⟨span, hspan, rfl⟩)).2.1
      · rw [List.head?_cons, Option.map_some, hbefore]
      · rw [hlast, Option.map_some, hstop, size_append, hbefore]
      · rw [hsplices.splice?_eq, Option.map_some]
      · rwa [← keptItems_map]

/-- A list with commas in the comments between its items. -/
def commentedList : Text :=
  "f(int a, /* b, */ int b // c,\n, int c)".toList

/-- The items of the list. -/
def commentedSpans : List Span :=
  [⟨2, 7⟩, ⟨18, 23⟩, ⟨32, 37⟩]

theorem listedAt_commentedList : ListedAt IsSeparator commentedList commentedSpans where
  parts item hitem := by
    refine Option.isSome_iff_exists.1 ?_
    revert item
    decide
  gaps n a b ha hb := by
    have hfirst : IsSeparator ", /* b, */ ".toList :=
      ⟨[], " /* b, */ ".toList, rfl, .nil,
        .blank rfl (.block (show Gap.blockCommentRest " b, */".toList = some 6 by rfl)
          (.blank rfl .nil))⟩
    have hunbroken : ∀ d ∈ [' ', 'c', ','], d ≠ '\n' ∧ d ≠ '\r' := by simp
    have hsecond : IsSeparator " // c,\n, ".toList :=
      ⟨" // c,\n".toList, " ".toList, rfl,
        .blank rfl (.line hunbroken (.inl rfl)
          (.blank rfl .nil)), .blank rfl .nil⟩
    match n with
    | 0 =>
        obtain ⟨rfl, rfl⟩ : ⟨2, 7⟩ = a ∧ ⟨18, 23⟩ = b := ⟨Option.some.inj ha, Option.some.inj hb⟩
        exact ⟨_, rfl, hfirst⟩
    | 1 =>
        obtain ⟨rfl, rfl⟩ : ⟨18, 23⟩ = a ∧ ⟨32, 37⟩ = b := ⟨Option.some.inj ha, Option.some.inj hb⟩
        exact ⟨_, rfl, hsecond⟩
    | n + 2 => exact absurd hb (by simp only [commentedSpans, List.getElem?_cons_succ,
        List.getElem?_nil, reduceCtorEq, not_false_eq_true])

theorem removalsFromList_keeps_list_commented :
    ListedAt IsSeparator commentedList commentedSpans
      ∧ ∃ before left after,
        (Edit.splice? commentedList ((removalsFromList commentedSpans [false, true, false]).map
          .remove)).map Prod.fst = some (before ++ left ++ after)
        ∧ Lists IsSeparator ["int a".toList, "int c".toList] left := by
  obtain ⟨-, -, -, -, before, list, after, left, -, -, -, hsplice, hlists⟩ :=
    removalsFromList_keeps_list listedAt_commentedList
      (show [false, true, false].length = commentedSpans.length by rfl) (by decide)
  exact ⟨listedAt_commentedList, before, left, after, hsplice, hlists⟩

end SharpLint

import Mathlib.Data.List.Pairwise
import SharpLint.Proofs.Edit.Spared
import SharpLint.Proofs.Lint.References
import SharpLint.Proofs.Lint.Wrapping
import SharpLint.Proofs.Syntax.Comments
import SharpLint.Proofs.Text.InkAt

/-!
# What a Wrap Keeps

A wrap throws the gap before each parameter away and rebuilds it from the
comments in it. So it keeps all ink outside the gaps, and inside them that of
the comments; a directive between two parameters, or anything else that stands
there and is no comment, is lost.

A comment that begins with two slashes ends with its line, so a line break has
to stand behind it. The wrap writes one behind each such comment that it moves;
behind each other one the source has one, or the next gap begins, and what is
put there begins with a line feed. Tidying takes no line break from a line with
ink on it.

## Main definitions

* `Text.BreaksAfter`: a line stands behind some ink, and a line break behind it.
* `Place.keepsByte`: whether a wrap keeps a byte of the source.
* `Wraps`: the edits of a wrap, and how they lie in the list.

## Theorems

* `Edit.Splices.inkAt`: The ink of a splice, told by what its edits keep.
* `Text.BreaksAfter.tidy`: Tidying keeps a line break behind ink.
* `Wraps.ink_of_first`: The ink of a wrap up to one of its gaps.
* `Wraps.breaksAfter_spared`: A comment outside the gaps keeps its line break.
* `Wraps.breaksAfter_moved`: A comment in a gap gets one.
* `wrapParameters_keeps_comments`: What a wrap keeps.
-/

namespace SharpLint

open Text Place

/-! ### Splices and tidying -/

namespace Edit.Splices

variable {source text new : Text} {edits : List Edit} {keeps : Nat → Bool}

/-- Where each edit puts the ink that is kept of the stretch that it replaces,
    and all else is kept, the splice has the ink that is kept. -/
theorem inkAt {cursor : Nat} (h : Splices cursor text edits new) (before after : Text)
    (hsource : source = before ++ text ++ after) (hcursor : size before = cursor)
    (hedits : ∀ edit ∈ edits,
      edit.text.filter isInk = Text.inkAt keeps edit.span.start (source.slice edit.span))
    (hkept : ∀ n, cursor ≤ n → n < cursor + size text →
      (∀ edit ∈ edits, edit.span.holds n = false) → keeps n = true) :
    new.filter isInk = Text.inkAt keeps cursor text := by
  induction h generalizing before with
  | nil =>
      refine (inkAt_eq_filter fun n hfrom hto => hkept n hfrom hto fun edit hedit => ?_).symm
      exact absurd hedit List.not_mem_nil
  | @cons cursor start stop kept old rest new text edits hstart hstop tail ih =>
      have hslice : source.slice ⟨start, stop⟩ = old :=
        slice_eq_of_slice? (slice?_eq_some_iff.2 ⟨before ++ kept, rest ++ after, by
          rw [hsource]
          simp only [List.append_assoc], by
          rw [size_append, hcursor, hstart], hstop⟩)
      have htext := hedits _ List.mem_cons_self
      rw [hslice] at htext
      rw [size_append, size_append] at hkept
      -- The edits behind the first gap hold no byte before it.
      have hkeptInk : Text.inkAt keeps cursor kept = kept.filter isInk := by
        refine inkAt_eq_filter fun n hfrom hto => hkept n hfrom (by omega) fun edit hedit => ?_
        rw [Span.not_holds_iff]
        rcases List.mem_cons.1 hedit with rfl | hedit
        · exact .inl (by simp only; omega)
        · have := (tail.forward hedit).1
          exact .inl (by omega)
      have hrest := ih (before ++ kept ++ old) (by rw [hsource]; simp only [List.append_assoc])
        (by rw [size_append, size_append]; omega)
        (fun edit hedit => hedits edit (List.mem_cons_of_mem _ hedit)) fun n hfrom hto hnot => by
          refine hkept n (by omega) (by omega) fun edit hedit => ?_
          rcases List.mem_cons.1 hedit with rfl | hedit
          · exact Span.not_holds_iff.2 (.inr hfrom)
          · exact hnot edit hedit
      rw [List.filter_append, List.filter_append, htext, hrest, inkAt_append, inkAt_append,
        hkeptInk, hstart, size_append, ← Nat.add_assoc, hstart, hstop]

/-- Where the text and all that is put into it begin with characters of one
    kind, the splice does. -/
theorem exists_first {cursor : Nat} (h : Splices cursor text edits new) (p : Char → Bool)
    (htext : ∃ c rest, text = c :: rest ∧ p c = true)
    (hedits : ∀ edit ∈ edits, ∃ c rest, edit.text = c :: rest ∧ p c = true) :
    ∃ c rest, new = c :: rest ∧ p c = true := by
  cases h with
  | nil => exact htext
  | @cons _ _ _ kept old rest new put _ _ _ _ =>
      cases kept with
      | nil =>
          obtain ⟨c, more, hput, hc⟩ := hedits _ List.mem_cons_self
          change put = c :: more at hput
          exact ⟨c, more ++ new, by rw [hput]; rfl, hc⟩
      | cons d kept =>
          obtain ⟨c, more, hcut, hc⟩ := htext
          rw [List.append_assoc, List.cons_append, List.cons.injEq] at hcut
          exact ⟨d, kept ++ put ++ new, rfl, hcut.1 ▸ hc⟩

end Edit.Splices

/-- The text has the line somewhere behind the ink, and a line break behind the
    line and blanks at most. -/
def Text.BreaksAfter (text ink line : Text) : Prop :=
  ∃ (before blanks : Text) (c : Char) (rest : Text),
    text = before ++ line ++ (blanks ++ c :: rest)
    ∧ before.filter isInk = ink ∧ blanks.isBlank = true ∧ '\n' ∉ blanks ∧ breaksLine c = true

/-- What is left by tidying is part of the text. -/
theorem Tidied.sublist {touched : Nat → Bool} {before text after left : Text}
    (h : Tidied touched before text after left) : left.Sublist text := by
  induction h with
  | nil => exact List.Sublist.refl _
  | keep _ _ ih => exact ih.cons_cons _
  | drop _ _ _ ih => exact ih.cons _

/-- Tidying keeps a stretch of ink on one line, and the line break that follows
    it. -/
theorem Text.BreaksAfter.tidy {text ink line : Text} (h : text.BreaksAfter ink line)
    (hsolid : line.Solid) (hline : '\n' ∉ line) (touched : List Span) :
    (SharpLint.tidy text touched).BreaksAfter ink line := by
  obtain ⟨before, blanks, c, after, rfl, hink, hblanks, hunbroken, hc⟩ := h
  have htidied := tidied_tidy (before ++ line ++ (blanks ++ c :: after)) touched
  obtain ⟨whole, behind, htidy, hwhole, hbehind⟩ := htidied.split
  obtain ⟨left, spared, rfl, hleft, hspared⟩ := hwhole.split
  obtain ⟨kept, rest, rfl, hkept, hrest⟩ := hbehind.split
  rw [List.nil_append] at hspared hkept hrest
  have hstays : spared = line := hspared.keeps_solid hsolid hline
  have hkeptBlank : kept.isBlank = true := by
    rw [isBlank_iff_filter, hkept.ink, isBlank_iff_filter.1 hblanks]
  -- The line break is no padding, and the line before it has ink.
  have hpadding : isPadding c = false := by
    rw [breaksLine, Bool.or_eq_true, beq_iff_eq, beq_iff_eq] at hc
    rcases hc with rfl | rfl <;> decide
  have hlast : (lastLine (before ++ line ++ blanks)).isBlank = false := by
    obtain ⟨⟨d, more, rfl, hd⟩, -⟩ := hsolid
    rw [isInk, Bool.not_eq_true'] at hd
    rw [lastLine_append hunbroken, lastLine_append hline, isBlank, List.all_append,
      List.all_append, List.all_cons, hd, Bool.false_and, Bool.and_false, Bool.false_and]
  obtain ⟨more, rfl, -⟩ := hrest.keeps_first hpadding hlast
  exact ⟨left, kept, c, more, by rw [htidy, hstays], hleft.ink.trans hink, hkeptBlank,
    fun hmem => hunbroken (hkept.sublist.subset hmem), hc⟩

/-- A comment from two slashes on is its ink from the slashes on, and blanks. -/
theorem exists_trimEnd {text : Text} (h : startsWith text ['/', '/'] = true) :
    ∃ pad, text = trimEnd text ++ pad ∧ pad.isBlank = true ∧ (trimEnd text).Solid
      ∧ startsWith (trimEnd text) ['/', '/'] = true := by
  obtain ⟨pad, htext, hpad, hlast⟩ := exists_dropEndWhile isBlankChar text
  change text = trimEnd text ++ pad at htext
  change ∀ core c, trimEnd text = core ++ [c] → isBlankChar c = false at hlast
  rw [startsWith, List.isPrefixOf_iff_prefix] at h ⊢
  -- No slash is blank, so both stand before the blanks.
  have hstarts : ['/', '/'] <+: trimEnd text := by
    obtain ⟨more, hmore⟩ := h
    rw [htext] at hmore
    rcases List.append_eq_append_iff.1 hmore with ⟨rest, hcore, -⟩ | ⟨cut, hslashes, hcut⟩
    · exact ⟨rest, hcore.symm⟩
    · cases cut with
      | nil => exact ⟨[], by rw [hslashes, List.append_nil, List.append_nil]⟩
      | cons c cut =>
          have hmem : c ∈ ['/', '/'] := hslashes ▸ List.mem_append_right _ List.mem_cons_self
          have hc : c = '/' := by simpa using hmem
          have hblank := hpad c (hcut ▸ List.mem_append_left _ List.mem_cons_self)
          rw [hc] at hblank
          exact absurd hblank (by decide)
  obtain ⟨more, hmore⟩ := hstarts
  refine ⟨pad, htext, List.all_eq_true.2 hpad, ⟨⟨'/', '/' :: more, hmore.symm, by decide⟩, ?_⟩,
    ⟨more, hmore⟩⟩
  rcases List.eq_nil_or_concat (trimEnd text) with hnil | ⟨core, c, hconcat⟩
  · rw [hnil] at hmore
    exact absurd hmore (by simp only [List.cons_append, reduceCtorEq, not_false_eq_true])
  · rw [List.concat_eq_append] at hconcat
    exact ⟨core, c, hconcat, by rw [isInk, hlast core c hconcat]; rfl⟩

/-! ### The gaps of a wrap -/

/-- Whether a wrap of the gaps keeps the byte: it lies in none of them, or in a
    comment of the list that does. -/
def Place.keepsByte (list : Place) (gaps : List Span) (offset : Nat) : Bool :=
  gaps.all fun gap =>
    !gap.holds offset || (list.commentsIn gap).any fun comment => comment.span.holds offset

variable {document : Document} {list : Place} {indent : Text}

/-- Each edit of a wrap rebuilds a gap between children of the list. -/
theorem borders_of_mem_wrapEdits (hsound : document.Sound) (hlist : document.Has list)
    (parameters : List Place) {gapStart : Nat} (hstart : Document.Border list gapStart)
    (hchildren : ∀ parameter ∈ parameters, ∃ n, list.child? n = some parameter) {edit : Edit}
    (hedit : edit ∈ wrapEdits document list indent gapStart parameters) :
    Document.Border list edit.span.start ∧ Document.Border list edit.span.stop
      ∧ edit.text = leadingText document list edit.span indent := by
  induction parameters generalizing gapStart with
  | nil => exact absurd hedit List.not_mem_nil
  | cons parameter parameters ih =>
      obtain ⟨n, hn⟩ := hchildren parameter List.mem_cons_self
      rw [wrapEdits_cons] at hedit
      rcases List.mem_cons.1 hedit with rfl | hedit
      · exact ⟨hstart, hlist.border_start hsound hn, rfl⟩
      · refine ih ?_ (fun other hother => hchildren other (List.mem_cons_of_mem _ hother)) hedit
        obtain ⟨m, border, -, hm, hgapBehind, -⟩ := exists_gapBehind hn
        exact hgapBehind ▸ hlist.border_stop hsound hm

/-- A node below a list is not cut by an offset between the children of the
    list. -/
theorem Document.Border.outside {offset : Nat} (h : Document.Border list offset)
    (hsound : document.Sound) (hlist : document.Has list) {node : Place} (hbelow : Below list node)
    (hne : node ≠ list) : node.stop ≤ offset ∨ offset ≤ node.start := by
  rcases hbelow.head with rfl | ⟨n, child, hchild, hbelow⟩
  · exact absurd rfl hne
  · have hinside := (hlist.child hchild).inside hsound hbelow
    rcases h n child hchild with hle | hle
    · exact .inl (by omega)
    · exact .inr (by omega)

/-- A wrap that fits its source: its edits rebuild gaps that come in order and
    lie between the children of the list. -/
structure Wraps (document : Document) (list : Place) (indent : Text) (edits : List Edit) :
    Prop where
  sound : document.Sound
  has : document.Has list
  blank : indent.filter isInk = []
  parted : Edit.Parted edits
  fits : ∀ edit ∈ edits, edit.FitsIn document.source
  starts : ∀ edit ∈ edits, Document.Border list edit.span.start
  stops : ∀ edit ∈ edits, Document.Border list edit.span.stop
  text : ∀ edit ∈ edits, edit.text = leadingText document list edit.span indent

/-- The gaps before the parameters of a list make a wrap. -/
theorem wraps_of_edits {source : Text} {anchor : Span} {list : Place} {column : Nat}
    {edits : List Edit}
    (hat : (Document.parse source).root.at? anchor .parameterList = some list)
    (hedits : edits = Edit.inOrder (wrapEdits (.parse source) list (List.replicate column ' ')
      (list.start + 1) list.parameters)) :
    edits = wrapEdits (.parse source) list (List.replicate column ' ') (list.start + 1)
        list.parameters
      ∧ Wraps (.parse source) list (List.replicate column ' ') edits := by
  have hsound := Document.parse_sound source
  obtain ⟨hbelow, hkind, -⟩ := below_of_at? hat
  have hhas : (Document.parse source).Has list := hbelow
  obtain ⟨hparted, hfits⟩ := wrapEdits_fit hsound (Document.parse_walled source) hhas hkind
    (List.replicate column ' ')
  rw [Edit.inOrder_eq_self hparted.inChain fun edit hedit => (hfits edit hedit).1.forward] at hedits
  obtain ⟨hborder, -⟩ := hhas.list_brackets hsound hkind
  have hspec := fun edit (hedit : edit ∈ edits) =>
    borders_of_mem_wrapEdits hsound hhas list.parameters hborder
      (fun parameter hparameter => (mem_childrenOf.1 hparameter).1.1) (hedits ▸ hedit)
  exact ⟨hedits, hsound, hhas, filter_replicate_space column, hedits ▸ hparted,
    fun edit hedit => (hfits edit (hedits ▸ hedit)).1, fun edit hedit => (hspec edit hedit).1,
    fun edit hedit => (hspec edit hedit).2.1, fun edit hedit => (hspec edit hedit).2.2⟩

/-- The edits of a fix make a wrap. -/
theorem wraps_of_wrapParameters {source : Text} {width : Nat} {anchor : Span} {fix : Fix}
    (h : wrapParameters width (.parse source) anchor = .ok fix) :
    ∃ list indent, (Document.parse source).root.at? anchor .parameterList = some list
      ∧ Wraps (.parse source) list indent fix.edits := by
  obtain ⟨-, list, constructor, hat, -, -, hedits⟩ := wrapParameters_eq_ok h
  exact ⟨list, _, hat, (wraps_of_edits hat hedits).2⟩

namespace Wraps

variable {edits : List Edit} {edit : Edit} {comment : Place}

theorem chain (h : Wraps document list indent edits) : Edit.InChain edits :=
  h.parted.inChain

/-- Of two edits, one stops before the other starts. -/
theorem parted_of_ne {other : Edit} (h : Wraps document list indent edits) (hother : other ∈ edits)
    (hedit : edit ∈ edits) (hne : other ≠ edit) :
    other.span.stop < edit.span.start ∨ edit.span.stop < other.span.start := by
  have : Std.Symm fun a b : Edit => a.span.stop < b.span.start ∨ b.span.stop < a.span.start :=
    ⟨fun _ _ => Or.symm⟩
  have hpairs : edits.Pairwise fun a b =>
      a.span.stop < b.span.start ∨ b.span.stop < a.span.start := h.parted.imp .inl
  exact hpairs.forall hother hedit hne

/-- A comment of the list lies in a gap or outside of it. -/
theorem comment_apart (h : Wraps document list indent edits) (hedit : edit ∈ edits)
    (hcomment : Below list comment) (hne : comment ≠ list) :
    comment.stop ≤ edit.span.start ∨ edit.span.stop ≤ comment.start
      ∨ edit.span.start ≤ comment.start ∧ comment.stop ≤ edit.span.stop := by
  have hstart := (h.starts edit hedit).outside h.sound h.has hcomment hne
  have hstop := (h.stops edit hedit).outside h.sound h.has hcomment hne
  omega

/-- A byte in a gap is kept with the comments in it. -/
theorem keepsByte_in (h : Wraps document list indent edits) (hedit : edit ∈ edits) {n : Nat}
    (hfrom : edit.span.start ≤ n) (hto : n < edit.span.stop) :
    list.keepsByte (edits.map Edit.span) n
      = (list.commentsIn edit.span).any fun comment => comment.span.holds n := by
  have hholds : edit.span.holds n = true := Span.holds_iff.2 ⟨hfrom, hto⟩
  rw [Bool.eq_iff_iff, keepsByte, List.all_map, List.all_eq_true]
  constructor
  · intro hall
    have hkept := hall edit hedit
    rwa [Function.comp_apply, hholds, Bool.not_true, Bool.false_or] at hkept
  · -- The other gaps lie before this one or behind it.
    intro hkept other hother
    rw [Function.comp_apply]
    by_cases hsame : other = edit
    · rw [hsame, hkept, Bool.or_true]
    · have hnot : other.span.holds n = false := by
        rw [Span.not_holds_iff]
        rcases h.parted_of_ne hother hedit hsame with hlt | hlt <;> omega
      rw [hnot]
      rfl

/-- A byte outside the gaps is kept. -/
theorem keepsByte_outside {n : Nat} (h : ∀ edit ∈ edits, edit.span.holds n = false) :
    list.keepsByte (edits.map Edit.span) n = true := by
  rw [keepsByte, List.all_map, List.all_eq_true]
  intro edit hedit
  rw [Function.comp_apply, h edit hedit]
  rfl

/-- What the first edits put into a part of the source has the ink that is kept
    of the part. -/
theorem ink_of_first (h : Wraps document list indent edits) {first last : List Edit}
    {a b A : Text} (hedits : edits = first ++ last) (hsource : document.source = a ++ b)
    (hsplices : Edit.Splices 0 a first A) (hlast : ∀ edit ∈ last, size a ≤ edit.span.start) :
    A.filter isInk = inkAt (list.keepsByte (edits.map Edit.span)) 0 a := by
  have hwhole : document.source = [] ++ a ++ b := hsource
  refine hsplices.inkAt [] b hwhole rfl (fun edit hedit => ?_) fun n _ hto hnot => ?_
  · have hmem : edit ∈ edits := hedits ▸ List.mem_append_left _ hedit
    have hfit := h.fits edit hmem
    rw [h.text edit hmem]
    exact inkAt_gap h.sound h.has hfit.startCut hfit.stopCut hfit.forward
      (fun n hfrom hto => h.keepsByte_in hmem hfrom hto) h.blank
  · refine keepsByte_outside fun edit hedit => ?_
    rcases List.mem_append.1 (hedits ▸ hedit) with hedit | hedit
    · exact hnot edit hedit
    · have := hlast edit hedit
      exact Span.not_holds_iff.2 (.inl (by omega))

/-- A comment that no gap holds keeps the line break behind it. -/
theorem breaksAfter_spared {line x y spliced : Text} (h : Wraps document list indent edits)
    (hspliced : Edit.Splices 0 document.source edits spliced)
    (hsource : document.source = x ++ line ++ y)
    (hapart : ∀ edit ∈ edits, edit.span.stop ≤ size x ∨ size (x ++ line) ≤ edit.span.start)
    (hstarts : startsWith line ['/', '/'] = true) (hline : '\n' ∉ line)
    (hbreak : ∃ c rest, y = c :: rest ∧ breaksLine c = true) :
    spliced.BreaksAfter (inkAt (list.keepsByte (edits.map Edit.span)) 0 x) (trimEnd line) := by
  rw [hsource] at hspliced
  obtain ⟨first, last, X, Y, hedits, rfl, hfirst, hlast⟩ :=
    hspliced.around (by simpa only [Nat.zero_add] using hapart)
  -- What is put behind the comment begins with a line feed.
  obtain ⟨c, rest, rfl, hc⟩ := hlast.exists_first breaksLine hbreak fun edit hedit => by
    rw [h.text edit (hedits ▸ List.mem_append_right _ hedit), leadingText_eq]
    exact ⟨'\n', _, rfl, by decide⟩
  obtain ⟨pad, htext, hpad, -, -⟩ := exists_trimEnd hstarts
  refine ⟨X, pad, c, rest, ?_, ?_, hpad,
    fun hmem => hline (htext ▸ List.mem_append_right _ hmem), hc⟩
  · conv => enter [1, 1, 2]; rw [htext]
    simp only [List.append_assoc]
  · refine h.ink_of_first hedits (hsource.trans (List.append_assoc _ _ _)) hfirst
      fun edit hedit => ?_
    have := (hlast.forward hedit).1
    rw [size_append] at this
    omega

/-- A comment in a gap is written with a line feed behind it. -/
theorem breaksAfter_moved {x y spliced : Text} (h : Wraps document list indent edits)
    (hspliced : Edit.Splices 0 document.source edits spliced) (hedit : edit ∈ edits)
    (hcomment : comment ∈ list.commentsIn edit.span) (hsource : document.source = x ++ y)
    (hx : size x = comment.start)
    (hstarts : startsWith (document.textOf comment) ['/', '/'] = true) :
    spliced.BreaksAfter (inkAt (list.keepsByte (edits.map Edit.span)) 0 x)
      (trimEnd (document.textOf comment)) := by
  obtain ⟨first, last, hedits⟩ := List.append_of_mem hedit
  rw [hedits] at hspliced
  obtain ⟨a, old, b, A, B, hcut, rfl, ha, hold, hfirst, -⟩ := hspliced.exists_at
  rw [Nat.zero_add] at ha
  have hin := (mem_commentsIn.1 hcomment).2.2
  have hfit := h.fits edit hedit
  -- The source before the comment reaches into the gap.
  obtain ⟨m, rfl, hm⟩ : ∃ m, x = a ++ m ∧ old ++ b = m ++ y := by
    rw [hsource, List.append_assoc] at hcut
    exact exists_append_of_size_le hcut.symm (by omega)
  rw [size_append] at hx
  have hslice : document.source.slice ⟨edit.span.start, comment.start⟩ = m :=
    slice_eq_of_slice? (slice?_eq_some_iff.2 ⟨a, y, hsource, ha, by simp only; omega⟩)
  obtain ⟨cs, more, hcs⟩ := List.append_of_mem hcomment
  have hwritten : writtenComment document indent comment
      = trimEnd (document.textOf comment) ++ '\n' :: indent := by
    obtain ⟨-, -, -, -, htrimmed⟩ := exists_trimEnd hstarts
    rw [writtenComment]
    simp only [htrimmed, if_true]
  refine ⟨A ++ ('\n' :: indent ++ cs.flatMap (writtenComment document indent)), [], '\n',
    indent ++ more.flatMap (writtenComment document indent) ++ B, ?_, ?_, rfl,
    List.not_mem_nil, by decide⟩
  · rw [h.text edit hedit, leadingText_eq, hcs, List.flatMap_append, List.flatMap_cons, hwritten]
    simp only [List.append_assoc, List.cons_append, List.nil_append]
  · have hpairs := hcs ▸ pairwise_commentsIn h.sound h.has edit.span
    have hchain : Edit.InChain (first ++ edit :: last) := hedits ▸ h.chain
    have hlaid := (h.has.below (mem_commentsIn.1 hcomment).1).laidOut h.sound
    have hproper : comment.start ≤ comment.stop := hlaid.proper
    have hhead := h.ink_of_first hedits (hcut.trans (List.append_assoc _ _ _)) hfirst
      fun other hother => by
        have hforward := hfit.forward
        rcases List.mem_cons.1 hother with rfl | hother
        · omega
        · have hlater := List.rel_of_pairwise_cons (List.pairwise_append.1 hchain).2.1 hother
          omega
    -- The comments behind this one hold no byte before it.
    have hkeeps : ∀ n, edit.span.start ≤ n → n < comment.start →
        list.keepsByte (edits.map Edit.span) n = cs.any fun comment => comment.span.holds n := by
      intro n hfrom hto
      have hlate : ((comment :: more).any fun comment => comment.span.holds n) = false := by
        rw [List.any_eq_false]
        intro other hother
        rw [Bool.not_eq_true, Span.not_holds_iff]
        rcases List.mem_cons.1 hother with rfl | hother
        · exact .inl hto
        · have hlater := List.rel_of_pairwise_cons (List.pairwise_append.1 hpairs).2.1 hother
          exact .inl (show n < other.start by omega)
      rw [h.keepsByte_in hedit hfrom (by omega), hcs, List.any_append, hlate, Bool.or_false]
    have hgap : inkAt (list.keepsByte (edits.map Edit.span)) edit.span.start
        (document.source.slice ⟨edit.span.start, comment.start⟩)
          = (cs.flatMap (writtenComment document indent)).filter isInk :=
      inkAt_comments h.sound h.has hfit.startCut hlaid.startCut hin.1
      (hcs ▸ List.sublist_append_left cs (comment :: more))
      (fun other hother =>
        ⟨(mem_commentsIn.1 (hcs ▸ List.mem_append_left _ hother)).2.2.1,
          (List.pairwise_append.1 hpairs).2.2 other hother comment List.mem_cons_self⟩)
      hkeeps h.blank
    rw [List.filter_append, hhead, inkAt_append, Nat.zero_add, ha, ← hslice, hgap,
      List.cons_append, List.filter_cons_of_neg (by decide), List.filter_append, h.blank,
      List.nil_append]

end Wraps

/-- A comment of a parameter list that begins with two slashes ends before the
    bracket that closes the list, so something stands behind it. -/
theorem exists_behind_comment {source : Text} {list comment : Place}
    (hlist : (Document.parse source).Has list) (hkind : list.kind = .parameterList)
    (hbelow : Below list comment) (hne : comment ≠ list) {x y line : Text}
    (hsource : source = x ++ line ++ y) (hx : size x = comment.start)
    (hstop : comment.start + size line = comment.stop)
    (hstarts : startsWith line ['/', '/'] = true) : y ≠ [] := by
  have hsound := Document.parse_sound source
  obtain ⟨-, hborder, -, hle, -⟩ := hlist.list_brackets hsound hkind
  have hinside := hlist.inside hsound hbelow
  have hlast : list.stop ≤ size source := (hlist.laidOut hsound).stopCut.le
  have hslashes : 2 ≤ size line := by
    rw [startsWith, List.isPrefixOf_iff_prefix] at hstarts
    obtain ⟨more, rfl⟩ := hstarts
    rw [size_append]
    exact Nat.le_add_right _ _
  rintro rfl
  rw [hsource, List.append_nil, size_append] at hlast
  rcases hborder.outside hsound hlist hbelow hne with hbefore | hbehind <;> omega

/-- A wrap keeps the ink outside the gaps before the parameters and that of the
    comments in them, which is all ink if and only if nothing else stands in a
    gap; and each comment from two slashes on keeps its place in the ink and a
    line break behind it. -/
theorem wrapParameters_keeps_comments {source : Text} {width : Nat} {anchor : Span} {fix : Fix}
    (h : wrapParameters width (.parse source) anchor = .ok fix) :
    ∃ list after, (Document.parse source).root.at? anchor .parameterList = some list
      ∧ fix.apply source = .ok after
      ∧ after.filter isInk = inkAt (list.keepsByte (fix.edits.map Edit.span)) 0 source
      ∧ (after.filter isInk = source.filter isInk ↔ ∀ a c b, source = a ++ c :: b →
          isInk c = true → list.keepsByte (fix.edits.map Edit.span) (size a) = true)
      ∧ ∀ comment ∈ list.descendants, comment.kind = .comment →
          startsWith ((Document.parse source).textOf comment) ['/', '/'] = true →
          ∃ x y, source = x ++ (Document.parse source).textOf comment ++ y
            ∧ size x = comment.start
            ∧ after.BreaksAfter (inkAt (list.keepsByte (fix.edits.map Edit.span)) 0 x)
                (trimEnd ((Document.parse source).textOf comment)) := by
  obtain ⟨list, indent, hat, hwraps⟩ := wraps_of_wrapParameters h
  obtain ⟨-, hkind, -⟩ := below_of_at? hat
  have hsource : (Document.parse source).source = source := rfl
  obtain ⟨spliced, hspliced⟩ : ∃ new, Edit.Splices 0 source fix.edits new :=
    Edit.exists_splices [] source hwraps.chain hwraps.fits fun _ _ => Nat.zero_le _
  -- Tidying takes no ink, so the ink is that of the splice.
  have hink : (tidy spliced (Edit.landed 0 0 fix.edits)).filter isInk
      = inkAt (list.keepsByte (fix.edits.map Edit.span)) 0 source := by
    rw [(tidied_tidy spliced _).ink]
    exact hwraps.ink_of_first (List.append_nil _).symm (List.append_nil source).symm hspliced
      fun edit hedit => absurd hedit List.not_mem_nil
  refine ⟨list, tidy spliced (Edit.landed 0 0 fix.edits), hat, ?_, hink, ?_,
    fun comment hcomment hcommentKind hstarts => ?_⟩
  · rw [Fix.apply, Fix.applyEdits, hspliced.splice?_eq]
  · rw [hink, inkAt_eq_filter_iff]
    simp only [Nat.zero_add]
  · have hbelow := mem_descendants.1 hcomment
    have hne : comment ≠ list := by
      rintro rfl
      rw [hcommentKind] at hkind
      exact absurd hkind (by decide)
    have hhas := hwraps.has.below hbelow
    obtain ⟨hline, x, y, hcut, hx, hbreak⟩ := hhas.runsOut hcommentKind hstarts
    have hlaid := hhas.laidOut hwraps.sound
    have hsize : comment.start + size ((Document.parse source).textOf comment) = comment.stop :=
      size_slice hlaid.startCut hlaid.stopCut hlaid.proper
    have hfeed : '\n' ∉ (Document.parse source).textOf comment := fun hmem =>
      absurd (hline _ hmem) (by decide)
    obtain ⟨-, -, -, hsolid, -⟩ := exists_trimEnd hstarts
    refine ⟨x, y, hcut, hx, Text.BreaksAfter.tidy ?_ hsolid ?_ _⟩
    · -- A comment is moved with its gap, or no edit touches it.
      by_cases hmoved : ∃ edit ∈ fix.edits, edit.span.start ≤ comment.start
          ∧ comment.stop ≤ edit.span.stop
      · obtain ⟨edit, hedit, hin⟩ := hmoved
        exact hwraps.breaksAfter_moved hspliced hedit
          (mem_commentsIn.2 ⟨hbelow, hcommentKind, hin⟩)
          (hcut.trans (List.append_assoc _ _ _)) hx hstarts
      · refine hwraps.breaksAfter_spared hspliced hcut (fun edit hedit => ?_) hstarts hfeed ?_
        · rw [size_append]
          rcases hwraps.comment_apart hedit hbelow hne with hle | hle | hin
          · exact .inr (by omega)
          · exact .inl (by omega)
          · exact absurd ⟨edit, hedit, hin⟩ hmoved
        · -- The closing bracket stands behind the comment, so something does.
          have hbehind := exists_behind_comment hwraps.has hkind hbelow hne hcut hx hsize
            hstarts
          obtain ⟨c, rest, rfl⟩ := List.exists_cons_of_ne_nil hbehind
          exact ⟨c, rest, rfl, hbreak c rfl⟩
    · obtain ⟨pad, htext, -⟩ := exists_trimEnd hstarts
      exact fun hmem => hfeed (htext ▸ List.mem_append_left _ hmem)

/-- A list with a comment before its parameter. -/
def commentedListSource : Text :=
  "class C \x7b C(// one\nint a) \x7b \x7d \x7d".toList

set_option maxRecDepth 100000 in
theorem wrapParameters_keeps_comments_moved :
    ∃ fix after, wrapParameters 4 (.parse commentedListSource) ⟨11, 25⟩ = .ok fix
      ∧ fix.apply commentedListSource = .ok after
      ∧ after.filter isInk = commentedListSource.filter isInk
      ∧ after.BreaksAfter "classC\x7bC(".toList "// one".toList := by
  have hedits : ((wrapParameters 4 (.parse commentedListSource) ⟨11, 25⟩).toOption.map
      fun fix => fix.edits.map Edit.span) = some [⟨12, 19⟩] := by
    decide +kernel
  obtain ⟨fix, hfix, hspans⟩ := Option.map_eq_some_iff.1 hedits
  have hfix := eq_ok_of_toOption hfix
  obtain ⟨list, after, hat, happly, hink, -, hcomments⟩ := wrapParameters_keeps_comments hfix
  rw [hspans] at hink hcomments
  have hlist : ((Document.parse commentedListSource).root.at? ⟨11, 25⟩ .parameterList).map
      (fun list => (inkAt (list.keepsByte [⟨12, 19⟩]) 0 commentedListSource,
        inkAt (list.keepsByte [⟨12, 19⟩]) 0 (commentedListSource.take 12),
        list.descendants.any fun node => node.isA .comment && node.span == ⟨12, 18⟩))
      = some (commentedListSource.filter isInk, "classC\x7bC(".toList, true) := by
    decide +kernel
  rw [hat, Option.map_some, Option.some.injEq, Prod.mk.injEq, Prod.mk.injEq] at hlist
  obtain ⟨comment, hcomment, hspan⟩ := List.any_eq_true.1 hlist.2.2
  rw [Bool.and_eq_true, isA_iff, beq_iff_eq] at hspan
  have htext : (Document.parse commentedListSource).textOf comment = "// one".toList := by
    rw [Document.textOf, hspan.2]
    decide +kernel
  obtain ⟨x, y, hsource, hx, hbreaks⟩ := hcomments comment hcomment hspan.1 (by rw [htext]; decide)
  have hx : size x = 12 := hx.trans (congrArg Span.start hspan.2)
  have hbefore : x = commentedListSource.take 12 := by
    have hcut := List.take_append_drop 12 commentedListSource
    rw [List.append_assoc] at hsource
    refine (append_inj_of_size (hsource.symm.trans hcut.symm) (hx.trans ?_)).1
    decide +kernel
  have htrim : trimEnd "// one".toList = "// one".toList := by decide +kernel
  rw [htext, hbefore, hlist.2.1, htrim] at hbreaks
  exact ⟨fix, after, hfix, happly, hink.trans hlist.1, hbreaks⟩

/-- A list with a directive before its parameter. -/
def directiveListSource : Text :=
  "class C \x7b C(\n#pragma warning disable\nint a) \x7b \x7d \x7d".toList

set_option maxRecDepth 100000 in
/-- A directive in a gap is no comment, so the wrap takes it away. -/
theorem wrap_loses_directive :
    (Document.parse directiveListSource).hasErrors = false
      ∧ ∃ fix after, wrapParameters 4 (.parse directiveListSource) ⟨11, 43⟩ = .ok fix
        ∧ fix.apply directiveListSource = .ok after
        ∧ after.filter isInk = "classC\x7bC(inta)\x7b\x7d\x7d".toList
        ∧ directiveListSource.filter isInk
          = "classC\x7bC(#pragmawarningdisableinta)\x7b\x7d\x7d".toList := by
  refine ⟨by decide +kernel, ?_⟩
  have hfix : ((wrapParameters 4 (.parse directiveListSource) ⟨11, 43⟩).toOption.map
      fun fix => (fix.apply directiveListSource).toOption.map (List.filter isInk))
        = some (some "classC\x7bC(inta)\x7b\x7d\x7d".toList) := by
    decide +kernel
  obtain ⟨fix, hfix, happly⟩ := Option.map_eq_some_iff.1 hfix
  obtain ⟨after, hafter, hink⟩ := Option.map_eq_some_iff.1 happly
  exact ⟨fix, after, eq_ok_of_toOption hfix, eq_ok_of_toOption hafter, hink, by decide +kernel⟩

end SharpLint

import Mathlib.Data.List.Induction
import SharpLint.Proofs.Lint.LineEndings
import SharpLint.Proofs.Lint.WrapKeeps

/-!
# The Lines of Wrapped Parameters

A wrap puts a line feed, the indent and the comments of the gap before each
parameter, and another line feed and the indent behind each comment that begins
with two slashes. So on the line of the parameter there stand the indent and the
comments behind the last of those, which are block comments.

Tidying keeps all of that. The line feed stands behind ink, that of the child
before the gap or of a comment, the indent stands before ink, and block comments
lose blanks only where they break a line themselves.

This is told of the parameters of the tree. An array at the end of a list, which
takes all further arguments, is none of them: no gap is before it, and it stays
on the line of the parameter before it.

## Main definitions

* `Document.InkBefore`: a child of the list ends there, and with ink.
* `Document.blockText`: block comments as they are put before a parameter.
* `Text.LosesBlanks`: what tidying may leave of a text before ink.
* `Document.OnOwnLine`: a parameter stands behind the indent and block comments.

## Theorems

* `leadingText_split`: The last line of what is put into a gap.
* `inkBefore_of_mem_wrapEdits`: Each gap starts behind ink.
* `Wraps.exists_upto`: The splice up to a wrapped parameter.
* `Tidied.exists_lead`: What tidying leaves of the line before a parameter.
* `wrapParameters_own_lines`: Each parameter of the tree stands on its own line.
-/

namespace SharpLint

open Text Place

/-! ### Nodes bounded by ink -/

namespace Document

variable {document : Document} {list node : Place}

/-- A node stands where its text does. -/
theorem Has.holdsAt (hnode : document.Has node) (hsound : document.Sound) :
    document.source.HoldsAt node.start (document.textOf node)
      ∧ node.start + size (document.textOf node) = node.stop := by
  have hlaid := hnode.laidOut hsound
  obtain ⟨text, htext⟩ : ∃ text, document.source.slice? node.span = some text :=
    hlaid.startCut.slice? hlaid.stopCut hlaid.proper
  rw [Document.textOf, slice_eq_of_slice? htext]
  exact slice?_eq_some_iff_holdsAt.1 htext

/-- What a node that begins with a piece begins with. -/
theorem Begins.text (h : document.Begins node) (hsound : document.Sound)
    (hnode : document.Has node) :
    ∃ c rest, document.textOf node = c :: rest ∧ isInk c = true := by
  obtain ⟨first, hpiece, hbelow, hstart⟩ := h
  obtain ⟨text, hholds, hsize, ⟨c, rest, rfl, hc⟩, -⟩ := hpiece.solid
  have hinside := hnode.inside hsound hbelow
  have hlaid := hnode.laidOut hsound
  have hfirst : document.source.slice ⟨node.start, first.stop⟩ = c :: rest :=
    slice_eq_of_slice? (slice?_eq_some_iff_holdsAt.2 ⟨hstart ▸ hholds, hstart ▸ hsize⟩)
  have hcut : document.textOf node = document.source.slice ⟨node.start, first.stop⟩
      ++ document.source.slice ⟨first.stop, node.stop⟩ :=
    slice_append hlaid.startCut (hsize ▸ hholds.cutsAt_stop) hlaid.stopCut
      (Nat.le_of_lt (Nat.lt_of_le_of_lt hinside.1 hpiece.start_lt_stop)) hinside.2
  exact ⟨c, _, by rw [hcut, hfirst, List.cons_append], hc⟩

/-- What a node that ends with a piece ends with. -/
theorem Ends.text (h : document.Ends node) (hsound : document.Sound) (hnode : document.Has node) :
    ∃ core c, document.textOf node = core ++ [c] ∧ isInk c = true := by
  obtain ⟨last, hpiece, hbelow, hstop⟩ := h
  obtain ⟨text, hholds, hsize, -, core, c, rfl, hc⟩ := hpiece.solid
  have hinside := hnode.inside hsound hbelow
  have hlaid := hnode.laidOut hsound
  have hlast : document.source.slice ⟨last.start, node.stop⟩ = core ++ [c] :=
    slice_eq_of_slice? (slice?_eq_some_iff_holdsAt.2 ⟨hholds, hsize.trans hstop⟩)
  have hcut : document.textOf node = document.source.slice ⟨node.start, last.start⟩
      ++ document.source.slice ⟨last.start, node.stop⟩ :=
    slice_append hlaid.startCut hholds.cutsAt hlaid.stopCut hinside.1
      (Nat.le_of_lt (Nat.lt_of_lt_of_le hpiece.start_lt_stop hinside.2))
  exact ⟨_, c, by rw [hcut, hlast, ← List.append_assoc], hc⟩

/-- A child of the list ends at the offset, and with ink. -/
def InkBefore (document : Document) (list : Place) (offset : Nat) : Prop :=
  ∃ n child core c, list.child? n = some child ∧ child.stop = offset
    ∧ document.textOf child = core ++ [c] ∧ isInk c = true

/-- Parameters and commas end with ink. -/
theorem Has.inkBefore (hlist : document.Has list) (hsound : document.Sound)
    (hwalled : document.Walled) (hended : document.Ended) {n : Nat}
    (hchild : list.child? n = some node) (hkind : node.kind.mayClose = true) :
    document.InkBefore list node.stop := by
  obtain ⟨core, c, htext, hc⟩ :=
    (hlist.ends_of_mayClose hsound hwalled hended hchild hkind).text hsound (hlist.child hchild)
  exact ⟨n, node, core, c, hchild, rfl, htext, hc⟩

/-- A parameter begins and ends with ink. -/
theorem Has.solid_parameter (hlist : document.Has list) (hsound : document.Sound)
    (hwalled : document.Walled) (hended : document.Ended) {n : Nat}
    (hchild : list.child? n = some node) (hkind : node.kind = .parameter) :
    (document.textOf node).Solid :=
  ⟨(hlist.begins hsound hwalled hchild (by rw [hkind]; rfl)).text hsound (hlist.child hchild),
    (hlist.ends_of_mayClose hsound hwalled hended hchild (by rw [hkind]; rfl)).text hsound
      (hlist.child hchild)⟩

/-- The bracket that opens a parameter list is ink. -/
theorem Has.inkBefore_first (hlist : document.Has list) (hsound : document.Sound)
    (hkind : list.kind = .parameterList) : document.InkBefore list (list.start + 1) := by
  obtain ⟨opening, closing, n, hopening, -, hstart, -, hlexeme, -⟩ := hlist.list_ends hsound hkind
  have hhas := hlist.child hopening
  have hne : opening.node.lexeme ≠ "" := by
    intro hempty
    rw [hempty, String.toList_empty] at hlexeme
    exact List.cons_ne_nil _ _ hlexeme.symm
  have htext : document.textOf opening = ['('] :=
    (slice_eq_of_slice? ((hhas.laidOut hsound).token hne)).trans hlexeme
  have hstop : opening.start + 1 = opening.stop := hhas.stop_of_char hsound hlexeme
  exact ⟨0, opening, [], '(', hopening, by rw [← hstop, hstart], htext, by decide⟩

end Document

/-! ### What is put into a gap -/

/-- What the trimmed text starts with, the text starts with. -/
theorem startsWith_of_trimEnd {text part : Text} (h : startsWith (trimEnd text) part = true) :
    startsWith text part = true := by
  obtain ⟨pad, htext, -⟩ := exists_dropEndWhile isBlankChar text
  rw [startsWith, List.isPrefixOf_iff_prefix] at h ⊢
  exact h.trans ⟨pad, htext.symm⟩

/-- Trimming leaves ink at the start. -/
theorem head?_trimEnd {text : Text} {c : Char} (h : text.head? = some c) (hc : isInk c = true) :
    (trimEnd text).head? = some c := by
  obtain ⟨pad, htext, hpad, -⟩ := exists_dropEndWhile isBlankChar text
  change text = trimEnd text ++ pad at htext
  cases hcore : trimEnd text with
  | nil =>
      rw [hcore, List.nil_append] at htext
      rw [isInk, hpad c (List.mem_of_head? (htext ▸ h))] at hc
      exact absurd hc (by decide)
  | cons d rest =>
      rw [htext, hcore] at h
      exact h

/-- Comments as they are put before a parameter on its line. -/
def Document.blockText (document : Document) (comments : List Place) : Text :=
  comments.flatMap fun comment => trimEnd (document.textOf comment) ++ [' ']

/-- The last line of what is put into a gap: a line feed, the indent, and the
    comments behind the last one that begins with two slashes. -/
theorem leadingText_split (document : Document) (list : Place) (gap : Span) (indent : Text) :
    ∃ lines blocks, leadingText document list gap indent
        = lines ++ '\n' :: (indent ++ document.blockText blocks)
      ∧ blocks <:+ list.commentsIn gap
      ∧ (∀ block ∈ blocks, startsWith (document.textOf block) ['/', '/'] = false)
      ∧ (lines = [] ∨ ∃ core c, lines = core ++ [c] ∧ isInk c = true) := by
  rw [leadingText_eq]
  generalize list.commentsIn gap = comments
  induction comments using List.reverseRecOn with
  | nil => exact ⟨[], [], rfl, List.suffix_refl [], fun _ hmem => absurd hmem List.not_mem_nil,
      .inl rfl⟩
  | append_singleton comments comment ih =>
      obtain ⟨lines, blocks, htext, hblocks, hnot, hlines⟩ := ih
      rw [List.flatMap_append, List.flatMap_singleton, ← List.append_assoc, htext]
      by_cases hstarts : startsWith (document.textOf comment) ['/', '/'] = true
      · -- The line feed behind the comment is the last one now.
        obtain ⟨-, -, -, ⟨-, core, c, hcore, hc⟩, htrim⟩ := exists_trimEnd hstarts
        refine ⟨lines ++ '\n' :: (indent ++ document.blockText blocks)
          ++ trimEnd (document.textOf comment), [], ?_, List.nil_suffix,
          fun _ hmem => absurd hmem List.not_mem_nil,
          .inr ⟨lines ++ '\n' :: (indent ++ document.blockText blocks) ++ core, c, ?_, hc⟩⟩
        · simp only [writtenComment, htrim, if_true, Document.blockText, List.flatMap_nil,
            List.append_nil, List.append_assoc]
        · rw [hcore, ← List.append_assoc]
      · have hblock : startsWith (trimEnd (document.textOf comment)) ['/', '/'] = false :=
          Bool.eq_false_iff.2 fun htrim => hstarts (startsWith_of_trimEnd htrim)
        refine ⟨lines, blocks ++ [comment], ?_, ?_, fun block hmem => ?_, hlines⟩
        · simp only [writtenComment, hblock, Bool.false_eq_true, if_false, Document.blockText,
            List.flatMap_append, List.flatMap_singleton, List.append_assoc, List.cons_append]
        · obtain ⟨passed, rfl⟩ := hblocks
          exact ⟨passed, (List.append_assoc ..).symm⟩
        · rcases List.mem_append.1 hmem with hmem | hmem
          · exact hnot block hmem
          · rw [List.mem_singleton.1 hmem]
            exact Bool.eq_false_iff.2 hstarts

/-- What block comments are written as begins with ink. -/
theorem blockText_append {source : Text} {blocks : List Place} {c : Char} {rest : Text}
    (hblocks : ∀ block ∈ blocks, (Document.parse source).Has block ∧ block.kind = .comment)
    (hc : isInk c = true) :
    ∃ d more, (Document.parse source).blockText blocks ++ c :: rest = d :: more
      ∧ isInk d = true := by
  cases blocks with
  | nil => exact ⟨c, rest, rfl, hc⟩
  | cons block blocks =>
      obtain ⟨hhas, hkind⟩ := hblocks block List.mem_cons_self
      obtain ⟨more, hmore⟩ := List.head?_eq_some_iff.1
        (head?_trimEnd (hhas.head?_comment hkind) (by decide))
      refine ⟨'/', more ++ [' '] ++ (Document.parse source).blockText blocks ++ c :: rest, ?_,
        by decide⟩
      simp only [Document.blockText, List.flatMap_cons, hmore, List.cons_append]

/-- What tidying may leave of a text before ink: it loses blanks at most, and
    none if it stands on one line. -/
structure Text.LosesBlanks (text left : Text) : Prop where
  sublist : left.Sublist text
  ink : left.filter isInk = text.filter isInk
  line : '\n' ∉ text → left = text

/-- Tidying leaves the line feed behind ink and the indent before ink. -/
theorem Tidied.exists_lead {touched : Nat → Bool} {head indent text after left : Text}
    (h : Tidied touched [] (head ++ '\n' :: (indent ++ text)) after left)
    (hhead : ∃ core c, head = core ++ [c] ∧ isInk c = true) (hindent : '\n' ∉ indent)
    (htext : ∃ c rest, text ++ after = c :: rest ∧ isInk c = true)
    (hafter : ∃ c rest, after = c :: rest ∧ isInk c = true) :
    ∃ before lead, left = before ++ '\n' :: (indent ++ lead) ∧ text.LosesBlanks lead := by
  obtain ⟨before, broken, rfl, -, hbroken⟩ := h.split
  rw [List.nil_append] at hbroken
  obtain ⟨core, c, rfl, hc⟩ := hhead
  -- The line before the line feed is not blank, and the indent is no padding.
  obtain ⟨line, rfl, hline⟩ := hbroken.keeps_first (by decide) (not_isBlank_lastLine hc)
  obtain ⟨spaces, lead, rfl, hspaces, hlead⟩ := hline.split
  obtain ⟨d, rest, hd, hdInk⟩ := htext
  rw [hd] at hspaces
  obtain rfl : spaces = indent := hspaces.keeps_before_ink hindent hdInk
  refine ⟨before, lead, rfl, hlead.sublist, hlead.ink, fun hunbroken => ?_⟩
  obtain ⟨e, more, rfl, he⟩ := hafter
  exact hlead.keeps_before_ink hunbroken he

/-! ### The gaps of a list -/

section

variable {document : Document} {list : Place} {indent : Text}

/-- Each gap starts behind ink. -/
theorem inkBefore_of_mem_wrapEdits (hsound : document.Sound) (hwalled : document.Walled)
    (hended : document.Ended) (hlist : document.Has list) (parameters : List Place)
    {gapStart : Nat} (hstart : document.InkBefore list gapStart)
    (hchildren : ∀ parameter ∈ parameters, (∃ n, list.child? n = some parameter)
      ∧ parameter.kind = .parameter) {edit : Edit}
    (hedit : edit ∈ wrapEdits document list indent gapStart parameters) :
    document.InkBefore list edit.span.start := by
  induction parameters generalizing gapStart with
  | nil => exact absurd hedit List.not_mem_nil
  | cons parameter parameters ih =>
      obtain ⟨⟨n, hn⟩, hkind⟩ := hchildren parameter List.mem_cons_self
      rw [wrapEdits_cons] at hedit
      rcases List.mem_cons.1 hedit with rfl | hedit
      · exact hstart
      · refine ih ?_ (fun other hother => hchildren other (List.mem_cons_of_mem _ hother)) hedit
        obtain ⟨m, border, -, hm, hgapBehind, hborder, -⟩ := exists_gapBehind hn
        rw [hgapBehind]
        refine hlist.inkBefore hsound hwalled hended hm ?_
        rcases hborder with rfl | hcomma
        · rw [hkind]
          rfl
        · rw [hcomma]
          rfl

/-- A gap stops where each parameter starts. -/
theorem exists_mem_wrapEdits {parameters : List Place} {parameter : Place}
    (hparameter : parameter ∈ parameters) (gapStart : Nat) :
    ∃ edit ∈ wrapEdits document list indent gapStart parameters,
      edit.span.stop = parameter.start := by
  induction parameters generalizing gapStart with
  | nil => exact absurd hparameter List.not_mem_nil
  | cons first parameters ih =>
      rw [wrapEdits_cons]
      rcases List.mem_cons.1 hparameter with rfl | hparameter
      · exact ⟨_, List.mem_cons_self, rfl⟩
      · obtain ⟨edit, hedit, hstop⟩ := ih hparameter (gapBehind first)
        exact ⟨edit, List.mem_cons_of_mem _ hedit, hstop⟩

namespace Wraps

variable {edits first last : List Edit} {edit : Edit}

/-- No edit meets the child before which one of them stops. -/
theorem apart_child (h : Wraps document list indent edits) {n : Nat} {child : Place}
    (hchild : list.child? n = some child) (hedit : edit ∈ edits)
    (hstop : edit.span.stop = child.start) :
    ∀ other ∈ edits, other.span.stop ≤ child.start ∨ child.stop ≤ other.span.start := by
  intro other hother
  have hspan := h.has.child_span h.sound hchild
  have hstarts := h.starts other hother n child hchild
  have hstops := h.stops other hother n child hchild
  have hforward := (h.fits edit hedit).forward
  have hotherForward := (h.fits other hother).forward
  by_cases hsame : other = edit
  · rw [hsame]
    exact .inl (Nat.le_of_eq hstop)
  · -- The others lie before the edit, or start behind where the child does.
    rcases h.parted_of_ne hother hedit hsame with hlt | hlt
    · exact .inl (by omega)
    · exact .inr (by omega)

/-- Up to where one of the edits stops, what the edits yield is what those
    before it yield, and its text. -/
theorem exists_upto {x X : Text} (h : Wraps document list indent edits)
    (hedits : edits = first ++ last) (hsplices : Edit.Splices 0 x first X) (hedit : edit ∈ first)
    (hstop : edit.span.stop = size x) :
    ∃ init a old A, first = init ++ [edit] ∧ x = a ++ old ∧ X = A ++ edit.text
      ∧ size a = edit.span.start ∧ Edit.Splices 0 a init A := by
  obtain ⟨init, tail, rfl⟩ := List.append_of_mem hedit
  -- An edit behind this one would stop past the end.
  have htail : tail = [] := by
    refine List.eq_nil_iff_forall_not_mem.2 fun other hother => ?_
    have hparted := (List.pairwise_append.1 (hedits ▸ h.parted : Edit.Parted _)).1
    have hlt := List.rel_of_pairwise_cons (List.pairwise_append.1 hparted).2.1 hother
    have hforward := hsplices.forward
      (List.mem_append_right init (List.mem_cons_of_mem edit hother))
    omega
  subst htail
  obtain ⟨a, old, b, A, B, rfl, rfl, ha, hold, hinit, hnone⟩ := hsplices.exists_at
  simp only [size_append, Nat.zero_add] at hstop ha
  obtain rfl : b = [] := eq_nil_of_size (by omega)
  obtain rfl : B = [] := hnone.unique .nil
  exact ⟨init, a, old, A, rfl, List.append_nil _, List.append_nil _, ha, hinit⟩

/-- What the edits before a gap yield ends with the ink before the gap. -/
theorem exists_ink {init : List Edit} {a b A : Text} (h : Wraps document list indent edits)
    (hinit : ∀ other ∈ init, other ∈ edits ∧ other.span.stop < size a)
    (hsource : document.source = a ++ b) (hsplices : Edit.Splices 0 a init A)
    (hink : document.InkBefore list (size a)) : ∃ core c, A = core ++ [c] ∧ isInk c = true := by
  obtain ⟨n, child, core, c, hchild, hstop, htext, hc⟩ := hink
  obtain ⟨⟨before, after, hcut, hbefore⟩, hsize⟩ := (h.has.child hchild).holdsAt h.sound
  rw [htext] at hcut hsize
  obtain ⟨rfl, -⟩ : a = before ++ (core ++ [c]) ∧ b = after :=
    append_inj_of_size (hsource.symm.trans hcut) (by rw [size_append]; omega)
  rw [← List.append_nil (before ++ (core ++ [c]))] at hsplices
  obtain ⟨spared, behind, X, Y, rfl, rfl, -, hbehind⟩ := hsplices.around fun other hother => by
    obtain ⟨hmem, hlt⟩ := hinit other hother
    have hborder := h.stops other hmem n child hchild
    exact .inl (by omega)
  -- An edit behind the child would stop past the gap's start.
  have hnone : behind = [] := by
    refine List.eq_nil_iff_forall_not_mem.2 fun other hother => ?_
    have hlt := (hinit other (List.mem_append_right _ hother)).2
    have hforward := hbehind.forward hother
    omega
  subst hnone
  obtain rfl : Y = [] := hbehind.unique .nil
  exact ⟨X ++ core, c, by simp only [List.append_assoc, List.append_nil], hc⟩

/-- The last line of what the edits yield up to where one of them stops. -/
theorem exists_lastLine {x y X : Text} (h : Wraps document list indent edits)
    (hedits : edits = first ++ last) (hsource : document.source = x ++ y)
    (hsplices : Edit.Splices 0 x first X) (hedit : edit ∈ first) (hstop : edit.span.stop = size x)
    (hink : document.InkBefore list edit.span.start) :
    ∃ head blocks, X = head ++ '\n' :: (indent ++ document.blockText blocks)
      ∧ (∃ core c, head = core ++ [c] ∧ isInk c = true)
      ∧ blocks <:+ list.commentsIn edit.span
      ∧ ∀ block ∈ blocks, startsWith (document.textOf block) ['/', '/'] = false := by
  obtain ⟨init, a, old, A, rfl, rfl, rfl, ha, hinit⟩ := h.exists_upto hedits hsplices hedit hstop
  have hmem {other : Edit} (hother : other ∈ init ++ [edit]) : other ∈ edits :=
    hedits ▸ List.mem_append_left last hother
  have hparted := (List.pairwise_append.1 (hedits ▸ h.parted : Edit.Parted _)).1
  -- What the edits before this one yield ends with ink, for there is ink before its gap.
  obtain ⟨core, c, rfl, hc⟩ : ∃ core c, A = core ++ [c] ∧ isInk c = true := by
    refine h.exists_ink (fun other hother => ⟨hmem (List.mem_append_left _ hother), ?_⟩)
      (hsource.trans (List.append_assoc ..)) hinit (ha ▸ hink)
    rw [ha]
    exact (List.pairwise_append.1 hparted).2.2 other hother edit (List.mem_singleton_self _)
  obtain ⟨lines, blocks, htext, hblocks, hnot, hlines⟩ :=
    leadingText_split document list edit.span indent
  refine ⟨core ++ [c] ++ lines, blocks, ?_, ?_, hblocks, hnot⟩
  · rw [h.text edit (hmem hedit), htext, ← List.append_assoc]
  · rcases hlines with rfl | ⟨more, d, rfl, hd⟩
    · exact ⟨core, c, List.append_nil _, hc⟩
    · exact ⟨core ++ [c] ++ more, d, (List.append_assoc ..).symm, hd⟩

end Wraps

end

/-! ### Parameters on their lines -/

/-- In the text `after`, the parameter stands on a line of its own: behind a
    line feed there are the indent and those comments of its gap that stand
    behind the last one from two slashes on, and before all that the ink that is
    kept of what stood before the parameter. Of the parameter itself, the first
    line may lose blanks at its end, if it has more than one. -/
def Document.OnOwnLine (document : Document) (list parameter : Place) (gaps : List Span)
    (indent after : Text) : Prop :=
  ∃ (gap : Span) (blocks : List Place) (x y before lead behind : Text),
    gap ∈ gaps ∧ gap.stop = parameter.start ∧ blocks <:+ list.commentsIn gap
      ∧ (∀ block ∈ blocks, startsWith (document.textOf block) ['/', '/'] = false)
      ∧ (document.blockText blocks).LosesBlanks lead
      ∧ document.source = x ++ y ∧ size x = parameter.start
      ∧ after = before ++ '\n' :: (indent ++ lead)
        ++ (document.textOf parameter).trimFirstLine ++ behind
      ∧ (before ++ lead).filter isInk = inkAt (list.keepsByte gaps) 0 x

/-- A signature starts at a cut. -/
theorem Document.Has.cutsAt_signatureStart {document : Document} {constructor : Place}
    (hconstructor : document.Has constructor) (hsound : document.Sound) :
    document.source.CutsAt constructor.signatureStart := by
  unfold signatureStart
  split
  · next first hfirst =>
    rcases Option.or_eq_some_iff.1 hfirst with hfirst | ⟨-, hfirst⟩
    · obtain ⟨⟨n, hn⟩, -⟩ := child?_of_firstOf? hfirst
      exact ((hconstructor.child hn).laidOut hsound).startCut
    · obtain ⟨⟨n, hn⟩, -⟩ := child?_of_labelled? hfirst
      exact ((hconstructor.child hn).laidOut hsound).startCut
  · exact (hconstructor.laidOut hsound).startCut

/-- Where all gaps start behind ink, a parameter before which one of them stops
    gets a line of its own. -/
theorem Wraps.onOwnLine {source : Text} {list parameter : Place} {width n : Nat}
    {edits : List Edit} {edit : Edit} {spliced : Text}
    (h : Wraps (.parse source) list (List.replicate width ' ') edits)
    (hspliced : Edit.Splices 0 source edits spliced) (hchild : list.child? n = some parameter)
    (hkind : parameter.kind = .parameter) (hedit : edit ∈ edits)
    (hstop : edit.span.stop = parameter.start)
    (hink : (Document.parse source).InkBefore list edit.span.start) :
    (Document.parse source).OnOwnLine list parameter (edits.map Edit.span)
      (List.replicate width ' ') (tidy spliced (Edit.landed 0 0 edits)) := by
  have hsolid := h.has.solid_parameter h.sound (Document.parse_walled source)
    (Document.parse_ended source) hchild hkind
  obtain ⟨⟨x, y, hcut, hx⟩, hsize⟩ := (h.has.child hchild).holdsAt h.sound
  have hfar : size (x ++ (Document.parse source).textOf parameter) = parameter.stop := by
    rw [size_append, hx, hsize]
  have hapart : ∀ other ∈ edits, other.span.stop ≤ size x
      ∨ size (x ++ (Document.parse source).textOf parameter) ≤ other.span.start := by
    rw [hx, hfar]
    exact h.apart_child hchild hedit hstop
  have hwhole : Edit.Splices 0 (x ++ (Document.parse source).textOf parameter ++ y) edits
      spliced := by
    rw [← hcut]
    exact hspliced
  -- The parameter is spared, so what stands before it is tidied for itself.
  obtain ⟨first, last, X, Y, touched, left, behind, hedits, hfirst, hsplices, hlast, htidied,
    htidy⟩ := hwhole.tidied_behind hsolid hapart hedit (hstop.trans hx.symm)
  have hsource := hcut.trans (List.append_assoc ..)
  obtain ⟨head, blocks, hX, hhead, hblocks, hnot⟩ :=
    h.exists_lastLine hedits hsource hsplices hfirst (hstop.trans hx.symm) hink
  have hcomments : ∀ block ∈ blocks, (Document.parse source).Has block ∧ block.kind = .comment :=
    fun block hblock => by
      obtain ⟨hbelow, hcomment, -⟩ := mem_commentsIn.1 (hblocks.subset hblock)
      exact ⟨h.has.below hbelow, hcomment⟩
  obtain ⟨c, rest, htext, hc⟩ := hsolid.1
  have hafter : (Document.parse source).textOf parameter ++ Y = c :: (rest ++ Y) := by
    rw [htext, List.cons_append]
  have hindent : '\n' ∉ List.replicate width ' ' := fun hmem =>
    absurd (List.eq_of_mem_replicate hmem) (by decide)
  obtain ⟨before, lead, hleft, hloses⟩ := (hX ▸ htidied).exists_lead hhead hindent
    (hafter ▸ blockText_append hcomments hc) ⟨c, _, hafter, hc⟩
  refine ⟨edit.span, blocks, x, _, before, lead, behind, List.mem_map_of_mem hedit, hstop, hblocks,
    hnot, hloses, hsource, hx, hleft ▸ htidy, ?_⟩
  -- The line feed and the indent are no ink.
  have hkept := h.ink_of_first hedits hsource hsplices hlast
  rw [← htidied.ink, hleft, List.filter_append, List.filter_cons_of_neg (by decide),
    List.filter_append, filter_replicate_space, List.nil_append, ← List.filter_append] at hkept
  exact hkept

/-- A wrap puts every parameter of the tree on a line of its own, indented
    further than the signature of the constructor. -/
theorem wrapParameters_own_lines {source : Text} {width : Nat} {anchor : Span} {fix : Fix}
    (h : wrapParameters width (.parse source) anchor = .ok fix) :
    ∃ list constructor column after,
      (Document.parse source).root.at? anchor .parameterList = some list
      ∧ list.parent? = some constructor ∧ constructor.kind = .constructorDeclaration
      ∧ source.column? (.ofText source) constructor.signatureStart = some column
      ∧ fix.apply source = .ok after
      ∧ ∀ parameter ∈ list.parameters, (Document.parse source).OnOwnLine list parameter
          (fix.edits.map Edit.span) (List.replicate (column + width) ' ') after := by
  have hsound := Document.parse_sound source
  obtain ⟨-, list, constructor, hat, hparent, hconstructor, hedits⟩ := wrapParameters_eq_ok h
  obtain ⟨hbelow, hkind, -⟩ := below_of_at? hat
  have hhas : (Document.parse source).Has list := hbelow
  obtain ⟨column, hcolumn⟩ :=
    ((hhas.parent hparent).1.cutsAt_signatureStart hsound).exists_column
  have hlines : (Document.parse source).source.column? (Document.parse source).lines
      constructor.signatureStart = some column := hcolumn
  rw [hlines, Option.getD_some] at hedits
  obtain ⟨hedits, hwraps⟩ := wraps_of_edits hat hedits
  obtain ⟨spliced, hspliced⟩ : ∃ new, Edit.Splices 0 source fix.edits new :=
    Edit.exists_splices [] source hwraps.chain hwraps.fits fun _ _ => Nat.zero_le _
  refine ⟨list, constructor, column, tidy spliced (Edit.landed 0 0 fix.edits), hat, hparent,
    hconstructor, hcolumn, ?_, fun parameter hparameter => ?_⟩
  · rw [Fix.apply, Fix.applyEdits, hspliced.splice?_eq]
  · have hchildren : ∀ parameter ∈ list.parameters,
        (∃ n, list.child? n = some parameter) ∧ parameter.kind = .parameter :=
      fun parameter hmem => have hchild := mem_childrenOf.1 hmem
        ⟨hchild.1.1, hchild.2⟩
    obtain ⟨⟨n, hn⟩, hparameterKind⟩ := hchildren parameter hparameter
    obtain ⟨edit, hedit, hstop⟩ : ∃ edit ∈ fix.edits, edit.span.stop = parameter.start :=
      hedits ▸ exists_mem_wrapEdits hparameter (list.start + 1)
    -- The first gap starts behind the bracket, the others behind commas or parameters.
    have hink := inkBefore_of_mem_wrapEdits hsound (Document.parse_walled source)
      (Document.parse_ended source) hhas list.parameters (hhas.inkBefore_first hsound hkind)
      hchildren (hedits ▸ hedit)
    exact hwraps.onOwnLine hspliced hn hparameterKind hedit hstop hink

/-- A list with a comment of either kind before a parameter. -/
def listedSource : Text :=
  "class C \x7b C(/* a */ int x, // b\nint y) \x7b \x7d \x7d".toList

set_option maxRecDepth 100000 in
theorem wrapParameters_own_lines_listed :
    ∃ fix list, wrapParameters 4 (.parse listedSource) ⟨11, 38⟩ = .ok fix
      ∧ (Document.parse listedSource).root.at? ⟨11, 38⟩ .parameterList = some list
      ∧ list.parameters.length = 2
      ∧ ∀ parameter ∈ list.parameters, (Document.parse listedSource).OnOwnLine list parameter
          (fix.edits.map Edit.span) (List.replicate 14 ' ')
          ("class C \x7b C(\n              /* a */ int x,\n              // b\n"
            ++ "              int y) \x7b \x7d \x7d").toList := by
  have hfix : ((wrapParameters 4 (.parse listedSource) ⟨11, 38⟩).toOption.map
      fun fix => (fix.apply listedSource).toOption)
        = some (some ("class C \x7b C(\n              /* a */ int x,\n              // b\n"
          ++ "              int y) \x7b \x7d \x7d").toList) := by
    decide +kernel
  have hplaces : ((Document.parse listedSource).root.at? ⟨11, 38⟩ .parameterList).bind (fun list =>
      list.parent?.map fun constructor => (list.parameters.length,
        listedSource.column? (.ofText listedSource) constructor.signatureStart))
      = some (2, some 10) := by
    decide +kernel
  obtain ⟨fix, hfix, hafter⟩ := Option.map_eq_some_iff.1 hfix
  have hfix := eq_ok_of_toOption hfix
  obtain ⟨list, constructor, column, after, hat, hparent, -, hcolumn, happly, hlines⟩ :=
    wrapParameters_own_lines hfix
  rw [eq_ok_of_toOption hafter, Except.ok.injEq] at happly
  rw [hat, Option.bind_some, hparent, Option.map_some, hcolumn] at hplaces
  simp only [Option.some.injEq, Prod.mk.injEq] at hplaces
  obtain ⟨hlength, rfl⟩ := hplaces
  exact ⟨fix, list, hfix, hat, hlength, happly ▸ hlines⟩

/-- A list that ends with an array, which is no parameter of the tree. -/
def arrayListSource : Text :=
  "class C \x7b C(int a, params int[] rest) \x7b \x7d \x7d".toList

set_option maxRecDepth 100000 in
/-- The array at the end of a list stays on the line of the parameter before it. -/
theorem wrap_leaves_array_on_line :
    (Document.parse arrayListSource).hasErrors = false
      ∧ ∃ fix, wrapParameters 4 (.parse arrayListSource) ⟨11, 37⟩ = .ok fix
        ∧ fix.apply arrayListSource = .ok
          "class C \x7b C(\n              int a, params int[] rest) \x7b \x7d \x7d".toList := by
  refine ⟨by decide +kernel, ?_⟩
  have hfix : ((wrapParameters 4 (.parse arrayListSource) ⟨11, 37⟩).toOption.map
      fun fix => (fix.apply arrayListSource).toOption)
        = some (some
          "class C \x7b C(\n              int a, params int[] rest) \x7b \x7d \x7d".toList) := by
    decide +kernel
  obtain ⟨fix, hfix, hafter⟩ := Option.map_eq_some_iff.1 hfix
  exact ⟨fix, eq_ok_of_toOption hfix, eq_ok_of_toOption hafter⟩

end SharpLint

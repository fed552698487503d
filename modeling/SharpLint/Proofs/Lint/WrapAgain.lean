import SharpLint.Proofs.Edit.TidyAgain
import SharpLint.Proofs.Lint.CommentsAgain

/-!
# Wrapping Again

What a second wrap does to a constructor that is wrapped already. It finds the
comments that the first one has put before the parameters and puts them there
again, with the same indent: each of its edits puts back what stands in the gap.
So the second wrap changes nothing but what tidying changes, on the lines that
the gaps are on, and those are tidied already. What is left to go is the padding
before a carriage return that the first tidying has brought to the end of its
line.

The first line of a wrapped signature ends with the bracket of the list, if the
bracket is on that line, so the rule measures the line up to there.

All this is told of a document of the wrapped text that has the list where the
wrap has left it. How far a text is read depends on its length, and the wrapped
one may be longer or shorter, so it is not told here that it is read alike.

## Main definitions

* `Place.gaps`: the gaps before the parameters of a list.
* `Document.GapAt`: a gap between ink, before a parameter.
* `Document.ListedAgain`: the list of a wrapped text is where the wrap left it.
* `Document.signatureLine`: the line of a signature, up to its bracket.

## Theorems

* `Wraps.exists_spliced`: Where what is put into a gap stands.
* `Wraps.put_again`: A second wrap puts back what the first has put there.
* `wrap_again`: What a second wrap changes.
-/

namespace SharpLint

open Text Place

/-! ### What stands between ink -/

/-- The slices of a text that is cut before and behind a span. -/
theorem slices_of_cut {source x y z : Text} {span : Span} (h : source = x ++ y ++ z)
    (hx : size x = span.start) (hxy : size (x ++ y) = span.stop) :
    source.slice ⟨0, span.start⟩ = x ∧ source.slice ⟨0, span.stop⟩ = x ++ y
      ∧ source.slice span = y := by
  refine ⟨?_, ?_, ?_⟩ <;> refine slice_eq_of_slice? (slice?_eq_some_iff.2 ?_)
  · exact ⟨[], y ++ z, h.trans (List.append_assoc x y z), rfl, (Nat.zero_add _).trans hx⟩
  · exact ⟨[], z, h, rfl, (Nat.zero_add _).trans hxy⟩
  · exact ⟨x, z, h, hx, by rw [← hxy, size_append, hx]⟩

/-- What stands between ink is tidied for itself, and the ink stays around it. -/
theorem tidy_between {a mid b : Text} (ha : ∃ core c, a = core ++ [c] ∧ isInk c = true)
    (hb : ∃ c rest, b = c :: rest ∧ isInk c = true) (spans : List Span) :
    ∃ a' mid' b' touched, tidy (a ++ mid ++ b) spans = a' ++ mid' ++ b'
      ∧ Tidied touched a mid b mid' ∧ a'.filter isInk = a.filter isInk
      ∧ (∃ core c, a' = core ++ [c] ∧ isInk c = true)
      ∧ ∃ c rest, b' = c :: rest ∧ isInk c = true := by
  obtain ⟨core, c, rfl, hc⟩ := ha
  obtain ⟨d, rest, rfl, hd⟩ := hb
  obtain ⟨whole, behind, htidy, hwhole, hbehind⟩ :=
    (tidied_tidy (core ++ [c] ++ mid ++ d :: rest) spans).split
  obtain ⟨before, mid', rfl, hbefore, hmid⟩ := hwhole.split
  obtain ⟨core', last, rfl, -, hlast⟩ := hbefore.split
  obtain ⟨more, rfl, hmore⟩ := hlast.keeps_ink hc
  cases hmore
  obtain ⟨rest', rfl, -⟩ := hbehind.keeps_ink hd
  rw [List.nil_append, List.append_nil] at hmid
  exact ⟨core' ++ [c], mid', d :: rest', _, htidy, hmid, hbefore.ink, ⟨core', c, rfl, hc⟩,
    d, rest', rfl, hd⟩

/-! ### Edits that put back what stands there -/

/-- Edits that put back what stands there leave the text as it is, and land where
    they were made. -/
theorem Edit.Splices.eq_of_same {source text new : Text} {edits : List Edit} {cursor : Nat}
    (h : Edit.Splices cursor text edits new) (before after : Text)
    (hsource : source = before ++ text ++ after) (hcursor : size before = cursor)
    (hsame : ∀ edit ∈ edits, source.slice edit.span = edit.text) :
    new = text ∧ Edit.landed cursor cursor edits = edits.map Edit.span := by
  induction h generalizing before with
  | nil => exact ⟨rfl, rfl⟩
  | @cons cursor start stop kept old rest new text edits hstart hstop tail ih =>
      have hold : source.slice ⟨start, stop⟩ = old :=
        slice_eq_of_slice? (slice?_eq_some_iff.2 ⟨before ++ kept, rest ++ after, by
          rw [hsource]
          simp only [List.append_assoc], by
          rw [size_append, hcursor, hstart], hstop⟩)
      obtain rfl : old = text := hold.symm.trans (hsame _ List.mem_cons_self)
      obtain ⟨rfl, hlanded⟩ := ih (before ++ kept ++ old) (by
          rw [hsource]
          simp only [List.append_assoc]) (by
          simp only [size_append]
          omega)
        fun edit hedit => hsame edit (List.mem_cons_of_mem _ hedit)
      have hplace : cursor + (start - cursor) = start := by omega
      refine ⟨rfl, ?_⟩
      simp only [Edit.landed, hplace, hstop, hlanded, List.map_cons]

/-- Edits behind a place keep the character that stands there. -/
theorem Edit.Splices.head?_eq {text new : Text} {edits : List Edit} {cursor : Nat}
    (h : Edit.Splices cursor text edits new) (hbehind : ∀ edit ∈ edits, cursor < edit.span.start) :
    new.head? = text.head? := by
  cases h with
  | nil => rfl
  | @cons _ start _ kept old rest new text _ hstart _ _ =>
      cases kept with
      | nil =>
          have hlt : cursor < start := hbehind _ List.mem_cons_self
          rw [size_nil] at hstart
          omega
      | cons c kept => rfl

/-- What an edit puts into its place stands where it has landed. -/
theorem Edit.Splices.landed_mem {text new : Text} {first last : List Edit} {edit : Edit}
    (h : Edit.Splices 0 text (first ++ edit :: last) new) :
    ∃ a old b A B, text = a ++ old ++ b ∧ new = A ++ edit.text ++ B
      ∧ size a = edit.span.start ∧ size (a ++ old) = edit.span.stop
      ∧ Edit.Splices 0 a first A ∧ Edit.Splices edit.span.stop b last B
      ∧ ⟨size A, size (A ++ edit.text)⟩ ∈ Edit.landed 0 0 (first ++ edit :: last) := by
  have hchain := h.inChain
  have hforward := (h.forward (List.mem_append_right first List.mem_cons_self)).2.1
  obtain ⟨a, old, b, A, B, htext, hnew, ha, hold, hfirst, hlast⟩ := h.exists_at
  rw [Nat.zero_add] at ha
  refine ⟨a, old, b, A, B, htext, hnew, ha, by rw [size_append, ha, hold], hfirst, hlast, ?_⟩
  have hbehind : ∀ other ∈ edit :: last, 0 + size a ≤ other.span.start := by
    intro other hother
    rcases List.mem_cons.1 hother with rfl | hother
    · omega
    · have := List.rel_of_pairwise_cons (List.pairwise_append.1 hchain).2.1 hother
      omega
  rw [hfirst.landed_append 0 hbehind]
  refine List.mem_append_right _ ?_
  have hplace : 0 + size A + (edit.span.start - (0 + size a)) = size A := by omega
  simp only [Edit.landed, hplace, size_append]
  exact List.mem_cons_self

/-! ### Gaps between ink -/

/-- The gaps before some parameters, the first of them from an offset on. -/
def gapsFrom (gapStart : Nat) : List Place → List Span
  | [] => []
  | parameter :: parameters =>
    ⟨gapStart, parameter.start⟩ :: gapsFrom (gapBehind parameter) parameters

/-- The gaps before the parameters of a list. -/
def Place.gaps (list : Place) : List Span :=
  gapsFrom (list.start + 1) list.parameters

theorem map_span_wrapEdits (document : Document) (list : Place) (indent : Text) (gapStart : Nat)
    (parameters : List Place) :
    (wrapEdits document list indent gapStart parameters).map Edit.span
      = gapsFrom gapStart parameters := by
  induction parameters generalizing gapStart with
  | nil => rfl
  | cons parameter parameters ih => rw [wrapEdits_cons, List.map_cons, ih, gapsFrom]

/-- The gap starts where a child of the list ends with ink, and stops before a
    parameter. -/
structure Document.GapAt (document : Document) (list : Place) (gap : Span) : Prop where
  behind : document.InkBefore list gap.start
  before : ∃ n parameter, list.child? n = some parameter ∧ parameter.kind = .parameter
    ∧ parameter.start = gap.stop

/-- A gap stops before one of the parameters. -/
theorem exists_parameter_of_mem_wrapEdits {document : Document} {list : Place} {indent : Text}
    {parameters : List Place} {gapStart : Nat} {edit : Edit}
    (hedit : edit ∈ wrapEdits document list indent gapStart parameters) :
    ∃ parameter ∈ parameters, parameter.start = edit.span.stop := by
  induction parameters generalizing gapStart with
  | nil => exact absurd hedit List.not_mem_nil
  | cons parameter parameters ih =>
      rw [wrapEdits_cons] at hedit
      rcases List.mem_cons.1 hedit with rfl | hedit
      · exact ⟨parameter, List.mem_cons_self, rfl⟩
      · obtain ⟨other, hother, hstart⟩ := ih hedit
        exact ⟨other, List.mem_cons_of_mem _ hother, hstart⟩

section

variable {source : Text} {list : Place} {indent : Text} {edits : List Edit} {gap : Span}

/-- The gaps before the parameters of a list are between ink. -/
theorem gapAt_of_mem_wrapEdits (hlist : (Document.parse source).Has list)
    (hkind : list.kind = .parameterList) {edit : Edit} (hedit : edit ∈
      wrapEdits (.parse source) list indent (list.start + 1) list.parameters) :
    (Document.parse source).GapAt list edit.span := by
  have hsound := Document.parse_sound source
  have hchildren : ∀ parameter ∈ list.parameters,
      (∃ n, list.child? n = some parameter) ∧ parameter.kind = .parameter :=
    fun parameter hmem => have hchild := mem_childrenOf.1 hmem
      ⟨hchild.1.1, hchild.2⟩
  obtain ⟨parameter, hparameter, hstart⟩ := exists_parameter_of_mem_wrapEdits hedit
  obtain ⟨⟨n, hn⟩, hparameterKind⟩ := hchildren parameter hparameter
  exact ⟨inkBefore_of_mem_wrapEdits hsound (Document.parse_walled source)
    (Document.parse_ended source) hlist list.parameters (hlist.inkBefore_first hsound hkind)
    hchildren hedit, n, parameter, hn, hparameterKind, hstart⟩

/-- The source before a gap ends with ink. -/
theorem Document.GapAt.ends (h : (Document.parse source).GapAt list gap)
    (hlist : (Document.parse source).Has list) {a b : Text} (hsource : source = a ++ b)
    (ha : size a = gap.start) : ∃ core c, a = core ++ [c] ∧ isInk c = true := by
  obtain ⟨n, child, core, c, hchild, hstop, htext, hc⟩ := h.behind
  obtain ⟨⟨before, after, hcut, hbefore⟩, hsize⟩ :=
    (hlist.child hchild).holdsAt (Document.parse_sound source)
  rw [htext] at hcut hsize
  obtain ⟨rfl, -⟩ : a = before ++ (core ++ [c]) ∧ b = after :=
    append_inj_of_size (hsource.symm.trans hcut) (by rw [size_append]; omega)
  exact ⟨before ++ core, c, (List.append_assoc ..).symm, hc⟩

/-- The source behind a gap begins with ink. -/
theorem Document.GapAt.begins (h : (Document.parse source).GapAt list gap)
    (hlist : (Document.parse source).Has list) {a b : Text} (hsource : source = a ++ b)
    (ha : size a = gap.stop) : ∃ c rest, b = c :: rest ∧ isInk c = true := by
  have hsound := Document.parse_sound source
  obtain ⟨n, parameter, hchild, hkind, hstart⟩ := h.before
  obtain ⟨⟨c, rest, htext, hc⟩, -⟩ := hlist.solid_parameter hsound (Document.parse_walled source)
    (Document.parse_ended source) hchild hkind
  obtain ⟨⟨before, after, hcut, hbefore⟩, -⟩ := (hlist.child hchild).holdsAt hsound
  rw [htext, List.append_assoc] at hcut
  obtain ⟨-, rfl⟩ := append_inj_of_size (hsource.symm.trans hcut) (ha.trans (by omega))
  exact ⟨c, rest ++ after, rfl, hc⟩

/-- What is put into a gap stands between ink, behind what the wrap keeps of the
    ink before the gap. -/
theorem Wraps.exists_spliced {spliced : Text} {edit : Edit}
    (h : Wraps (.parse source) list indent edits)
    (hspliced : Edit.Splices 0 source edits spliced) (hedit : edit ∈ edits)
    (hgap : (Document.parse source).GapAt list edit.span) :
    ∃ A B, spliced = A ++ edit.text ++ B
      ∧ ⟨size A, size (A ++ edit.text)⟩ ∈ Edit.landed 0 0 edits
      ∧ (∃ core c, A = core ++ [c] ∧ isInk c = true) ∧ (∃ c rest, B = c :: rest ∧ isInk c = true)
      ∧ A.filter isInk = inkAt (list.keepsByte (edits.map Edit.span)) 0
          (source.slice ⟨0, edit.span.start⟩)
      ∧ (A ++ edit.text).filter isInk = inkAt (list.keepsByte (edits.map Edit.span)) 0
          (source.slice ⟨0, edit.span.stop⟩) := by
  have hfit := h.fits edit hedit
  obtain ⟨first, last, rfl⟩ := List.append_of_mem hedit
  obtain ⟨a, old, b, A, B, hcut, rfl, ha, hstop, hfirst, hlast, hlanded⟩ := hspliced.landed_mem
  have hsource := hcut.trans (List.append_assoc a old b)
  obtain ⟨hbefore, hupto, hslice⟩ := slices_of_cut hcut ha hstop
  have hparted := h.parted
  have hink : A.filter isInk
      = inkAt (list.keepsByte ((first ++ edit :: last).map Edit.span)) 0 a := by
    refine h.ink_of_first rfl hsource hfirst fun other hother => ?_
    have hforward := hfit.forward
    rcases List.mem_cons.1 hother with rfl | hother
    · omega
    · have := List.rel_of_pairwise_cons (List.pairwise_append.1 hparted).2.1 hother
      omega
  refine ⟨A, B, rfl, hlanded, ?_, ?_, hbefore ▸ hink, ?_⟩
  · refine h.exists_ink (fun other hother => ⟨List.mem_append_left _ hother, ?_⟩) hsource hfirst
      (ha ▸ hgap.behind)
    rw [ha]
    exact (List.pairwise_append.1 hparted).2.2 other hother edit List.mem_cons_self
  · -- The next gap starts behind the parameter.
    obtain ⟨c, rest, rfl, hc⟩ := hgap.begins h.has hcut hstop
    have hhead := hlast.head?_eq fun other hother =>
      List.rel_of_pairwise_cons (List.pairwise_append.1 hparted).2.1 hother
    obtain ⟨more, hmore⟩ := List.head?_eq_some_iff.1 hhead
    exact ⟨c, more, hmore, hc⟩
  · rw [hupto, inkAt_append, ← hink, List.filter_append, h.text edit hedit, Nat.zero_add, ha,
      ← hslice]
    congr 1
    exact inkAt_gap h.sound h.has hfit.startCut hfit.stopCut hfit.forward
      (fun n hfrom hto => h.keepsByte_in hedit hfrom hto) h.blank

/-- A second wrap puts back what the first has put there, where it stands
    between the same ink and its comments have all ink in the gap. -/
theorem Wraps.put_again {spliced after : Text} {again : Place} {next : List Edit}
    {edit second : Edit} (h : Wraps (.parse source) list indent edits)
    (hspliced : Edit.Splices 0 source edits spliced)
    (hafter : tidy spliced (Edit.landed 0 0 edits) = after)
    (hagain : Wraps (.parse after) again indent next) (hindent : '\n' ∉ indent)
    (hedit : edit ∈ edits) (hgap : (Document.parse source).GapAt list edit.span)
    (hsecond : second ∈ next) (hgapAgain : (Document.parse after).GapAt again second.span)
    (hstart : (after.slice ⟨0, second.span.start⟩).filter isInk
      = inkAt (list.keepsByte (edits.map Edit.span)) 0 (source.slice ⟨0, edit.span.start⟩))
    (hstop : (after.slice ⟨0, second.span.stop⟩).filter isInk
      = inkAt (list.keepsByte (edits.map Edit.span)) 0 (source.slice ⟨0, edit.span.stop⟩))
    (hcomments : ((again.commentsIn second.span).flatMap (Document.parse after).textOf).filter isInk
      = (after.slice second.span).filter isInk) :
    after.slice second.span = second.text
      ∧ ∃ span ∈ Edit.landed 0 0 edits, spliced.SameInk after span second.span := by
  obtain ⟨A, B, rfl, hlanded, hA, hB, hinkA, hinkPut⟩ := h.exists_spliced hspliced hedit hgap
  obtain ⟨A', put, B', touched, htidy, htidied, hinkA', hA', hB'⟩ :=
    tidy_between hA hB (Edit.landed 0 0 edits)
  have hinkPut' : (A' ++ put).filter isInk = (A ++ edit.text).filter isInk := by
    rw [List.filter_append, List.filter_append, hinkA', htidied.ink]
  -- Tidying leaves what is put there a line feed, the indent and comments.
  rw [h.text edit hedit] at htidied
  obtain ⟨texts, rfl, htexts⟩ := htidied.exists_leadingText h.has hindent hA hB
  rw [htidy] at hafter
  -- The gap of the second wrap is cut off by the same ink.
  have hfit : Edit.FitsIn after second := hagain.fits second hsecond
  obtain ⟨x, y, z, hcut, hx, hy⟩ := hfit.startCut.split hfit.stopCut hfit.forward
  have hupto : size (x ++ y) = second.span.stop := (size_append x y).trans hy
  have hsource := hcut.trans (List.append_assoc x y z)
  obtain ⟨hxSlice, hxySlice, hslice⟩ := slices_of_cut hcut hx hupto
  have hwhole := hafter.trans hcut
  obtain rfl : A' = x := by
    rw [List.append_assoc, List.append_assoc] at hwhole
    refine cut_behind_unique hwhole ?_ hA' (hgapAgain.ends hagain.has hsource hx)
    rw [hinkA', hinkA, ← hstart, hxSlice]
  obtain rfl : '\n' :: (indent ++ texts.flatMap (endedComment indent)) = y := by
    refine List.append_cancel_left (cut_before_unique hwhole ?_ hB'
      (hgapAgain.begins hagain.has hcut hupto))
    rw [hinkPut', hinkPut, ← hstop, hxySlice]
  constructor
  · rw [hagain.text second hsecond, hslice]
    exact (Document.leadingText_again hagain.has hcut hx hupto
      (isBlank_iff_filter.2 hagain.blank) htexts (hslice ▸ hcomments)).symm
  · exact ⟨_, hlanded, A, edit.text, B, A', _, z, rfl, rfl, hcut, by rw [hx, hupto], hA, hB,
      hinkA', hinkPut'⟩

end

/-! ### The line that is measured -/

/-- The line that a signature starts on, cut behind the bracket that opens the
    list, if that stands on the line. -/
def Document.signatureLine (document : Document) (constructor list : Place) : Text :=
  let line := document.source.lineRange document.lines
    (document.lines.line constructor.signatureStart)
  document.source.slice
    (if line.start ≤ list.start ∧ list.start < line.stop then ⟨line.start, list.start + 1⟩ else line)

/-- A part of a line ends before a line feed that is not before it. -/
theorem Text.HoldsAt.stop_le_feed {text part : Text} {offset place : Nat}
    (h : text.HoldsAt offset part) (hpart : '\n' ∉ part) (hfeed : text.HoldsAt place ['\n'])
    (hle : offset ≤ place) : offset + size part ≤ place :=
  Nat.le_of_not_lt fun hlt => hpart (h.mem hfeed hle hlt)

/-- Where a line feed stands behind the bracket, the line is not cut. -/
theorem Document.signatureLine_eq {source : Text} {constructor list : Place}
    (hcut : source.CutsAt constructor.signatureStart)
    (hfeed : source.HoldsAt (list.start + 1) ['\n']) :
    (parse source).signatureLine constructor list
      = source.lineText (.ofText source) ((LineTable.ofText source).line constructor.signatureStart)
    := by
  change source.slice _ = source.slice _
  obtain ⟨upto, rest, hsource, hstart⟩ := hcut
  obtain ⟨before, lead, rfl, hlead, hbefore⟩ := exists_lastLine upto
  obtain ⟨line, behind, rfl, hline, hbehind⟩ := exists_firstLine rest
  rw [← List.append_assoc] at hsource
  obtain ⟨stop, hrange, hstop⟩ := lineRange_cut hlead hline hbefore hbehind
  have hnumber : (LineTable.ofText source).line constructor.signatureStart
      = (before ++ lead).count '\n' := by
    rw [← hstart, hsource, List.append_assoc (before ++ lead), LineTable.line_cut]
  rw [← hsource] at hrange
  simp only [parse, hnumber, hrange]
  split
  · next hin =>
    -- The line feed is not on the line, so the line ends before it.
    have hend : size (before ++ (lead ++ line)) ≤ list.start + 1 := by
      have hholds : source.HoldsAt (size before) (lead ++ line) :=
        ⟨before, behind, by rw [hsource]; simp only [List.append_assoc], rfl⟩
      rw [size_append]
      exact hholds.stop_le_feed (fun hmem => (List.mem_append.1 hmem).elim hlead hline) hfeed
        (by omega)
    have hle : stop ≤ size (before ++ (lead ++ line)) := by
      rcases hstop with rfl | ⟨more, hmore, rfl⟩
      · exact Nat.le_of_eq (by rw [List.append_assoc])
      · rw [hmore]
        simp only [size_append]
        omega
    rw [show list.start + 1 = stop by omega]
  · rfl

/-! ### The second wrap -/

/-- In the text `after` that a wrap has made of the source, the constructor
    `second` has the list `again` where the wrap has left that of `constructor`:
    its signature starts in the same column, each gap before a parameter stands
    between the ink that the wrap has kept around one, and all ink in the gap is
    that of comments. -/
structure Document.ListedAgain (source after : Text) (constructor list second again : Place) :
    Prop where
  has : (parse after).Has second
  kind : second.kind = .constructorDeclaration
  own : second.ownParameterList? = some again
  column : after.column? (.ofText after) second.signatureStart
    = source.column? (.ofText source) constructor.signatureStart
  gaps : (again.gaps.map fun gap => ((after.slice ⟨0, gap.start⟩).filter isInk,
      (after.slice ⟨0, gap.stop⟩).filter isInk))
    = list.gaps.map fun gap => (inkAt (list.keepsByte list.gaps) 0 (source.slice ⟨0, gap.start⟩),
      inkAt (list.keepsByte list.gaps) 0 (source.slice ⟨0, gap.stop⟩))
  comments : ∀ gap ∈ again.gaps, ((again.commentsIn gap).flatMap (parse after).textOf).filter isInk
    = (after.slice gap).filter isInk

/-- A list that can be wrapped holds parameters. -/
theorem parameters_of_wrapParameters {document : Document} {width : Nat} {anchor : Span} {fix : Fix}
    {list : Place} (h : wrapParameters width document anchor = .ok fix)
    (hlist : document.root.at? anchor .parameterList = some list) :
    list.parameters.isEmpty = false := by
  rw [← Bool.not_eq_true]
  intro hempty
  rw [wrapParameters, hlist] at h
  simp only [hempty, if_true] at h
  split at h
  · exact absurd h (by simp only [reduceCtorEq, not_false_eq_true])
  · split at h <;> exact absurd h (by simp only [reduceCtorEq, not_false_eq_true])

theorem gaps_eq_nil_iff {list : Place} : list.gaps = [] ↔ list.parameters.isEmpty = true := by
  rw [Place.gaps]
  cases list.parameters with
  | nil => exact ⟨fun _ => rfl, fun _ => rfl⟩
  | cons => exact ⟨fun h => absurd h (List.cons_ne_nil _ _), fun h => absurd h Bool.false_ne_true⟩

/-- The wrap of a constructor's own list. -/
theorem wraps_own {source : Text} {width : Nat} {constructor list : Place} {fix : Fix}
    (hconstructor : (Document.parse source).Has constructor)
    (hkind : constructor.kind = .constructorDeclaration)
    (hlist : constructor.ownParameterList? = some list)
    (hfix : wrapParameters width (.parse source) list.span = .ok fix) :
    ∃ column, source.column? (.ofText source) constructor.signatureStart = some column
      ∧ list.kind = .parameterList ∧ list.parameters.isEmpty = false
      ∧ fix.edits = wrapEdits (.parse source) list (List.replicate (column + width) ' ')
        (list.start + 1) list.parameters
      ∧ Wraps (.parse source) list (List.replicate (column + width) ' ') fix.edits := by
  have hsound := Document.parse_sound source
  obtain ⟨⟨n, hn⟩, hlistKind⟩ := hconstructor.ownParameterList hsound hkind hlist
  have hat := (hconstructor.child hn).at?_parameterList hsound hlistKind
  obtain ⟨-, found, parent, hfound, hparent, -, hedits⟩ := wrapParameters_eq_ok hfix
  obtain rfl : list = found := Option.some.inj (hat.symm.trans hfound)
  obtain rfl : constructor = parent := Option.some.inj ((parent?_of_child? hn).symm.trans hparent)
  obtain ⟨column, hcolumn⟩ := (hconstructor.cutsAt_signatureStart hsound).exists_column
  have hlines : (Document.parse source).source.column? (Document.parse source).lines
      constructor.signatureStart = some column := hcolumn
  rw [hlines, Option.getD_some] at hedits
  exact ⟨column, hcolumn, hlistKind, parameters_of_wrapParameters hfix hat, wraps_of_edits hat hedits⟩

/-- Where a wrap puts back what stands there, a line feed stands behind the
    bracket of the list. -/
theorem Wraps.holdsAt_feed {document : Document} {list : Place} {indent : Text}
    {edits : List Edit} (h : Wraps document list indent edits)
    (hedits : edits = wrapEdits document list indent (list.start + 1) list.parameters)
    (hparameters : list.parameters.isEmpty = false)
    (hsame : ∀ edit ∈ edits, document.source.slice edit.span = edit.text) :
    document.source.HoldsAt (list.start + 1) ['\n'] := by
  cases hlist : list.parameters with
  | nil =>
      rw [hlist] at hparameters
      exact absurd hparameters (by decide)
  | cons parameter parameters =>
      rw [hlist, wrapEdits_cons] at hedits
      have hmem : _ ∈ edits := hedits ▸ List.mem_cons_self
      have hfit := h.fits _ hmem
      obtain ⟨put, hput⟩ := hfit.startCut.slice? hfit.stopCut hfit.forward
      obtain ⟨before, behind, hcut, hstart⟩ := (slice?_eq_some_iff_holdsAt.1 hput).1
      rw [← slice_eq_of_slice? hput, hsame _ hmem, leadingText_eq, List.cons_append,
        ← List.singleton_append, ← List.append_assoc before, List.append_assoc] at hcut
      exact ⟨before, _, hcut, hstart⟩

section

variable {source after : Text} {width : Nat} {constructor list second again : Place} {fix : Fix}

/-- The list of a wrapped text holds parameters, as that of the source does. -/
theorem Document.ListedAgain.parameters
    (h : Document.ListedAgain source after constructor list second again)
    (hparameters : list.parameters.isEmpty = false) : again.parameters.isEmpty = false := by
  rw [← Bool.not_eq_true, ← gaps_eq_nil_iff, ← List.map_eq_nil_iff, h.gaps, List.map_eq_nil_iff,
    gaps_eq_nil_iff, hparameters]
  exact Bool.false_ne_true

/-- Each edit of a second wrap puts back what stands in its gap, and the gap
    stands between the same ink as what the first wrap has put there. -/
theorem Document.ListedAgain.put_again {next : Fix} {spliced : Text}
    (h : Document.ListedAgain source after constructor list second again)
    (hconstructor : (Document.parse source).Has constructor)
    (hkind : constructor.kind = .constructorDeclaration)
    (hlist : constructor.ownParameterList? = some list)
    (hfix : wrapParameters width (.parse source) list.span = .ok fix)
    (hspliced : Edit.Splices 0 source fix.edits spliced)
    (hafter : tidy spliced (Edit.landed 0 0 fix.edits) = after)
    (hnext : wrapParameters width (.parse after) again.span = .ok next)
    {edit : Edit} (hedit : edit ∈ next.edits) :
    after.slice edit.span = edit.text
      ∧ ∃ span ∈ Edit.landed 0 0 fix.edits, spliced.SameInk after span edit.span := by
  obtain ⟨column, hcolumn, hlistKind, -, hedits, hwraps⟩ :=
    wraps_own hconstructor hkind hlist hfix
  obtain ⟨column', hcolumn', hagainKind, -, hnextEdits, hnextWraps⟩ :=
    wraps_own h.has h.kind h.own hnext
  -- The signature has kept its column, so the indent is the same.
  obtain rfl : column = column' := by
    rw [h.column, hcolumn] at hcolumn'
    exact Option.some.inj hcolumn'
  have hindent : '\n' ∉ List.replicate (column + width) ' ' := fun hmem =>
    absurd (List.eq_of_mem_replicate hmem) (by decide)
  have hspans : fix.edits.map Edit.span = list.gaps := by rw [hedits, map_span_wrapEdits]; rfl
  have hgap : edit.span ∈ again.gaps := by
    rw [Place.gaps, ← map_span_wrapEdits (.parse after) again, ← hnextEdits]
    exact List.mem_map_of_mem hedit
  -- The gap stands between the same ink as one of the first wrap.
  obtain ⟨gap, hfirst, hink⟩ := List.mem_map.1 (h.gaps ▸ List.mem_map_of_mem hgap)
  rw [← hspans] at hfirst
  obtain ⟨first, hmem, rfl⟩ := List.mem_map.1 hfirst
  rw [Prod.mk.injEq, ← hspans] at hink
  exact hwraps.put_again hspliced hafter hnextWraps hindent hmem
    (gapAt_of_mem_wrapEdits hwraps.has hlistKind (hedits ▸ hmem)) hedit
    (gapAt_of_mem_wrapEdits hnextWraps.has hagainKind (hnextEdits ▸ hedit)) hink.1.symm
    hink.2.symm (h.comments _ hgap)

/-- Where a second wrap puts back what stands in the gaps, the line of the
    signature is measured up to the bracket of the list. -/
theorem constructorLineLength?_of_put {next : Fix} (hsecond : (Document.parse after).Has second)
    (hkind : second.kind = .constructorDeclaration) (hown : second.ownParameterList? = some again)
    (hnext : wrapParameters width (.parse after) again.span = .ok next)
    (hsame : ∀ edit ∈ next.edits, after.slice edit.span = edit.text) (limit : Nat) :
    constructorLineLength? (.parse after) limit second =
      let length := ((Document.parse after).signatureLine second again).length
      if limit < length then some length else none := by
  obtain ⟨_, -, -, hparameters, hedits, hwraps⟩ := wraps_own hsecond hkind hown hnext
  have hfeed : after.HoldsAt (again.start + 1) ['\n'] :=
    hwraps.holdsAt_feed hedits hparameters hsame
  have hcut : after.CutsAt second.signatureStart :=
    hsecond.cutsAt_signatureStart (Document.parse_sound after)
  rw [Document.signatureLine_eq hcut hfeed, constructorLineLength?, hown]
  simp only [hparameters, Bool.false_eq_true, if_false]
  rfl

/-- A constructor that is wrapped can be wrapped again. The second wrap puts back
    what stands in the gaps, so it tidies the lines that these are on, and all
    that goes there is the padding before a carriage return at the end of a line.
    In the wrapped text the rule measures the line of the signature up to the
    bracket of the list. -/
theorem wrap_again (hconstructor : (Document.parse source).Has constructor)
    (hkind : constructor.kind = .constructorDeclaration)
    (hlist : constructor.ownParameterList? = some list)
    (hfix : wrapParameters width (.parse source) list.span = .ok fix)
    (hafter : fix.apply source = .ok after)
    (hlisted : Document.ListedAgain source after constructor list second again) :
    ∃ next, wrapParameters width (.parse after) again.span = .ok next
      ∧ (∀ edit ∈ next.edits, after.slice edit.span = edit.text)
      ∧ next.apply after = .ok (joinLines ((splitLines after).mapIdx fun n line =>
          if touchesLine (.ofText after) (next.edits.map Edit.span) n then line.trimReturn
          else line))
      ∧ ((∀ line ∈ splitLines after, line.trimReturn = line) → next.apply after = .ok after)
      ∧ ∀ limit, constructorLineLength? (.parse after) limit second =
          let length := ((Document.parse after).signatureLine second again).length
          if limit < length then some length else none := by
  obtain ⟨_, -, -, hparameters, -, hwraps⟩ := wraps_own hconstructor hkind hlist hfix
  obtain ⟨next, hnext, -⟩ := wrapParameters_fits (Document.parse_sound after)
    (Document.parse_walled after) hlisted.has hlisted.kind hlisted.own
    (hlisted.parameters hparameters) width
  obtain ⟨_, -, -, -, -, hnextWraps⟩ := wraps_own hlisted.has hlisted.kind hlisted.own hnext
  obtain ⟨spliced, hspliced⟩ : ∃ new, Edit.Splices 0 source fix.edits new :=
    Edit.exists_splices [] source hwraps.chain hwraps.fits fun _ _ => Nat.zero_le _
  rw [Fix.apply, Fix.applyEdits, hspliced.splice?_eq, Except.ok.injEq] at hafter
  have hput := fun edit (hedit : edit ∈ next.edits) =>
    hlisted.put_again hconstructor hkind hlist hfix hspliced hafter hnext hedit
  have hsame := fun edit hedit => (hput edit hedit).1
  have happly : next.apply after = .ok (joinLines ((splitLines after).mapIdx fun n line =>
      if touchesLine (.ofText after) (next.edits.map Edit.span) n then line.trimReturn
      else line)) := by
    obtain ⟨new, hnew⟩ : ∃ new, Edit.Splices 0 after next.edits new :=
      Edit.exists_splices [] after hnextWraps.chain hnextWraps.fits fun _ _ => Nat.zero_le _
    obtain ⟨rfl, hlanded⟩ := hnew.eq_of_same [] [] (List.append_nil _).symm rfl hsame
    rw [Fix.apply, Fix.applyEdits, hnew.splice?_eq, hlanded, ← hafter]
    -- Nothing is spliced, so the text is tidied as the first wrap has left it.
    refine congrArg Except.ok (tidy_tidy fun span hspan => ?_)
    obtain ⟨edit, hedit, rfl⟩ := List.mem_map.1 hspan
    exact hafter ▸ (hput edit hedit).2
  refine ⟨next, hnext, hsame, happly, fun htight => ?_, ?_⟩
  · rw [happly, joinLines_trimReturn htight]
  · exact constructorLineLength?_of_put hlisted.has hlisted.kind hlisted.own hnext hsame

end

/-- What a wrap makes of `listedSource`. -/
def wrappedListedSource : Text :=
  ("class C \x7b C(\n              /* a */ int x,\n              // b\n"
    ++ "              int y) \x7b \x7d \x7d").toList

set_option maxRecDepth 100000 in
theorem wrap_again_listed :
    ∃ fix next second, wrapParameters 4 (.parse listedSource) ⟨11, 38⟩ = .ok fix
      ∧ fix.apply listedSource = .ok wrappedListedSource
      ∧ wrapParameters 4 (.parse wrappedListedSource) ⟨11, 81⟩ = .ok next
      ∧ (∀ edit ∈ next.edits, wrappedListedSource.slice edit.span = edit.text)
      ∧ next.apply wrappedListedSource = .ok wrappedListedSource
      ∧ (Document.parse wrappedListedSource).Has second ∧ second.span = ⟨10, 85⟩
      ∧ constructorLineLength? (.parse wrappedListedSource) 11 second = some 12 := by
  have hfix : ((wrapParameters 4 (.parse listedSource) ⟨11, 38⟩).toOption.map
      fun fix => (fix.apply listedSource).toOption) = some (some wrappedListedSource) := by
    decide +kernel
  -- What has to be known of the two lists is evaluated at once, for their parsed documents.
  have hplaces : ((Document.parse listedSource).root.at? ⟨10, 42⟩ .constructorDeclaration).bind
      (fun constructor => constructor.ownParameterList?.bind fun list =>
        ((Document.parse wrappedListedSource).root.at? ⟨10, 85⟩ .constructorDeclaration).bind
          fun second => second.ownParameterList?.map fun again => (list.span, again.span,
            decide (wrappedListedSource.column? (.ofText wrappedListedSource) second.signatureStart
              = listedSource.column? (.ofText listedSource) constructor.signatureStart),
            decide ((again.gaps.map fun gap =>
                ((wrappedListedSource.slice ⟨0, gap.start⟩).filter isInk,
                  (wrappedListedSource.slice ⟨0, gap.stop⟩).filter isInk))
              = list.gaps.map fun gap =>
                (inkAt (list.keepsByte list.gaps) 0 (listedSource.slice ⟨0, gap.start⟩),
                  inkAt (list.keepsByte list.gaps) 0 (listedSource.slice ⟨0, gap.stop⟩))),
            decide (∀ gap ∈ again.gaps,
              ((again.commentsIn gap).flatMap (Document.parse wrappedListedSource).textOf).filter
                isInk = (wrappedListedSource.slice gap).filter isInk),
            ((Document.parse wrappedListedSource).signatureLine second again).length))
      = some (⟨11, 38⟩, ⟨11, 81⟩, true, true, true, 12) := by
    decide +kernel
  have htight : ∀ line ∈ splitLines wrappedListedSource, line.trimReturn = line := by
    decide +kernel
  obtain ⟨fix, hfix, hafter⟩ := Option.map_eq_some_iff.1 hfix
  obtain ⟨constructor, hat, hplaces⟩ := Option.bind_eq_some_iff.1 hplaces
  obtain ⟨list, hlist, hplaces⟩ := Option.bind_eq_some_iff.1 hplaces
  obtain ⟨second, hatAgain, hplaces⟩ := Option.bind_eq_some_iff.1 hplaces
  obtain ⟨again, hagain, hplaces⟩ := Option.map_eq_some_iff.1 hplaces
  simp only [Prod.mk.injEq, decide_eq_true_eq] at hplaces
  obtain ⟨hspan, hspanAgain, hcolumn, hgaps, hcomments, hlength⟩ := hplaces
  have hfix := eq_ok_of_toOption hfix
  have hafter := eq_ok_of_toOption hafter
  obtain ⟨hhas, hkind, -⟩ := below_of_at? hat
  obtain ⟨hhasAgain, hkindAgain, hsecond⟩ := below_of_at? hatAgain
  obtain ⟨next, hnext, hsame, -, hsettled, hmeasure⟩ := wrap_again hhas hkind hlist
    (hspan ▸ hfix) hafter ⟨hhasAgain, hkindAgain, hagain, hcolumn, hgaps, hcomments⟩
  refine ⟨fix, next, second, hfix, hafter, hspanAgain ▸ hnext, hsame, hsettled htight, hhasAgain,
    hsecond, ?_⟩
  rw [hmeasure, hlength]
  rfl

/-- A list with a line that ends in padding on both sides of a carriage return. -/
def returnListSource : Text :=
  "class C \x7b C(int a \r  \n) \x7b \x7d \x7d".toList

/-- What a wrap makes of `returnListSource`: the line ends in padding and a
    carriage return. -/
def wrappedReturnSource : Text :=
  "class C \x7b C(\n              int a \r\n) \x7b \x7d \x7d".toList

set_option maxRecDepth 100000 in
/-- A second wrap takes the padding before the carriage return that the first
    has brought to the end of its line. -/
theorem second_wrap_tidies_more :
    ¬∀ (source after : Text) (width : Nat) (anchor again : Span) (fix next : Fix),
      (Document.parse source).hasErrors = false →
      wrapParameters width (.parse source) anchor = .ok fix → fix.apply source = .ok after →
      again.start = anchor.start → wrapParameters width (.parse after) again = .ok next →
      next.apply after = .ok after := by
  intro h
  have hfix : ((wrapParameters 4 (.parse returnListSource) ⟨11, 23⟩).toOption.map
      fun fix => (fix.apply returnListSource).toOption) = some (some wrappedReturnSource) := by
    decide +kernel
  have hnext : ((wrapParameters 4 (.parse wrappedReturnSource) ⟨11, 36⟩).toOption.map
      fun fix => (fix.apply wrappedReturnSource).toOption)
        = some (some "class C \x7b C(\n              int a\r\n) \x7b \x7d \x7d".toList) := by
    decide +kernel
  obtain ⟨fix, hfix, hafter⟩ := Option.map_eq_some_iff.1 hfix
  obtain ⟨next, hnext, hagain⟩ := Option.map_eq_some_iff.1 hnext
  have hsame := h returnListSource wrappedReturnSource 4 ⟨11, 23⟩ ⟨11, 36⟩ fix next
    (by decide +kernel) (eq_ok_of_toOption hfix) (eq_ok_of_toOption hafter) rfl
    (eq_ok_of_toOption hnext)
  rw [eq_ok_of_toOption hagain, Except.ok.injEq] at hsame
  exact absurd hsame (by decide +kernel)

end SharpLint

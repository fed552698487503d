import SharpLint.Lint.WrapParameters
import SharpLint.Proofs.Edit.Batch
import SharpLint.Proofs.Lint.Apart
import SharpLint.Proofs.Semantics.Scope
import SharpLint.Proofs.Text.InkAt

/-!
# Wrapping Fits and Adds Blanks Only

The gaps before the parameters of a list come in order, so a list that holds
parameters can be wrapped. What is put into a gap is blank but for the comments
that stood there, each of them once: no character of ink becomes more frequent.

## Main definitions

* `gapBehind`: where the gap behind a parameter starts.
* `Place.commentsIn`: the comments of a list that lie in a gap.
* `writtenComment`: a comment as it is put before a parameter.

## Theorems

* `separatorAfter?_spec`: The comma behind a parameter stands before the next.
* `wrapEdits_spec`: The gaps come in order and fit the source.
* `Text.slices_sublist`: Stretches that lie apart in a stretch are part of it.
* `inkAt_gap`: What is put into a gap has the ink of its comments.
* `addsNo_leadingText`: What is put into a gap adds blanks only.
* `wrapEdits_fit`: The gaps of a list come in order and fit the source.
* `wrapParameters_fits`: A list with parameters can be wrapped.
* `wrapParameters_of_issue`: An issue for a long line is at such a list.
-/

namespace SharpLint

open Text Place

/-! ### Gaps -/

namespace Place

/-- The siblings after a child are the later children of the parent. -/
theorem getElem?_following {parent child : Place} {n : Nat} (h : parent.child? n = some child)
    (m : Nat) : child.following[m]? = parent.child? (n + 1 + m) := by
  rw [following, (child?_eq_some.1 h).2]
  simp only [List.getElem?_mapIdx, List.getElem?_drop]
  rfl

end Place

/-- The comma behind a parameter stands before the next one. -/
theorem separatorAfter?_spec {list parameter comma : Place} {n : Nat}
    (hparameter : list.child? n = some parameter) (h : separatorAfter? parameter = some comma) :
    ∃ m, n < m ∧ list.child? m = some comma ∧ comma.kind = .token ","
      ∧ ∀ k next, n < k → list.child? k = some next → next.kind = .parameter → m < k := by
  unfold separatorAfter? at h
  split at h
  · next node hnode =>
    split at h
    · next hcomma =>
      rw [Option.some.injEq] at h
      subst h
      obtain ⟨-, i, hi, hget, hbefore⟩ := List.find?_eq_some_iff_getElem.1 hnode
      have hchild : list.child? (n + 1 + i) = some node := by
        rw [← getElem?_following hparameter, List.getElem?_eq_getElem hi, hget]
      refine ⟨n + 1 + i, by omega, hchild, isA_iff.1 hcomma, fun k next hlt hk hkind => ?_⟩
      refine Nat.lt_of_not_le fun hle => ?_
      rcases Nat.eq_or_lt_of_le hle with rfl | hlt'
      · rw [hchild, Option.some.injEq] at hk
        rw [hk, isA_iff, hkind] at hcomma
        exact absurd hcomma (by decide)
      · -- A parameter before the comma would have been found first.
        obtain ⟨j, rfl⟩ := Nat.exists_eq_add_of_lt hlt
        have hget : parameter.following[j]? = some next := by
          rw [getElem?_following hparameter, ← hk]
          congr 1
          omega
        obtain ⟨hj, hnext⟩ := List.getElem?_eq_some_iff.1 hget
        have hnot := hbefore j (by omega)
        rw [hnext, isA_iff.2 hkind, Bool.or_true] at hnot
        exact absurd hnot (by decide)
    · exact absurd h (by simp only [reduceCtorEq, not_false_eq_true])
  · exact absurd h (by simp only [reduceCtorEq, not_false_eq_true])

/-- Where the gap behind a parameter starts. -/
def gapBehind (parameter : Place) : Nat :=
  match separatorAfter? parameter with
  | some comma => comma.stop
  | none => parameter.stop

/-- The gap behind a parameter starts behind a child of the list, the parameter
    or a comma, and before the next parameter. -/
theorem exists_gapBehind {list parameter : Place} {n : Nat}
    (hparameter : list.child? n = some parameter) :
    ∃ m border, n ≤ m ∧ list.child? m = some border ∧ gapBehind parameter = border.stop
      ∧ (border = parameter ∨ border.kind = .token ",")
      ∧ ∀ k next, n < k → list.child? k = some next → next.kind = .parameter → m < k := by
  cases hcomma : separatorAfter? parameter with
  | none =>
      exact ⟨n, parameter, Nat.le_refl _, hparameter, by rw [gapBehind, hcomma], .inl rfl,
        fun _ _ hlt _ _ => hlt⟩
  | some comma =>
      obtain ⟨m, hlt, hm, hkind, hfirst⟩ := separatorAfter?_spec hparameter hcomma
      exact ⟨m, comma, Nat.le_of_lt hlt, hm, by rw [gapBehind, hcomma], .inr hkind, hfirst⟩

theorem wrapEdits_cons (document : Document) (list : Place) (indent : Text) (gapStart : Nat)
    (parameter : Place) (parameters : List Place) :
    wrapEdits document list indent gapStart (parameter :: parameters)
      = ⟨⟨gapStart, parameter.start⟩, leadingText document list ⟨gapStart, parameter.start⟩ indent⟩
        :: wrapEdits document list indent (gapBehind parameter) parameters :=
  rfl

/-- The gaps before the parameters come in order, and fit the source. -/
theorem wrapEdits_spec {document : Document} (hsound : document.Sound) {list : Place}
    (hlist : document.Has list) (indent : Text) (parameters : List Place) {gapStart : Nat}
    (hcut : document.source.CutsAt gapStart)
    (hgap : ∀ parameter ∈ parameters, gapStart ≤ parameter.start)
    (hchildren : ∀ parameter ∈ parameters, (∃ n, list.child? n = some parameter)
      ∧ parameter.kind = .parameter)
    (hpairs : parameters.Pairwise fun a b => a.stop ≤ b.start) :
    Edit.Parted (wrapEdits document list indent gapStart parameters)
      ∧ ∀ edit ∈ wrapEdits document list indent gapStart parameters,
        edit.FitsIn document.source ∧ gapStart ≤ edit.span.start := by
  induction parameters generalizing gapStart with
  | nil => exact ⟨List.Pairwise.nil, fun edit hedit => absurd hedit List.not_mem_nil⟩
  | cons parameter parameters ih =>
      obtain ⟨⟨n, hn⟩, -⟩ := hchildren parameter List.mem_cons_self
      have hle := hgap parameter List.mem_cons_self
      have hspan := hlist.child_span hsound hn
      obtain ⟨m, border, hnm, hm, hgapBehind, -, hfirst⟩ := exists_gapBehind hn
      have hborder := hlist.child_span hsound hm
      -- The next gap starts behind the parameter, and before the next one.
      have hbehind : parameter.stop ≤ border.stop := by
        rcases Nat.eq_or_lt_of_le hnm with rfl | hlt
        · rw [hn, Option.some.injEq] at hm
          exact hm ▸ Nat.le_refl _
        · have := hlist.child_order hsound hn hm hlt
          omega
      have hlater : ∀ later ∈ parameters, gapBehind parameter ≤ later.start := by
        intro later hmem
        obtain ⟨⟨k, hk⟩, hkind⟩ := hchildren later (List.mem_cons_of_mem _ hmem)
        have hstart := List.rel_of_pairwise_cons hpairs hmem
        have hlaterSpan := hlist.child_span hsound hk
        rw [hgapBehind]
        refine hlist.child_order hsound hm hk (hfirst k later ?_ hk hkind)
        refine Nat.lt_of_not_le fun hle => ?_
        rcases Nat.eq_or_lt_of_le hle with rfl | hlt
        · rw [hn, Option.some.injEq] at hk
          rw [← hk] at hstart
          omega
        · have := hlist.child_order hsound hk hn hlt
          omega
      obtain ⟨hparted, hfits⟩ := ih (hgapBehind ▸ ((hlist.child hm).laidOut hsound).stopCut) hlater
        (fun other hother => hchildren other (List.mem_cons_of_mem _ hother)) hpairs.tail
      rw [wrapEdits_cons]
      refine ⟨List.Pairwise.cons (fun edit hedit => ?_) hparted, fun edit hedit => ?_⟩
      · have hfrom := (hfits edit hedit).2
        simp only
        omega
      · rcases List.mem_cons.1 hedit with rfl | hedit
        · exact ⟨⟨hle, hcut, ((hlist.child hn).laidOut hsound).startCut⟩, Nat.le_refl _⟩
        · have hedit := hfits edit hedit
          exact ⟨hedit.1, by omega⟩

/-! ### What is put into the gaps -/

/-- Stretches that come one after the other in a stretch are part of it. -/
theorem Text.slices_sublist {text : Text} {start stop : Nat} (spans : List Span)
    (hstart : text.CutsAt start) (hstop : text.CutsAt stop)
    (hcuts : ∀ span ∈ spans, text.CutsAt span.start ∧ text.CutsAt span.stop)
    (hwithin : ∀ span ∈ spans, start ≤ span.start ∧ span.start ≤ span.stop ∧ span.stop ≤ stop)
    (hpairs : spans.Pairwise fun a b => a.stop ≤ b.start) :
    (spans.flatMap text.slice).Sublist (text.slice ⟨start, stop⟩) := by
  induction spans generalizing start with
  | nil => exact List.nil_sublist _
  | cons span spans ih =>
      obtain ⟨hspanStart, hspanStop⟩ := hcuts span List.mem_cons_self
      obtain ⟨hfrom, hproper, hto⟩ := hwithin span List.mem_cons_self
      have hrest := ih hspanStop (fun other hother => hcuts other (List.mem_cons_of_mem _ hother))
        (fun other hother => ⟨List.rel_of_pairwise_cons hpairs hother,
          (hwithin other (List.mem_cons_of_mem _ hother)).2⟩) hpairs.tail
      rw [slice_append hstart hspanStart hstop hfrom (Nat.le_trans hproper hto),
        slice_append hspanStart hspanStop hstop hproper hto, List.flatMap_cons]
      exact ((List.Sublist.refl (text.slice span)).append hrest).trans
        (List.sublist_append_right _ _)

/-- The comments of a list that lie in a gap. -/
def Place.commentsIn (list : Place) (gap : Span) : List Place :=
  list.descendants.filter fun node => node.isA .comment && node.span.within gap

theorem mem_commentsIn {list comment : Place} {gap : Span} :
    comment ∈ list.commentsIn gap ↔ Below list comment ∧ comment.kind = .comment
      ∧ gap.start ≤ comment.start ∧ comment.stop ≤ gap.stop := by
  rw [commentsIn, List.mem_filter, mem_descendants, Bool.and_eq_true, isA_iff, Span.within_iff]
  exact Iff.rfl

/-- The comments in a gap come one after the other. -/
theorem pairwise_commentsIn {document : Document} (hsound : document.Sound) {list : Place}
    (hlist : document.Has list) (gap : Span) :
    (list.commentsIn gap).Pairwise fun a b => a.stop ≤ b.start := by
  refine List.Pairwise.imp_of_mem (fun {a b} ha _ hab => ?_)
    ((pairwise_descendants list).sublist List.filter_sublist)
  obtain ⟨hbelow, hkind, -⟩ := mem_commentsIn.1 ha
  have hhas := hlist.below hbelow
  exact hhas.stop_le_start hsound
    (hhas.leaf_of_named hsound (.inr (by rw [hkind]; rfl)) (by rw [hkind]; decide)) hab

/-- A comment as it is put before a parameter. -/
def writtenComment (document : Document) (indent : Text) (comment : Place) : Text :=
  let text := trimEnd (document.textOf comment)
  if startsWith text ['/', '/'] then text ++ '\n' :: indent else text ++ [' ']

theorem leadingText_eq (document : Document) (list : Place) (gap : Span) (indent : Text) :
    leadingText document list gap indent
      = '\n' :: indent ++ (list.commentsIn gap).flatMap (writtenComment document indent) :=
  rfl

/-- Comments are written with their own ink. -/
theorem filter_writtenComments {document : Document} {indent : Text}
    (hindent : indent.filter isInk = []) (comments : List Place) :
    (comments.flatMap (writtenComment document indent)).filter isInk
      = ((comments.map Place.span).flatMap document.source.slice).filter isInk := by
  have hwritten (comment : Place) : (writtenComment document indent comment).filter isInk
      = (document.source.slice comment.span).filter isInk := by
    have htrim : (trimEnd (document.textOf comment)).filter isInk
        = (document.source.slice comment.span).filter isInk := filter_trimEnd _
    rw [writtenComment]
    split
    · rw [List.filter_append, List.filter_cons_of_neg (by decide), hindent, List.append_nil, htrim]
    · rw [List.filter_append, List.filter_cons_of_neg (by decide), List.filter_nil,
        List.append_nil, htrim]
  rw [List.flatMap_map, List.filter_flatMap, List.filter_flatMap]
  exact congrArg (List.flatMap · comments) (funext hwritten)

/-- The ink of a stretch inside some of the comments of a gap, which lie in the
    stretch, is what is written of them. -/
theorem inkAt_comments {document : Document} (hsound : document.Sound) {list : Place}
    (hlist : document.Has list) {gap : Span} {start stop : Nat}
    (hstart : document.source.CutsAt start) (hstop : document.source.CutsAt stop)
    (hle : start ≤ stop) {comments : List Place}
    (hcomments : comments.Sublist (list.commentsIn gap))
    (hwithin : ∀ comment ∈ comments, start ≤ comment.start ∧ comment.stop ≤ stop)
    {keeps : Nat → Bool} (hkeeps : ∀ n, start ≤ n → n < stop →
      keeps n = comments.any fun comment => comment.span.holds n)
    {indent : Text} (hindent : indent.filter isInk = []) :
    inkAt keeps start (document.source.slice ⟨start, stop⟩)
      = (comments.flatMap (writtenComment document indent)).filter isInk := by
  have hlaid : ∀ comment ∈ comments, comment.node.LaidOut document.source :=
    fun comment hcomment =>
      (hlist.below (mem_commentsIn.1 (hcomments.subset hcomment)).1).laidOut hsound
  rw [filter_writtenComments hindent]
  -- The comments lie one behind the other, so the ink is taken from them in order.
  refine inkAt_spans _ hstart hstop hle (fun span hspan => ?_) (fun span hspan => ?_)
    (List.pairwise_map.2 ((pairwise_commentsIn hsound hlist gap).sublist hcomments))
    fun n hfrom hto => ?_
  · obtain ⟨comment, hcomment, rfl⟩ := List.mem_map.1 hspan
    exact ⟨(hlaid comment hcomment).startCut, (hlaid comment hcomment).stopCut⟩
  · obtain ⟨comment, hcomment, rfl⟩ := List.mem_map.1 hspan
    have hin := hwithin comment hcomment
    exact ⟨hin.1, (hlaid comment hcomment).proper, hin.2⟩
  · rw [hkeeps n hfrom hto, List.any_map]
    rfl

/-- What is put into a gap has the ink of the comments in the gap. -/
theorem inkAt_gap {document : Document} (hsound : document.Sound) {list : Place}
    (hlist : document.Has list) {gap : Span} (hstart : document.source.CutsAt gap.start)
    (hstop : document.source.CutsAt gap.stop) (hle : gap.start ≤ gap.stop) {keeps : Nat → Bool}
    (hkeeps : ∀ n, gap.start ≤ n → n < gap.stop →
      keeps n = (list.commentsIn gap).any fun comment => comment.span.holds n)
    {indent : Text} (hindent : indent.filter isInk = []) :
    (leadingText document list gap indent).filter isInk
      = inkAt keeps gap.start (document.source.slice gap) := by
  rw [leadingText_eq, List.cons_append, List.filter_cons_of_neg (by decide), List.filter_append,
    hindent, List.nil_append]
  exact (inkAt_comments hsound hlist hstart hstop hle (List.Sublist.refl _)
    (fun comment hcomment => (mem_commentsIn.1 hcomment).2.2) hkeeps hindent).symm

theorem filter_replicate_space (width : Nat) : (List.replicate width ' ').filter isInk = [] :=
  List.filter_replicate_of_neg (by decide)

/-- What is put into a gap has no ink but that of the comments in the gap. -/
theorem addsNo_leadingText {document : Document} (hsound : document.Sound) {list : Place}
    (hlist : document.Has list) {gap : Span} (hstart : document.source.CutsAt gap.start)
    (hstop : document.source.CutsAt gap.stop) (hle : gap.start ≤ gap.stop) {c : Char}
    (hink : isInk c = true) (width : Nat) :
    (⟨gap, leadingText document list gap (List.replicate width ' ')⟩ : Edit).AddsNo c
      document.source := by
  have hgap := inkAt_gap hsound hlist hstart hstop hle (fun _ _ _ => rfl)
    (filter_replicate_space width)
  have hcount := (inkAt_sublist (fun n => (list.commentsIn gap).any fun comment =>
    comment.span.holds n) gap.start (document.source.slice gap)).count_le c
  rwa [← hgap, List.count_filter hink, List.count_filter hink] at hcount

/-- The edits of a wrap make no character of ink more frequent. -/
theorem addsNo_of_mem_wrapEdits {document : Document} (hsound : document.Sound) {list : Place}
    (hlist : document.Has list) {c : Char} (hink : isInk c = true) {width : Nat}
    (parameters : List Place) (gapStart : Nat) {edit : Edit}
    (hedit : edit ∈ wrapEdits document list (List.replicate width ' ') gapStart parameters)
    (hfits : edit.FitsIn document.source) : edit.AddsNo c document.source := by
  induction parameters generalizing gapStart with
  | nil => exact absurd hedit List.not_mem_nil
  | cons parameter parameters ih =>
      rw [wrapEdits] at hedit
      rcases List.mem_cons.1 hedit with rfl | hedit
      · exact addsNo_leadingText hsound hlist hfits.startCut hfits.stopCut hfits.forward hink width
      · exact ih _ hedit

/-! ### The fix -/

/-- The gaps before the parameters of a list come in order behind its bracket,
    and fit the source. -/
theorem wrapEdits_fit {document : Document} (hsound : document.Sound) (hwalled : document.Walled)
    {list : Place} (hhas : document.Has list) (hkind : list.kind = .parameterList)
    (indent : Text) :
    Edit.Parted (wrapEdits document list indent (list.start + 1) list.parameters)
      ∧ ∀ edit ∈ wrapEdits document list indent (list.start + 1) list.parameters,
        edit.FitsIn document.source ∧ list.start < edit.span.start := by
  obtain ⟨opening, -, m, hopening, -⟩ := hhas.brackets hsound (by rw [hkind]; rfl)
  obtain ⟨-, -, -, -, hcut, -⟩ := hhas.list_brackets hsound hkind
  have hchildren : ∀ parameter ∈ list.parameters,
      (∃ n, list.child? n = some parameter) ∧ parameter.kind = .parameter :=
    fun parameter hparameter => have hchild := mem_childrenOf.1 hparameter
      ⟨hchild.1.1, hchild.2⟩
  have hgap : ∀ parameter ∈ list.parameters, list.start + 1 ≤ parameter.start := by
    intro parameter hparameter
    obtain ⟨⟨k, hk⟩, -⟩ := hchildren parameter hparameter
    obtain ⟨bracket, inner, closing, hbrackets, hfit⟩ :=
      (hhas.shaped hsound).bracketed (by rw [show list.node.kind = .parameterList from hkind]; rfl)
    have hzero : k ≠ 0 := by
      -- The first child is a bracket, and no parameter is a token.
      rintro rfl
      have hget := (child?_eq_some.1 hk).1
      rw [hbrackets, List.cons_append, List.getElem?_cons_zero, Option.some.injEq] at hget
      have hparameterHas := hhas.child hk
      rw [show list.node.kind = .parameterList from hkind, Kind.bracketsFit, hget,
        (hparameterHas.walled hwalled).parameter (hchildren parameter hparameter).2] at hfit
      exact absurd hfit (by
        rw [Bool.and_eq_true]
        exact fun hfalse => absurd hfalse.1 (by decide))
    have horder := hhas.child_order hsound hopening hk (Nat.pos_of_ne_zero hzero)
    have hspan := hhas.child_span hsound hopening
    omega
  exact wrapEdits_spec hsound hhas indent list.parameters hcut hgap hchildren
    (hhas.pairwise_childrenOf hsound .parameter)

/-- A parameter list is found at its span. -/
theorem Document.Has.at?_parameterList {document : Document} {list : Place}
    (h : document.Has list) (hsound : document.Sound) (hkind : list.kind = .parameterList) :
    document.root.at? list.span .parameterList = some list := by
  obtain ⟨opening, closing, n, hopening, hclosing⟩ := h.brackets hsound (by rw [hkind]; rfl)
  exact hkind ▸ h.at?_of_two hsound hopening hclosing (Nat.succ_pos n)

/-- The parameter list of a constructor can be wrapped, if it holds
    parameters, and that adds blanks only. -/
theorem wrapParameters_fits {document : Document} (hsound : document.Sound)
    (hwalled : document.Walled) {constructor list : Place} (hconstructor : document.Has constructor)
    (hkind : constructor.kind = .constructorDeclaration)
    (hlist : constructor.ownParameterList? = some list) (hne : list.parameters.isEmpty = false)
    (width : Nat) :
    ∃ fix, wrapParameters width document list.span = .ok fix ∧ fix.Fits document.source
      ∧ ∀ c, isInk c = true → ∀ edit ∈ fix.edits, edit.AddsNo c document.source := by
  obtain ⟨⟨n, hn⟩, hlistKind⟩ := hconstructor.ownParameterList hsound hkind hlist
  have hhas := hconstructor.child hn
  rw [wrapParameters, hhas.at?_parameterList hsound hlistKind]
  simp only [parent?_of_child? hn, isA_iff.2 hkind, hne, if_true, Bool.false_eq_true, if_false,
    Fixer.fix]
  -- The edits come in order, so they are sorted and none overlaps the next.
  obtain ⟨hparted, hfits⟩ := wrapEdits_fit hsound hwalled hhas hlistKind (List.replicate
    ((document.source.column? document.lines constructor.signatureStart).getD 0 + width) ' ')
  obtain ⟨hfix, hfixFits⟩ := Fix.ofEdits_fits Fixer.wrapParameters.title
    Fixer.wrapParameters.key (hparted.inChain.imp .inl) fun edit hedit => (hfits edit hedit).1
  refine ⟨_, hfix, hfixFits, fun c hink edit hedit => ?_⟩
  exact addsNo_of_mem_wrapEdits hsound hhas hink _ _
    ((sortBy_perm Edit.precedes _).mem_iff.1 hedit) (hfixFits.fitsIn edit hedit)

/-- A wrap replaces the gaps before the parameters of the list at its anchor,
    sorted, and indents with spaces, further than the signature of the
    constructor. -/
theorem wrapParameters_eq_ok {width : Nat} {document : Document} {anchor : Span} {fix : Fix}
    (h : wrapParameters width document anchor = .ok fix) :
    fix.key = Fixer.wrapParameters.key
      ∧ ∃ list constructor, document.root.at? anchor .parameterList = some list
        ∧ list.parent? = some constructor ∧ constructor.kind = .constructorDeclaration
        ∧ fix.edits = Edit.inOrder (wrapEdits document list
          (List.replicate ((document.source.column? document.lines
            constructor.signatureStart).getD 0 + width) ' ') (list.start + 1) list.parameters) := by
  have refused {e : Refusal} : ¬(.error e : Except Refusal Fix) = .ok fix := by
    simp only [reduceCtorEq, not_false_eq_true]
  -- The fixer refuses at five places; behind all of them stands the one fix.
  unfold wrapParameters at h
  split at h
  · exact absurd h refused
  next list hlist =>
  split at h
  · exact absurd h refused
  next constructor hconstructor =>
  split at h
  rotate_left
  · exact absurd h refused
  next hkind =>
  split at h
  · exact absurd h refused
  simp only [Fixer.fix, Fix.ofEdits] at h
  split at h
  · exact absurd h refused
  rw [Except.ok.injEq] at h
  rw [← h]
  exact ⟨rfl, list, constructor, hlist, hconstructor, isA_iff.1 hkind, rfl⟩

/-- A wrap replaces the gaps before the parameters of a list. -/
theorem edits_of_wrapParameters {width : Nat} {document : Document} {anchor : Span} {fix : Fix}
    (h : wrapParameters width document anchor = .ok fix) :
    fix.key = Fixer.wrapParameters.key
      ∧ ∃ list indent, document.Has list ∧ list.kind = .parameterList
        ∧ fix.edits.Perm (wrapEdits document list indent (list.start + 1) list.parameters) := by
  obtain ⟨hkey, list, constructor, hlist, -, -, hedits⟩ := wrapParameters_eq_ok h
  obtain ⟨hhas, hkind, -⟩ := below_of_at? hlist
  exact ⟨hkey, list, _, hhas, hkind, (List.Perm.of_eq hedits).trans (sortBy_perm Edit.precedes _)⟩

/-- An issue for a long line is at a list that can be wrapped. -/
theorem wrapParameters_of_issue {document : Document} (hsound : document.Sound)
    (hwalled : document.Walled) {limit : Nat} {issue : Issue}
    (hissue : issue ∈ constructorLengthIssues limit document) (width : Nat) :
    issue.rule = .constructorLength ∧ issue.fix = none
      ∧ ∃ fix, wrapParameters width document issue.span = .ok fix ∧ fix.Fits document.source
        ∧ ∀ c, isInk c = true → ∀ edit ∈ fix.edits, edit.AddsNo c document.source := by
  obtain ⟨constructor, hconstructor, hissue⟩ := List.mem_filterMap.1 hissue
  rw [List.mem_filter, isA_iff] at hconstructor
  split at hissue
  · next length list hlength hlist =>
    rw [Option.some.injEq] at hissue
    subst hissue
    have hne : list.parameters.isEmpty = false := by
      rw [constructorLineLength?, hlist] at hlength
      simp only at hlength
      split at hlength
      · exact absurd hlength (by simp only [reduceCtorEq, not_false_eq_true])
      · next hne => simpa only [Bool.not_eq_true] using hne
    exact ⟨rfl, rfl, wrapParameters_fits hsound hwalled (mem_descendants.1 hconstructor.1)
      hconstructor.2 hlist hne width⟩
  · exact absurd hissue (by simp only [reduceCtorEq, not_false_eq_true])

end SharpLint

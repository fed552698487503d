import SharpLint.Proofs.Edit.Returns
import SharpLint.Proofs.Lint.Rounds
import SharpLint.Proofs.Syntax.Ending

/-!
# Line Endings

A removal stops at ink, at the padding behind ink, or where a line starts, so it
parts no carriage return from its line feed, and it brings no line feed. A wrap
stops where a parameter begins, but it breaks lines with a bare line feed. So
the rounds of fixing leave at most as many bare line feeds as the source has and
as the wraps bring that they make, and none where long lines are not looked for
and every line feed of the source has its return.

## Main definitions

* `roundFeeds`: the number of line feeds that the wraps of a round bring.
* `wrapFeeds`: that of the rounds until they come to rest.

## Theorems

* `statementRemoval_keeps`: The removal of a statement parts no return.
* `RemovalPlan.Stands.keeps_returns`: No edit of a removal parts a return.
* `wrapEdits_keep`: No edit of a wrap parts a return.
* `bareFeeds_round_le`: What a round leaves.
* `fixSource_keeps_returns`: What all rounds leave.
-/

namespace SharpLint

open Text Place

/-! ### Where edits stop -/

namespace Document

variable {document : Document} {p node : Place}

/-- No return is parted from its line feed at either end of a piece. -/
theorem Piece.keeps (h : document.Piece p) :
    ¬document.source.PartsReturn p.start ∧ ¬document.source.PartsReturn p.stop := by
  obtain ⟨text, hholds, hsize, hsolid⟩ := h.solid
  rw [← hsize]
  exact hsolid.not_partsReturn hholds

theorem Begins.keeps (h : document.Begins node) : ¬document.source.PartsReturn node.start := by
  obtain ⟨first, hfirst, -, hstart⟩ := h
  rw [← hstart]
  exact hfirst.keeps.1

theorem Ends.keeps (h : document.Ends node) : ¬document.source.PartsReturn node.stop := by
  obtain ⟨last, hlast, -, hstop⟩ := h
  rw [← hstop]
  exact hlast.keeps.2

/-- A child of a kind that may close a node ends with a piece. -/
theorem Has.ends_of_mayClose (hp : document.Has p) (hsound : document.Sound)
    (hwalled : document.Walled) (hended : document.Ended) {n : Nat}
    (hchild : p.child? n = some node) (hkind : node.kind.mayClose = true) :
    document.Ends node := by
  obtain ⟨last, hbelow, hcode, hstop⟩ :=
    hp.exists_last_token hsound hwalled hended hchild hkind
  exact ⟨last, piece_of_isCode hsound ((hp.child hchild).below hbelow) hcode, hbelow, hstop⟩

/-- The removal of a node that ends with ink stops where a line starts, or
    behind padding. -/
theorem statementRemoval_keeps (hsound : document.Sound) (hnode : document.Has node)
    (hends : document.Ends node) :
    ¬document.source.PartsReturn (statementRemoval document node).stop := by
  obtain ⟨before, lead, mid, line, after, h⟩ := hnode.exists_surrounds hsound
  rcases h.statementRemoval_cases hsound with ⟨-, -, heq⟩ | ⟨padding, rest, hline, hpadding, heq⟩
  all_goals rw [heq]
  · rcases h.breaksOff with rfl | ⟨more, rfl⟩
    · rw [h.source]
      exact not_partsReturn_size _
    · -- The next line starts behind the line feed.
      have hstart : AtLineStart (before ++ lead ++ mid ++ line ++ ['\n']) := .inr ⟨_, rfl⟩
      have hsource : document.source = before ++ lead ++ mid ++ line ++ ['\n'] ++ more := by
        rw [h.source, List.append_assoc _ ['\n'], List.singleton_append]
      rw [hsource]
      exact not_partsReturn_of_atLineStart hstart
  · exact not_partsReturn_of_padding hpadding (h.holds_line hline) hends.keeps

theorem memberRemoval_stop (member : Place) :
    (memberRemoval document member).stop = (statementRemoval document member).stop := by
  rcases memberRemoval_cases document member with heq | heq <;> rw [heq]

/-- The removals from a list of children stop where a child begins or ends. -/
theorem Has.removalsFromList_keep (hp : document.Has p) (hsound : document.Sound)
    (hwalled : document.Walled) (hended : document.Ended) {kind : Kind}
    (hkind : kind.mayClose = true) {removed : List Bool} {span : Span}
    (h : span ∈ removalsFromList ((p.childrenOf kind).map Place.span) removed) :
    ¬document.source.PartsReturn span.stop := by
  have hmem {item : Span} (hitem : item ∈ (p.childrenOf kind).map Place.span) :
      ¬document.source.PartsReturn item.start ∧ ¬document.source.PartsReturn item.stop := by
    obtain ⟨child, hchild, rfl⟩ := List.mem_map.1 hitem
    obtain ⟨⟨⟨n, hn⟩, -⟩, hchildKind⟩ := mem_childrenOf.1 hchild
    have hclose : child.kind.mayClose = true := by rw [hchildKind, hkind]
    have hopen : child.kind.mayOpen = true := by
      rw [Kind.mayClose, Bool.and_eq_true, Bool.and_eq_true] at hclose
      exact hclose.1.1
    exact ⟨(hp.begins hsound hwalled hn hopen).keeps,
      (hp.ends_of_mayClose hsound hwalled hended hn hclose).keeps⟩
  -- A removal reaches to the next child that stays, or to the end of the last.
  rcases SharpLint.mem_removalsFromList h with ⟨n, item, next, -, hnext, -, rfl⟩
    | ⟨kept, item, last, -, hlast, -, -, -, rfl⟩ | ⟨first, last, -, hlast, -, rfl⟩
  · exact (hmem (List.mem_of_getElem? hnext)).1
  · exact (hmem (List.mem_of_getLast? hlast)).2
  · exact (hmem (List.mem_of_getLast? hlast)).2

end Document

namespace RemovalPlan.Stands

variable {plan : RemovalPlan} {document : Document} {anchor : Span}

/-- No edit of a removal parts a return from its line feed. -/
theorem keeps_returns (h : plan.Stands document anchor) (hsound : document.Sound)
    (hwalled : document.Walled) (hended : document.Ended) {edit : Edit}
    (hedit : edit ∈ plan.edits document) : edit.KeepsReturns document.source := by
  rcases mem_edits.1 hedit with ⟨write, hwrite, dead, hdead, rfl⟩
    | ⟨write, hwrite, list, hlist, hedit⟩ | hedit
  · obtain ⟨hconstructor, hkind⟩ := h.hasConstructor hwrite
    cases hbody : dead.isBody with
    | true =>
        rw [deadStatementEdit, if_pos hbody]
        exact (hconstructor.ends hsound hwalled (by rw [hkind]; rfl)).keeps
    | false =>
        obtain ⟨n, body, m, hn, -, -, hm, hstatement⟩ :=
          Document.block_of_dead (dead_of_mem hwrite hdead) hbody
        have hhas := (hconstructor.child hn).child hm
        rw [deadStatementEdit, if_neg (by rw [hbody]; decide)]
        exact Document.statementRemoval_keeps hsound hhas
          (hhas.ends hsound hwalled (by rw [hstatement]; rfl))
  · obtain ⟨hhas, hkind, -⟩ := h.hasList hsound hwrite hlist
    rcases Document.mem_parameterEdits hedit with ⟨-, rfl⟩ | ⟨span, hspan, rfl⟩
    · -- All that is between the brackets goes, up to the closing one.
      obtain ⟨opening, closing, n, -, hclosing, -, hstop, -, hlexeme⟩ :=
        hhas.list_ends hsound hkind
      have hsize := (hhas.child hclosing).stop_of_char hsound hlexeme
      have hne : closing.node.lexeme ≠ "" := by
        intro hempty
        rw [hempty, String.toList_empty] at hlexeme
        exact List.cons_ne_nil _ _ hlexeme.symm
      have hholds := (slice?_eq_some_iff_holdsAt.1
        (((hhas.child hclosing).laidOut hsound).token hne)).1
      have hstart : closing.start = list.stop - 1 := by
        have hchar : (')' : Char).utf8Size = 1 := rfl
        omega
      rw [hlexeme] at hholds
      have hsolid : Text.Solid [')'] := ⟨⟨')', [], rfl, by decide⟩, [], ')', rfl, by decide⟩
      have hkeeps := (hsolid.not_partsReturn hholds).1
      rwa [show closing.node.span.start = list.stop - 1 from hstart] at hkeeps
    · exact hhas.removalsFromList_keep hsound hwalled hended (by rfl) hspan
  · by_cases hmany : 1 < (plan.declaration.childrenOf .variableDeclarator).length
    · rw [Document.declaratorEdits_of_many hmany] at hedit
      obtain ⟨span, hspan, rfl⟩ := List.mem_map.1 hedit
      exact h.hasDeclaration.1.removalsFromList_keep hsound hwalled hended (by rfl) hspan
    · rw [Document.declaratorEdits_of_sole hmany, List.mem_singleton] at hedit
      rw [hedit]
      obtain ⟨hfield, hkind, -⟩ := h.hasField
      have hkeeps := Document.statementRemoval_keeps hsound hfield
        (hfield.ends hsound hwalled (by rw [hkind]; rfl))
      rwa [← Document.memberRemoval_stop] at hkeeps

end RemovalPlan.Stands

/-- No edit of a wrap parts a return from its line feed, for each stops where a
    parameter begins. -/
theorem wrapEdits_keep {document : Document} (hsound : document.Sound) (hwalled : document.Walled)
    {list : Place} (hlist : document.Has list) (indent : Text) (parameters : List Place)
    (gapStart : Nat) (hchildren : ∀ parameter ∈ parameters, (∃ n, list.child? n = some parameter)
      ∧ parameter.kind = .parameter) :
    ∀ edit ∈ wrapEdits document list indent gapStart parameters,
      edit.KeepsReturns document.source := by
  induction parameters generalizing gapStart with
  | nil => exact fun edit hedit => absurd hedit List.not_mem_nil
  | cons parameter parameters ih =>
      intro edit hedit
      rw [wrapEdits] at hedit
      rcases List.mem_cons.1 hedit with rfl | hedit
      · obtain ⟨⟨n, hn⟩, hkind⟩ := hchildren parameter List.mem_cons_self
        exact (hlist.begins hsound hwalled hn (by rw [hkind]; rfl)).keeps
      · exact ih _ (fun other hother => hchildren other (List.mem_cons_of_mem _ hother)) edit hedit

/-! ### Fixes on offer -/

variable {config : Config} {source : Text} {fix : Fix}

/-- No edit of a fix on offer parts a return from its line feed. -/
theorem keeps_returns_of_mem_offers (h : fix ∈ offers config source) :
    ∀ edit ∈ fix.edits, edit.KeepsReturns source := by
  have hsound := Document.parse_sound source
  have hwalled := Document.parse_walled source
  obtain ⟨issue, hissue, hfix⟩ := mem_offers.1 h
  intro edit hedit
  rcases made_of_mem_analyze hissue hfix with ⟨-, found, -, hmade⟩ | ⟨_, -, plan, hplan⟩
  · obtain ⟨-, list, indent, hlist, -, hperm⟩ := edits_of_wrapParameters hmade
    refine wrapEdits_keep hsound hwalled hlist indent list.parameters _ (fun parameter hmem => ?_)
      edit (hperm.mem_iff.1 hedit)
    obtain ⟨⟨hchild, -⟩, hkind⟩ := mem_childrenOf.1 hmem
    exact ⟨hchild, hkind⟩
  · exact hplan.keeps_returns hsound hwalled (Document.parse_ended source)
      (hplan.mem_fix.1 hedit)

/-- A removal brings no line feed. -/
theorem RemovalPlan.Leads.feeds_eq_zero {plan : RemovalPlan} {document : Document} {anchor : Span}
    (h : plan.Leads document anchor fix) (hsound : document.Sound) : Edit.feeds fix.edits = 0 := by
  refine Edit.feeds_eq_zero_iff.2 fun edit hedit => ?_
  rcases h.text_of_mem_edits hsound (h.mem_fix.1 hedit) with htext | htext <;>
  · rw [htext]
    rfl

/-- Only wraps bring line feeds. -/
theorem feeds_eq_zero_of_mem_offers (h : fix ∈ offers config source)
    (hremoval : fix.key ≠ Fixer.wrapParameters.key
      ∨ config.rules.checkConstructorLength = false) : Edit.feeds fix.edits = 0 := by
  obtain ⟨issue, hissue, hfix⟩ := mem_offers.1 h
  rcases made_of_mem_analyze hissue hfix with ⟨hlength, found, -, hmade⟩ | ⟨_, -, plan, hplan⟩
  · rcases hremoval with hkey | hoff
    · exact absurd (edits_of_wrapParameters hmade).1 hkey
    · exact absurd hlength (rule_ne_of_mem_analyze hoff hissue)
  · exact hplan.feeds_eq_zero (Document.parse_sound source)

/-! ### Rounds -/

/-- The number of line feeds that the wraps bring which a round takes. -/
def roundFeeds (config : Config) (source : Text) : Nat :=
  let taken := Batch.accepted (Batch.verdicts {} (offers config source))
  Edit.feeds ((taken.filter fun fix => fix.key == Fixer.wrapParameters.key).flatMap Fix.edits)

/-- The number of line feeds that the wraps of all rounds bring, up to the one
    that changes nothing. -/
def wrapFeeds (config : Config) : Nat → Text → Nat
  | 0, _ => 0
  | passes + 1, source =>
    let fixed := (Batch.run source (offers config source)).1
    if fixed = source then 0 else roundFeeds config source + wrapFeeds config passes fixed

theorem mem_offers_of_mem_accepted
    (h : fix ∈ Batch.accepted (Batch.verdicts {} (offers config source))) :
    fix ∈ offers config source := by
  obtain ⟨verdict, hverdict, rfl⟩ := List.mem_map.1 h
  rw [← Batch.map_fst_verdicts {} (offers config source)]
  exact List.mem_map_of_mem (List.mem_filter.1 hverdict).1

/-- Fixes that bring no line feeds may be left out of the count. -/
theorem feeds_filter {p : Fix → Bool} {fixes : List Fix}
    (h : ∀ fix ∈ fixes, p fix = false → Edit.feeds fix.edits = 0) :
    Edit.feeds ((fixes.filter p).flatMap Fix.edits) = Edit.feeds (fixes.flatMap Fix.edits) := by
  induction fixes with
  | nil => rfl
  | cons fix fixes ih =>
      have hrest := ih fun other hother => h other (List.mem_cons_of_mem _ hother)
      rw [List.flatMap_cons, Edit.feeds_append, ← hrest]
      cases hp : p fix with
      | true => rw [List.filter_cons_of_pos hp, List.flatMap_cons, Edit.feeds_append]
      | false =>
          rw [List.filter_cons_of_neg (by rw [hp]; decide), h fix List.mem_cons_self hp,
            Nat.zero_add]

/-- A round leaves no bare line feeds but those of the source and those of its
    wraps. -/
theorem bareFeeds_round_le (config : Config) (source : Text) :
    (Batch.run source (offers config source)).1.bareFeeds
      ≤ source.bareFeeds + roundFeeds config source := by
  have hbatch := Batch.bareFeeds_run_le (fun fix hfix => fits_of_mem_offers hfix)
    fun fix (hfix : fix ∈ offers config source) => keeps_returns_of_mem_offers hfix
  rw [roundFeeds, feeds_filter]
  · exact hbatch
  · intro fix hfix hkey
    exact feeds_eq_zero_of_mem_offers (mem_offers_of_mem_accepted hfix)
      (.inl fun heq => absurd (hkey.symm.trans (beq_iff_eq.2 heq)) Bool.false_ne_true)

/-- Where long lines are not looked for, no wrap is made. -/
theorem roundFeeds_eq_zero (hoff : config.rules.checkConstructorLength = false) (source : Text) :
    roundFeeds config source = 0 := by
  refine Edit.feeds_eq_zero_iff.2 fun edit hedit => ?_
  obtain ⟨fix, hfix, hedit⟩ := List.mem_flatMap.1 hedit
  exact Edit.feeds_eq_zero_iff.1 (feeds_eq_zero_of_mem_offers
    (mem_offers_of_mem_accepted (List.mem_filter.1 hfix).1) (.inr hoff)) edit hedit

theorem wrapFeeds_eq_zero (hoff : config.rules.checkConstructorLength = false) (passes : Nat)
    (source : Text) : wrapFeeds config passes source = 0 := by
  induction passes generalizing source with
  | zero => rfl
  | succ passes ih =>
      rw [wrapFeeds]
      split
      · rfl
      · rw [roundFeeds_eq_zero hoff, ih]

/-- Rounds leave no bare line feeds but those of the source and those of their
    wraps. -/
theorem bareFeeds_rounds_le (config : Config) (passes : Nat) (source : Text) (applied : Nat) :
    (fixRounds config passes source applied).1.bareFeeds
      ≤ source.bareFeeds + wrapFeeds config passes source := by
  induction passes generalizing source applied with
  | zero => exact Nat.le_refl _
  | succ passes ih =>
      rw [fixRounds_succ, wrapFeeds]
      split
      · exact Nat.le_add_right _ _
      · split
        · exact Nat.le_add_right _ _
        · have hround := bareFeeds_round_le config source
          have hrest := ih (Batch.run source (offers config source)).1
            (applied + (Batch.run source (offers config source)).2)
          omega

/-- Fixing leaves no bare line feeds but those of the source and those of the
    wraps it makes. So the line endings of a source are kept where each line
    feed has its return and long lines are not looked for. -/
theorem fixSource_keeps_returns (config : Config) (source : Text) :
    (fixSource config source).1.bareFeeds
        ≤ source.bareFeeds + wrapFeeds config config.autofix.maxPasses source
      ∧ (config.rules.checkConstructorLength = false → source.AllReturned →
        (fixSource config source).1.AllReturned) := by
  have hbound := bareFeeds_rounds_le config config.autofix.maxPasses source 0
  refine ⟨hbound, fun hoff hreturned => ?_⟩
  rw [← bareFeeds_eq_zero_iff] at hreturned ⊢
  rw [wrapFeeds_eq_zero hoff, hreturned] at hbound
  exact Nat.le_zero.1 hbound

/-- A field that only the body of a constructor assigns, in lines that end in a
    return and a feed. -/
def returnedSource : Text :=
  "class C\r\n\x7b\r\n    private int _x;\r\n    C(int x) => _x = x;\r\n\x7d\r\n".toList

set_option maxRecDepth 100000 in
/-- The removal of the field changes the source and keeps its line endings. -/
theorem fixSource_keeps_returns_of_removal :
    returnedSource.AllReturned
      ∧ (fixSource { rules := { checkConstructorLength := false } } returnedSource).1
        ≠ returnedSource
      ∧ (fixSource { rules := { checkConstructorLength := false } } returnedSource).1.AllReturned := by
  have hreturned : returnedSource.AllReturned := bareFeeds_eq_zero_iff.1 (by decide)
  exact ⟨hreturned, by decide +kernel, (fixSource_keeps_returns _ returnedSource).2 rfl hreturned⟩

/-- A constructor, in lines that end in a return and a feed. -/
def wrappableSource : Text :=
  "class C\r\n\x7b\r\n    C(int x) \x7b \x7d\r\n\x7d\r\n".toList

/-- Lines of ten characters at most. -/
def tenWide : Config :=
  { style := { maxLineLength := 10 } }

set_option maxRecDepth 100000 in
/-- Where a list is wrapped, a line feed may have no return before it. -/
theorem wrap_brings_bare_feed :
    ¬∀ (config : Config) (source : Text), source.AllReturned →
      (fixSource config source).1.AllReturned := by
  intro h
  have hreturned : wrappableSource.AllReturned := bareFeeds_eq_zero_iff.1 (by decide)
  have hbare : (fixSource tenWide wrappableSource).1.bareFeeds ≠ 0 := by
    decide +kernel
  exact hbare (bareFeeds_eq_zero_iff.2 (h tenWide wrappableSource hreturned))

end SharpLint

import SharpLint.Proofs.Edit.Sequence
import SharpLint.Proofs.Lint.Applicable

/-!
# Rounds of Fixing

A round makes the fixes that it takes one after the other, each of them moved
to where its places have gone. None of them is planned anew on what those
before it have left, so rounds may end elsewhere than single fixes with an
analysis before each.

Every removal of a field takes an equals sign out of the source, the one of a
dead assignment, and no fix puts one in. So a round that applies a removal
changes the source. When the rounds come to rest, the fixes of the last one are
wraps of lists that are wrapped already, and each other fix conflicts with one
of those: such a wrap may keep a removal from being applied for good.

## Main definitions

* `offers`: the fixes that an analysis offers.
* `settles`: whether rounds come to rest before their number is used up.
* `fixSingly`: the source after single fixes, with an analysis before each.

## Theorems

* `RemovalPlan.Leads.takes_equals`: A removal takes an equals sign away.
* `round_makes_fixes_in_turn`: A round makes its fixes one after the other.
* `exists_idle`: Where a round changes nothing, all it applies are wraps.
* `settles_of_count`: Where long lines are not looked for, rounds come to rest.
* `fixSource_leaves_displaced`: At rest, what is left is displaced by wraps.
-/

namespace SharpLint

open Text Place

/-! ### Equals signs -/

/-- The sibling just after a child is the next child. -/
theorem Place.child?_of_next? {parent child next : Place} {n : Nat}
    (h : parent.child? n = some child) (hnext : child.next? = some next) :
    parent.child? (n + 1) = some next := by
  rw [next?, sibling?, (child?_eq_some.1 h).2] at hnext
  exact hnext

/-- A plain assignment has an equals sign as a child. -/
theorem Place.exists_equals {assignment : Place} (h : assignment.isPlainAssignment = true) :
    ∃ n operator, assignment.child? n = some operator ∧ operator.lexeme = "=" := by
  rw [isPlainAssignment, Bool.and_eq_true] at h
  cases hoperator : assignment.operator? with
  | none =>
      rw [hoperator] at h
      exact absurd h.2 Bool.false_ne_true
  | some operator =>
      rw [hoperator] at h
      have hlexeme : operator.lexeme = "=" := eq_of_beq h.2
      rw [operator?, Option.or_eq_some_iff] at hoperator
      -- The operator has a label of its own, or it comes next to the left side.
      rcases hoperator with hoperator | ⟨-, hoperator⟩
      · obtain ⟨⟨n, hn⟩, -⟩ := child?_of_labelled? hoperator
        exact ⟨n, operator, hn, hlexeme⟩
      · obtain ⟨left, hleft, hnext⟩ := Option.bind_eq_some_iff.1 hoperator
        obtain ⟨⟨n, hn⟩, -⟩ := child?_of_labelled? hleft
        exact ⟨n + 1, operator, child?_of_next? hn hnext, hlexeme⟩

namespace RemovalPlan

namespace Leads

variable {plan : RemovalPlan} {document : Document} {anchor : Span} {fix : Fix}

/-- No edit of a removal brings an equals sign. -/
theorem count_equals (h : plan.Leads document anchor fix) (hsound : document.Sound) {edit : Edit}
    (hedit : edit ∈ fix.edits) : edit.text.count '=' = 0 := by
  rcases h.text_of_mem_edits hsound (h.mem_fix.1 hedit) with htext | htext <;>
  · rw [htext]
    rfl

/-- A removal takes an equals sign away, and brings none. -/
theorem takes_equals (h : plan.Leads document anchor fix) (hsound : document.Sound)
    (hfits : fix.Fits document.source) :
    (∀ edit ∈ fix.edits, edit.AddsNo '=' document.source)
      ∧ ∃ edit ∈ fix.edits,
        edit.text.count '=' < (document.source.slice edit.span).count '=' := by
  refine ⟨fun edit hedit => ?_, ?_⟩
  · rw [Edit.AddsNo, h.count_equals hsound hedit]
    exact Nat.zero_le _
  obtain ⟨write, hwrite⟩ := List.exists_mem_of_ne_nil _ h.writes
  obtain ⟨-, hstatements, hne⟩ := mem_writes hwrite
  obtain ⟨dead, hdead⟩ := List.exists_mem_of_ne_nil _ hne
  obtain ⟨-, -, -, -, ⟨k, hk⟩, hassigns, -, -⟩ := Document.mem_deadStatements (hstatements ▸ hdead)
  rw [assignsField, Bool.and_eq_true] at hassigns
  obtain ⟨n, operator, hoperator, hlexeme⟩ := exists_equals hassigns.1
  have hstatement := (h.hasDead hwrite hdead).1
  have hbelow : Below dead.statement operator := .step (.step .refl hk) hoperator
  have hinside := hstatement.inside hsound hbelow
  -- The operator lies in the dead statement, so an edit takes it.
  have hcovers : fix.Covers operator := h.covers_of_dead hsound hwrite hdead (Span.within_iff.2 hinside)
  obtain ⟨edit, hedit, hwithin⟩ := hcovers
  rw [Span.within_iff] at hwithin
  refine ⟨edit, hedit, ?_⟩
  rw [h.count_equals hsound hedit]
  have hlaid := (hstatement.below hbelow).laidOut hsound
  have hslice : document.source.slice operator.span = ['='] := by
    have hne : operator.node.lexeme ≠ "" := by
      rw [show operator.node.lexeme = "=" from hlexeme]
      decide
    rw [show operator.span = operator.node.span from rfl, slice_eq_of_slice? (hlaid.token hne),
      show operator.node.lexeme = "=" from hlexeme]
    rfl
  have hslices := slices_sublist [operator.span] (hfits.fitsIn edit hedit).startCut
    (hfits.fitsIn edit hedit).stopCut
    (fun span hspan => List.mem_singleton.1 hspan ▸ ⟨hlaid.startCut, hlaid.stopCut⟩)
    (fun span hspan => List.mem_singleton.1 hspan ▸ ⟨hwithin.1, hlaid.proper, hwithin.2⟩)
    (List.pairwise_singleton _ _)
  rw [List.flatMap_singleton, hslice] at hslices
  exact hslices.count_le '='

end Leads

end RemovalPlan

/-! ### Offers -/

/-- The fixes that the analysis of a source offers, in the order of its
    report. -/
def offers (config : Config) (source : Text) : List Fix :=
  (analyze config source).filterMap Issue.fix

/-- A fix on offer is for an issue. -/
theorem mem_offers {config : Config} {source : Text} {fix : Fix} :
    fix ∈ offers config source ↔ ∃ issue ∈ analyze config source, issue.fix = some fix :=
  List.mem_filterMap

/-- A fix on offer is the wrap of a long list, or a removal. -/
theorem made_of_mem_analyze {config : Config} {source : Text} {issue : Issue} {fix : Fix}
    (hissue : issue ∈ analyze config source) (hfix : issue.fix = some fix) :
    (issue.rule = .constructorLength
        ∧ ∃ found ∈ constructorLengthIssues config.style.maxLineLength (.parse source),
          wrapParameters config.style.indentSize (.parse source) found.span = .ok fix)
      ∨ ∃ found ∈ unreadFieldIssues (.parse source),
          ∃ plan : RemovalPlan, plan.Leads (.parse source) found.span fix := by
  rw [analyze, analyzeDocument] at hissue
  -- In a source with errors no issue has a fix.
  have hfound : ∃ found ∈ check config (.parse source), found.rule = issue.rule
      ∧ (found.fix = none → fixFor config (.parse source) found.rule.id found.span = .ok fix) := by
    split at hissue
    · exact ⟨issue, hissue, rfl, fun hnone => absurd (hfix.symm.trans hnone) (by
        simp only [reduceCtorEq, not_false_eq_true])⟩
    · obtain ⟨found, hfound, rfl⟩ := List.mem_map.1 hissue
      exact ⟨found, hfound, rfl, fun _ => eq_ok_of_toOption hfix⟩
  obtain ⟨found, hfound, hrule, hfixFor⟩ := hfound
  rw [← hrule]
  rcases mem_check hfound with hmem | hmem
  · obtain ⟨hlength, hnone, -⟩ := wrapParameters_of_issue (Document.parse_sound source)
      (Document.parse_walled source) hmem config.style.indentSize
    have hfixFor := hfixFor hnone
    rw [hlength] at hfixFor
    exact .inl ⟨hlength, found, hmem, hfixFor⟩
  · have hreported := hmem
    obtain ⟨type, -, hmem⟩ := List.mem_flatMap.1 hmem
    obtain ⟨declarator, -, hmem⟩ := List.mem_filterMap.1 hmem
    obtain ⟨-, -, -, -, -, hunread, -, hnone⟩ := unreadFieldIssue?_eq_some hmem
    have hfixFor := hfixFor hnone
    rw [hunread, show fixFor config (.parse source) Rule.unreadField.id found.span
      = removeField (.parse source) found.span from rfl] at hfixFor
    obtain ⟨plan, hplan⟩ := exists_plan hfixFor
    exact .inr ⟨found, hreported, plan, hplan⟩

/-- A fix on offer fits the source and brings no equals sign; it is a wrap, or
    it takes an equals sign away. -/
theorem fits_of_mem_analyze {config : Config} {source : Text} {issue : Issue} {fix : Fix}
    (hissue : issue ∈ analyze config source) (hfix : issue.fix = some fix) :
    fix.Fits source ∧ (∀ edit ∈ fix.edits, edit.AddsNo '=' source)
      ∧ (issue.rule = .constructorLength
        ∨ ∃ edit ∈ fix.edits, edit.text.count '=' < (source.slice edit.span).count '=') := by
  have hsound := Document.parse_sound source
  have hwalled := Document.parse_walled source
  rcases made_of_mem_analyze hissue hfix with ⟨hlength, found, hfound, hmade⟩ | ⟨_, -, plan, hplan⟩
  · obtain ⟨-, -, wrap, hwrap, hfits, hadds⟩ :=
      wrapParameters_of_issue hsound hwalled hfound config.style.indentSize
    rw [hwrap, Except.ok.injEq] at hmade
    subst hmade
    exact ⟨hfits, hadds '=' (by decide), .inl hlength⟩
  · -- A removal takes a dead assignment, and with it an equals sign.
    have hfits := hplan.fits hsound hwalled
    obtain ⟨hadds, htakes⟩ := hplan.takes_equals hsound hfits
    exact ⟨hfits, hadds, .inr htakes⟩

theorem fits_of_mem_offers {config : Config} {source : Text} {fix : Fix}
    (h : fix ∈ offers config source) : fix.Fits source :=
  have ⟨_, hissue, hfix⟩ := mem_offers.1 h
  (fits_of_mem_analyze hissue hfix).1

/-- Where long lines are not looked for, none is reported. -/
theorem rule_ne_of_mem_analyze {config : Config} {source : Text} {issue : Issue}
    (hoff : config.rules.checkConstructorLength = false) (hissue : issue ∈ analyze config source) :
    issue.rule ≠ .constructorLength := by
  have hcheck : ∀ found ∈ check config (.parse source), found.rule ≠ .constructorLength := by
    intro found hfound
    obtain ⟨rule, hrule, hmem⟩ := List.mem_flatMap.1 ((sortBy_perm _ _).mem_iff.1 hfound)
    have hunread : rule = .unreadField := by
      rw [Config.enabledRules, hoff, if_neg Bool.false_ne_true, List.nil_append] at hrule
      split at hrule
      · exact List.mem_singleton.1 hrule
      · exact absurd hrule List.not_mem_nil
    subst hunread
    obtain ⟨type, -, hmem⟩ := List.mem_flatMap.1 hmem
    obtain ⟨declarator, -, hmem⟩ := List.mem_filterMap.1 hmem
    obtain ⟨-, -, -, -, -, hfoundRule, -⟩ := unreadFieldIssue?_eq_some hmem
    rw [hfoundRule]
    decide
  rw [analyze, analyzeDocument] at hissue
  split at hissue
  · exact hcheck issue hissue
  · obtain ⟨found, hfound, rfl⟩ := List.mem_map.1 hissue
    exact hcheck found hfound

theorem tidy_nil (text : Text) : tidy text [] = text :=
  (tidied_tidy text []).keeps fun _ _ _ _ htouched => absurd htouched (by
    simp only [touchesLine, List.any_nil, Bool.false_eq_true, not_false_eq_true])

theorem Batch.run_nil (text : Text) : run text [] = (text, 0) := by
  rw [show run text [] = (tidy text [], 0) from rfl, tidy_nil]

/-- A round leaves what the fixes it takes leave one after the other: each of
    them is moved to where its places have gone, and none is planned anew. A fix
    that is not taken conflicts with one that is. -/
theorem round_makes_fixes_in_turn (config : Config) (source : Text) :
    ∃ (taken : List Fix) (spliced : Text) (touched : List Span),
      taken.Sublist (offers config source)
      ∧ (∀ fix ∈ offers config source, fix ∈ taken ∨ ∃ other ∈ taken, other.Conflicts fix)
      ∧ Batch.inTurn source [] taken = some spliced
      ∧ Batch.run source (offers config source) = (tidy spliced touched, taken.length) := by
  have hfits : ∀ fix ∈ offers config source, fix.Fits source := fun fix => fits_of_mem_offers
  obtain ⟨taken, htaken⟩ := Batch.collects_ofFixes hfits
  obtain ⟨spliced, touched, hturns, hrun⟩ := Batch.inTurn_eq htaken hfits
  exact ⟨taken, spliced, touched, htaken.sublist, htaken.displaced, hturns, hrun⟩

/-- Whether the rounds of fixing come to rest before `passes` of them are used
    up. -/
def settles (config : Config) : Nat → Text → Bool
  | 0, _ => false
  | passes + 1, source =>
    let fixed := (Batch.run source (offers config source)).1
    fixed = source || settles config passes fixed

/-- The source after the first fix on offer that changes it. -/
def firstChange? (config : Config) (source : Text) : Option Text :=
  (offers config source).findSome? fun fix =>
    match fix.apply source with
    | .ok after => if after = source then none else some after
    | .error _ => none

/-- The source after single fixes, with an analysis before each of them; there
    is none when `passes` are not enough. -/
def fixSingly (config : Config) : Nat → Text → Option Text
  | 0, _ => none
  | passes + 1, source =>
    match firstChange? config source with
    | none => some source
    | some after => fixSingly config passes after

/-- Lines of five characters at most. -/
def narrow : Config :=
  { style := { maxLineLength := 5 } }

set_option maxRecDepth 100000 in
/-- Rounds and single fixes may leave different sources: the wrap of a list
    that a removal empties is planned before the removal. -/
theorem rounds_differ_from_single_fixes :
    ¬∀ (config : Config) (source after : Text), (Document.parse source).hasErrors = false →
      settles config config.autofix.maxPasses source = true →
      fixSingly config config.autofix.maxPasses source = some after →
      (fixSource config source).1 = after := by
  intro h
  have hsettles : settles narrow narrow.autofix.maxPasses unreadSource = true := by
    decide +kernel
  obtain ⟨after, hafter, hdiffers⟩ := (Option.any_eq_true _ _).1
    (show (fixSingly narrow narrow.autofix.maxPasses unreadSource).any
      ((fixSource narrow unreadSource).1 ≠ ·) = true by decide +kernel)
  exact of_decide_eq_true hdiffers (h narrow unreadSource after (by decide +kernel) hsettles hafter)

/-! ### Rest -/

/-- A batch with an edit that takes an equals sign away leaves fewer of them. -/
theorem count_run_lt {config : Config} {source : Text} {taken : List Fix}
    (h : (Batch.ofFixes (offers config source)).Collects source (offers config source) taken)
    {fix : Fix} (hfix : fix ∈ taken) {edit : Edit} (hedit : edit ∈ fix.edits)
    (hlt : edit.text.count '=' < (source.slice edit.span).count '=') :
    (Batch.run source (offers config source)).1.count '=' < source.count '=' := by
  have hcount := Batch.count_run h (c := '=') (by decide)
  have hadds : ∀ other ∈ (Batch.ofFixes (offers config source)).edits,
      other.text.count '=' ≤ (source.slice other.span).count '=' := by
    intro other hother
    obtain ⟨fix', hfix', hother⟩ := h.mem_edits.1 hother
    obtain ⟨issue', hissue', hissueFix'⟩ := mem_offers.1 (h.sublist.subset hfix')
    exact (fits_of_mem_analyze hissue' hissueFix').2.1 other hother
  have hless := count_flatMap_lt hadds (h.mem_edits.2 ⟨fix, hfix, hedit⟩) hlt
  omega

/-- Where a round changes nothing, each fix that it takes is a wrap. -/
theorem wraps_of_collects {config : Config} {source : Text} {idle : List Fix}
    (hrest : (Batch.run source (offers config source)).1 = source)
    (hidle : (Batch.ofFixes (offers config source)).Collects source (offers config source) idle)
    {fix : Fix} (hfix : fix ∈ idle) :
    ∃ issue ∈ analyze config source, issue.rule = .constructorLength ∧ issue.fix = some fix := by
  obtain ⟨issue, hissue, hissueFix⟩ := mem_offers.1 (hidle.sublist.subset hfix)
  refine ⟨issue, hissue, ?_, hissueFix⟩
  refine (fits_of_mem_analyze hissue hissueFix).2.2.resolve_right ?_
  rintro ⟨edit, hedit, hlt⟩
  have hless := count_run_lt hidle hfix hedit hlt
  rw [hrest] at hless
  exact Nat.lt_irrefl _ hless

/-- Where a round changes nothing, it applies wraps only, and every fix on
    offer is one of them or conflicts with one. -/
theorem exists_idle {config : Config} {source : Text}
    (hrest : (Batch.run source (offers config source)).1 = source) :
    ∃ idle : List Fix, (Batch.run source idle).1 = source
      ∧ (∀ fix ∈ idle, ∃ issue ∈ analyze config source, issue.rule = .constructorLength
        ∧ issue.fix = some fix)
      ∧ ∀ fix ∈ offers config source, fix ∈ idle ∨ ∃ wrap ∈ idle, wrap.Conflicts fix := by
  obtain ⟨idle, hidle⟩ :=
    Batch.collects_ofFixes fun fix (hfix : fix ∈ offers config source) => fits_of_mem_offers hfix
  have halone : Batch.run source idle = Batch.run source (offers config source) := by
    rw [Batch.run, hidle.alone, Batch.run]
  exact ⟨idle, by rw [halone, hrest], fun fix hfix => wraps_of_collects hrest hidle hfix,
    hidle.displaced⟩

theorem fixRounds_succ (config : Config) (passes : Nat) (source : Text) (applied : Nat) :
    fixRounds config (passes + 1) source applied
      = if (offers config source).isEmpty then (source, applied)
        else if (Batch.run source (offers config source)).1 = source then
          (source, applied + (Batch.run source (offers config source)).2)
        else fixRounds config passes (Batch.run source (offers config source)).1
          (applied + (Batch.run source (offers config source)).2) := by
  rw [fixRounds, offers]

/-- Rounds that come to rest leave a source that a further round leaves. -/
theorem run_of_settles {config : Config} {passes : Nat} {source : Text} (applied : Nat)
    (h : settles config passes source = true) :
    (Batch.run (fixRounds config passes source applied).1
      (offers config (fixRounds config passes source applied).1)).1
      = (fixRounds config passes source applied).1 := by
  induction passes generalizing source applied with
  | zero => exact absurd h Bool.false_ne_true
  | succ passes ih =>
      rw [settles, Bool.or_eq_true, decide_eq_true_eq] at h
      rw [fixRounds_succ]
      split
      · next hnone =>
        rw [List.isEmpty_iff.1 hnone, Batch.run_nil]
      · split
        · next hsame => exact hsame
        · next hchanged => exact ih _ (h.resolve_left hchanged)

/-- Where long lines are not looked for, a round leaves the source as it is or
    takes an equals sign away. -/
theorem count_run_of_changes {config : Config} (hoff : config.rules.checkConstructorLength = false)
    (source : Text) :
    (Batch.run source (offers config source)).1 = source
      ∨ (Batch.run source (offers config source)).1.count '=' < source.count '=' := by
  obtain ⟨taken, htaken⟩ :=
    Batch.collects_ofFixes fun fix (hfix : fix ∈ offers config source) => fits_of_mem_offers hfix
  -- A batch that takes no fix is that of no fixes; one that takes a removal loses an equals sign.
  cases taken with
  | nil =>
      left
      rw [show Batch.run source (offers config source) = Batch.run source [] by
        rw [Batch.run, Batch.run, htaken.alone], Batch.run_nil]
  | cons fix taken =>
      right
      obtain ⟨issue, hissue, hfix⟩ := mem_offers.1 (htaken.sublist.subset List.mem_cons_self)
      obtain ⟨edit, hedit, hlt⟩ := (fits_of_mem_analyze hissue hfix).2.2.resolve_left
        (rule_ne_of_mem_analyze hoff hissue)
      exact count_run_lt htaken List.mem_cons_self hedit hlt

/-- Where long lines are not looked for, each round but the last takes an equals
    sign away, so more rounds than there are such signs come to rest. -/
theorem settles_of_count {config : Config} (hoff : config.rules.checkConstructorLength = false)
    {passes : Nat} {source : Text} (h : source.count '=' < passes) :
    settles config passes source = true := by
  induction passes generalizing source with
  | zero => exact absurd h (Nat.not_lt_zero _)
  | succ passes ih =>
      rw [settles, Bool.or_eq_true, decide_eq_true_eq]
      refine (count_run_of_changes hoff source).imp id fun hless => ih ?_
      omega

/-- When the rounds come to rest, what is applied in a further one are wraps
    that together change nothing, and any other fix on offer conflicts with one
    of them. So nothing fixable is left where long lines are not looked for. -/
theorem fixSource_leaves_displaced (config : Config) (source : Text)
    (hsettles : settles config config.autofix.maxPasses source = true) :
    (∃ idle : List Fix,
      (Batch.run (fixSource config source).1 idle).1 = (fixSource config source).1
      ∧ (∀ fix ∈ idle, ∃ issue ∈ analyze config (fixSource config source).1,
        issue.rule = .constructorLength ∧ issue.fix = some fix)
      ∧ ∀ issue ∈ analyze config (fixSource config source).1, ∀ fix, issue.fix = some fix →
        fix ∈ idle ∨ ∃ wrap ∈ idle, wrap.Conflicts fix)
      ∧ (config.rules.checkConstructorLength = false →
        ∀ issue ∈ analyze config (fixSource config source).1, issue.fix = none) := by
  obtain ⟨idle, hidle, hwraps, hleft⟩ := exists_idle (run_of_settles 0 hsettles)
  refine ⟨⟨idle, hidle, hwraps, fun issue hissue fix hfix =>
    hleft fix (mem_offers.2 ⟨issue, hissue, hfix⟩)⟩, fun hoff issue hissue => ?_⟩
  have hnone : idle = [] := List.eq_nil_iff_forall_not_mem.2 fun fix hfix =>
    have ⟨_, hissue, hrule, _⟩ := hwraps fix hfix
    rule_ne_of_mem_analyze hoff hissue hrule
  refine Option.eq_none_iff_forall_ne_some.2 fun fix hfix => ?_
  rcases hleft fix (mem_offers.2 ⟨issue, hissue, hfix⟩) with hmem | ⟨wrap, hmem, -⟩ <;>
  · rw [hnone] at hmem
    exact List.not_mem_nil hmem

/-- A constructor whose parameter is wrapped already, on a line that stays too
    long. -/
def wrappedSource : Text :=
  "class C \x7b public C(\n              int x) \x7b _x = x; \x7d private int _x; \x7d".toList

set_option maxRecDepth 100000 in
theorem settles_wrappedSource : settles narrow narrow.autofix.maxPasses wrappedSource = true := by
  decide +kernel

/-- The wrap of a list that is wrapped already displaces the removal in every
    round, and the rounds come to rest with the source as it was. -/
theorem fixSource_leaves_displaced_removal :
    settles narrow narrow.autofix.maxPasses wrappedSource = true
      ∧ ∃ idle : List Fix,
        (Batch.run (fixSource narrow wrappedSource).1 idle).1 = (fixSource narrow wrappedSource).1
        ∧ (∀ fix ∈ idle, ∃ issue ∈ analyze narrow (fixSource narrow wrappedSource).1,
          issue.rule = .constructorLength ∧ issue.fix = some fix)
        ∧ ∀ issue ∈ analyze narrow (fixSource narrow wrappedSource).1, ∀ fix,
          issue.fix = some fix → fix ∈ idle ∨ ∃ wrap ∈ idle, wrap.Conflicts fix :=
  ⟨settles_wrappedSource, (fixSource_leaves_displaced narrow wrappedSource settles_wrappedSource).1⟩

set_option maxRecDepth 100000 in
/-- Rounds may come to rest while a fix on offer would change the source. -/
theorem rest_leaves_useful_fix :
    ¬∀ (config : Config) (source : Text),
      settles config config.autofix.maxPasses source = true →
      ∀ issue ∈ analyze config (fixSource config source).1, ∀ fix, issue.fix = some fix →
      ∀ after, fix.apply (fixSource config source).1 = .ok after →
        after = (fixSource config source).1 := by
  intro h
  have huseful : (analyze narrow (fixSource narrow wrappedSource).1).any (fun issue =>
      issue.fix.any fun fix => (fix.apply (fixSource narrow wrappedSource).1).toOption.any
        (· ≠ (fixSource narrow wrappedSource).1)) = true := by
    decide +kernel
  obtain ⟨issue, hissue, huseful⟩ := List.any_eq_true.1 huseful
  obtain ⟨fix, hfix, huseful⟩ := Option.any_eq_true _ _ |>.1 huseful
  obtain ⟨after, hafter, huseful⟩ := Option.any_eq_true _ _ |>.1 huseful
  refine of_decide_eq_true huseful ?_
  exact h narrow wrappedSource settles_wrappedSource issue hissue fix hfix after
    (eq_ok_of_toOption hafter)

end SharpLint

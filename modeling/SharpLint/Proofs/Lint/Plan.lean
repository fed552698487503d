import SharpLint.Proofs.Lint.Regions

/-!
# The Plan of a Removal

What the fix for an unread field is made from: the nodes it starts from, the
dead statements of the constructors, and the edits. Each edit takes some nodes
out of the source, and a piece that it meets belongs to one of them.

## Main definitions

* `RemovalPlan`: the nodes that the removal of a field starts from.
* `RemovalPlan.Stands`: the plan is found from an anchor, and nothing keeps the
  field.
* `RemovalPlan.Leads`: the fix at an anchor is made from the plan.
* `RemovalPlan.Takes`: an edit takes a node out of the source.

## Theorems

* `exists_plan`: A fix is made from a plan.
* `RemovalPlan.Stands.fix_eq`: A plan whose edits do not overlap leads to a fix.
* `RemovalPlan.Leads.exists_takes`: A piece that an edit meets belongs to what
  the edit takes.
-/

namespace SharpLint

open Text Place

/-- The nodes that the removal of a field starts from. -/
structure RemovalPlan where
  name : Place
  declarator : Place
  declaration : Place
  field : Place
  type : Place
  symbol : Symbol

namespace RemovalPlan

/-- The dead statements of the constructors. -/
def writes (plan : RemovalPlan) : List ConstructorWrites :=
  FieldUsage.writesOf plan.type plan.symbol

/-- The edits, in the order in which they are planned. -/
def edits (plan : RemovalPlan) (document : Document) : List Edit :=
  plan.writes.flatMap (constructorEdits document)
    ++ declaratorEdits document plan.field plan.declaration plan.declarator

/-- The plan is found from an anchor, and nothing keeps the field. -/
structure Stands (plan : RemovalPlan) (document : Document) (anchor : Span) : Prop where
  name : document.root.at? anchor .identifier = some plan.name
  declarator : plan.name.parentOf? .variableDeclarator = some plan.declarator
  declaration : plan.declarator.parentOf? .variableDeclaration = some plan.declaration
  field : plan.declaration.parentOf? .fieldDeclaration = some plan.field
  type : plan.field.enclosingType? = some plan.type
  symbol : plan.name.resolve? = some plan.symbol
  isField : plan.symbol.isField = true
  writes : plan.writes ≠ []
  reads : (FieldUsage.collect plan.type plan.symbol).reads = []
  otherWrites : (FieldUsage.collect plan.type plan.symbol).otherWrites = []

/-- The fix at an anchor is made from the plan. -/
structure Leads (plan : RemovalPlan) (document : Document) (anchor : Span) (fix : Fix) : Prop
    extends plan.Stands document anchor where
  edits : fix.edits = Edit.inOrder (plan.edits document)
  apart : Edit.overlapping fix.edits = false

end RemovalPlan

theorem exists_plan {document : Document} {anchor : Span} {fix : Fix}
    (h : removeField document anchor = .ok fix) :
    ∃ plan : RemovalPlan, plan.Leads document anchor fix := by
  have refused {e : Refusal} : ¬(.error e : Except Refusal Fix) = .ok fix := by
    simp only [reduceCtorEq, not_false_eq_true]
  -- Each test that is passed is a field of the plan.
  unfold removeField at h
  split at h
  rotate_left
  · exact absurd h refused
  next name hname =>
  split at h
  rotate_left
  · exact absurd h refused
  next declarator hdeclarator =>
  split at h
  rotate_left
  · exact absurd h refused
  next declaration hdeclaration =>
  split at h
  rotate_left
  · exact absurd h refused
  next field hfield =>
  split at h
  rotate_left
  · exact absurd h refused
  next type htype =>
  split at h
  rotate_left
  · exact absurd h refused
  next symbol hsymbol =>
  simp only at h
  split at h
  · exact absurd h refused
  next hisField =>
  split at h
  · exact absurd h refused
  next hwrites =>
  split at h
  · exact absurd h refused
  next hreads =>
  simp only [Fixer.fix, Fix.ofEdits] at h
  split at h
  · exact absurd h refused
  next hoverlap =>
  rw [Except.ok.injEq] at h
  simp only [Bool.or_eq_true, Bool.not_eq_true', not_or, Bool.not_eq_false, List.isEmpty_iff] at hreads
  refine ⟨⟨name, declarator, declaration, field, type, symbol⟩, ⟨hname, hdeclarator, hdeclaration,
    hfield, htype, hsymbol, by simpa only [Bool.not_eq_true', Bool.not_eq_false] using hisField, ?_,
    hreads.1, hreads.2⟩, ?_, ?_⟩
  · exact fun hnil => hwrites (List.isEmpty_iff.2 hnil)
  · rw [← h]
    rfl
  · rw [← h]
    simpa only [Bool.not_eq_true] using hoverlap

/-! ### Nodes of the plan -/

namespace Document

variable {document : Document}

theorem Has.parentOf {p parent : Place} {kind : Kind} (h : document.Has p)
    (hparent : p.parentOf? kind = some parent) :
    document.Has parent ∧ parent.kind = kind ∧ ∃ n, parent.child? n = some p := by
  unfold Place.parentOf? at hparent
  split at hparent
  · next parent' hparent' =>
    split at hparent
    · next hkind =>
      rw [isA, beq_iff_eq] at hkind
      rw [Option.some.injEq] at hparent
      subst hparent
      exact ⟨(h.parent hparent').1, hkind, (h.parent hparent').2⟩
    · exact absurd hparent (by simp only [reduceCtorEq, not_false_eq_true])
  · exact absurd hparent (by simp only [reduceCtorEq, not_false_eq_true])

theorem Has.enclosingType {p type : Place} (h : document.Has p)
    (htype : p.enclosingType? = some type) :
    document.Has type ∧ Below type p ∧ type.kind.isTypeDeclaration = true :=
  below_of_ancestor? h htype

/-- A constructor of a type stands in the body of the type. -/
theorem Has.constructor {type constructor : Place} (h : document.Has type)
    (hconstructor : constructor ∈ type.constructors) :
    document.Has constructor ∧ constructor.kind = .constructorDeclaration ∧ Below type constructor
      ∧ ∃ n body, type.child? n = some body ∧ body.kind = .declarationList
        ∧ ∃ m, body.child? m = some constructor := by
  rw [constructors, List.mem_filter, members] at hconstructor
  obtain ⟨hmember, hkind⟩ := hconstructor
  rw [isA, beq_iff_eq] at hkind
  split at hmember
  · next body hbody =>
    obtain ⟨⟨n, hn⟩, hbodyKind⟩ := child?_of_firstOf? hbody
    obtain ⟨⟨m, hm⟩, -⟩ := mem_namedChildren.1 hmember
    exact ⟨(h.child hn).child hm, hkind, .step (.step .refl hn) hm, n, body, hn, hbodyKind, m, hm⟩
  · exact absurd hmember List.not_mem_nil

/-- What a constructor holds as its parameters is a list: a name alone is the
    parameter of a lambda only. -/
theorem eq_parameterList {kind : Kind} (hparameters : kind.isParameters = true)
    (hholds : Kind.mayHold .constructorDeclaration kind = true) : kind = .parameterList := by
  cases kind <;> first
    | rfl
    | exact absurd hparameters Bool.false_ne_true
    | exact absurd hholds (by decide)

/-- The list of a constructor's parameters is a child of it. -/
theorem Has.ownParameterList {constructor list : Place} (h : document.Has constructor)
    (hsound : document.Sound) (hkind : constructor.kind = .constructorDeclaration)
    (hlist : constructor.ownParameterList? = some list) :
    (∃ n, constructor.child? n = some list) ∧ list.kind = .parameterList := by
  rw [ownParameterList?, Option.or_eq_some_iff] at hlist
  rcases hlist with hlist | ⟨-, hlist⟩
  · obtain ⟨⟨n, hn⟩, hlabel⟩ := child?_of_labelled? hlist
    refine ⟨⟨n, hn⟩, ?_⟩
    have hshape := h.shaped hsound
    have hparameters := hshape.parameters list.node (mem_of_child? hn) hlabel
    have hholds := hshape.holds list.node (mem_of_child? hn)
    rw [show constructor.node.kind = .constructorDeclaration from hkind] at hholds
    exact eq_parameterList hparameters hholds
  · exact child?_of_firstOf? hlist

/-- A node of one character takes as many bytes as that. -/
theorem Has.stop_of_char {node : Place} (h : document.Has node) (hsound : document.Sound) {c : Char}
    (hc : node.node.lexeme.toList = [c]) : node.start + c.utf8Size = node.stop := by
  have hne : node.node.lexeme ≠ "" := by
    intro hempty
    rw [hempty, String.toList_empty] at hc
    exact absurd hc (List.cons_ne_nil c []).symm
  have htoken := (h.laidOut hsound).token hne
  rw [hc] at htoken
  have hsize := (slice?_eq_some_iff_holdsAt.1 htoken).2
  rwa [size_cons, size_nil, Nat.add_zero] at hsize

/-- A parameter list begins and ends with a bracket. -/
theorem Has.list_ends {list : Place} (h : document.Has list) (hsound : document.Sound)
    (hkind : list.kind = .parameterList) :
    ∃ opening closing n, list.child? 0 = some opening ∧ list.child? (n + 1) = some closing
      ∧ opening.start = list.start ∧ closing.stop = list.stop
      ∧ opening.node.lexeme.toList = ['('] ∧ closing.node.lexeme.toList = [')'] := by
  obtain ⟨opening, closing, n, hopening, hclosing, hstart, hstop, hfit⟩ :=
    h.exists_brackets hsound (by rw [hkind]; rfl)
  rw [hkind] at hfit
  simp only [Kind.bracketsFit, Bool.and_eq_true, beq_iff_eq] at hfit
  exact ⟨opening, closing, n, hopening, hclosing, hstart, hstop, hfit.1, hfit.2⟩

/-- The brackets of a parameter list take one byte each. -/
theorem Has.list_brackets {list : Place} (h : document.Has list) (hsound : document.Sound)
    (hkind : list.kind = .parameterList) :
    Border list (list.start + 1) ∧ Border list (list.stop - 1)
      ∧ list.start + 1 ≤ list.stop - 1 ∧ 1 ≤ list.stop
      ∧ document.source.CutsAt (list.start + 1) ∧ document.source.CutsAt (list.stop - 1) := by
  obtain ⟨opening, closing, n, hfirst, hlast, hstart, hstop, hopen, hclose⟩ :=
    h.list_ends hsound hkind
  have hopening : opening.start + 1 = opening.stop := (h.child hfirst).stop_of_char hsound hopen
  have hclosing : closing.start + 1 = closing.stop := (h.child hlast).stop_of_char hsound hclose
  have horder := h.child_order hsound hfirst hlast (Nat.succ_pos _)
  -- The first child is one byte from the start of the list, and the last one byte from its stop.
  have hinner : opening.stop = list.start + 1 ∧ closing.start = list.stop - 1 := by omega
  refine ⟨hinner.1 ▸ h.border_stop hsound hfirst, hinner.2 ▸ h.border_start hsound hlast,
    by omega, by omega, hinner.1 ▸ ((h.child hfirst).laidOut hsound).stopCut,
    hinner.2 ▸ ((h.child hlast).laidOut hsound).startCut⟩

/-- A dead statement is the body of its constructor, or a statement of the
    block that is. -/
theorem mem_deadStatements {constructor : Place} {field : Symbol} {dead : DeadStatement}
    (h : dead ∈ deadStatements constructor field) :
    ∃ n body, constructor.child? n = some body
      ∧ (dead.isBody = true ∧ body.kind = .arrowExpressionClause ∧ dead.statement = body
        ∨ dead.isBody = false ∧ body.kind = .block ∧ dead.statement.kind = .expressionStatement
          ∧ ∃ m, body.child? m = some dead.statement)
      ∧ (∃ k, dead.statement.child? k = some dead.assignment)
      ∧ dead.assignment.assignsField field = true
      ∧ constructor.body? = some body ∧ dead.statement.content? = some dead.assignment := by
  have hcontent {place content : Place} (h : place.content? = some content) :
      ∃ k, place.child? k = some content :=
    (mem_namedChildren.1 (List.mem_of_find?_eq_some h)).1
  unfold deadStatements at h
  split at h
  · exact absurd h List.not_mem_nil
  · next body hbody =>
    obtain ⟨⟨n, hn⟩, -⟩ := mem_namedChildren.1 (List.mem_of_find?_eq_some hbody)
    have hkind := List.find?_some hbody
    simp only [isA, Bool.or_eq_true, beq_iff_eq] at hkind
    split at h
    · next harrow =>
      -- A body behind an arrow is the statement itself.
      rw [isA, beq_iff_eq] at harrow
      split at h
      · next expression hexpression =>
        split at h
        · next hassigns =>
          obtain rfl := List.mem_singleton.1 h
          exact ⟨n, body, hn, .inl ⟨rfl, harrow, rfl⟩, hcontent hexpression, hassigns, hbody,
            hexpression⟩
        · exact absurd h List.not_mem_nil
      · exact absurd h List.not_mem_nil
    · next harrow =>
      -- Of a block, the statements are looked at one by one.
      rw [isA, beq_iff_eq] at harrow
      obtain ⟨statement, hstatement, hdead⟩ := List.mem_filterMap.1 h
      obtain ⟨⟨⟨m, hm⟩, -⟩, hstatementKind⟩ := mem_childrenOf.1 hstatement
      split at hdead
      · next expression hexpression =>
        split at hdead
        · next hassigns =>
          rw [Option.some.injEq] at hdead
          subst hdead
          exact ⟨n, body, hn, .inr ⟨rfl, hkind.resolve_right harrow, hstatementKind, m, hm⟩,
            hcontent hexpression, hassigns, hbody, hexpression⟩
        · exact absurd hdead (by simp only [reduceCtorEq, not_false_eq_true])
      · exact absurd hdead (by simp only [reduceCtorEq, not_false_eq_true])

/-- A dead statement that is not a body stands in the block of its constructor. -/
theorem block_of_dead {constructor : Place} {field : Symbol} {dead : DeadStatement}
    (h : dead ∈ deadStatements constructor field) (hbody : dead.isBody = false) :
    ∃ n body m, constructor.child? n = some body ∧ body.kind = .block
      ∧ constructor.body? = some body ∧ body.child? m = some dead.statement
      ∧ dead.statement.kind = .expressionStatement := by
  obtain ⟨n, body, hn, hcases, -, -, hisBody, -⟩ := mem_deadStatements h
  rcases hcases with ⟨harrow, -⟩ | ⟨-, hblock, hkind, m, hm⟩
  · rw [hbody] at harrow
    exact absurd harrow Bool.false_ne_true
  · exact ⟨n, body, m, hn, hblock, hisBody, hm, hkind⟩

/-- A dead statement that is a body is that behind the arrow of its constructor. -/
theorem arrow_of_dead {constructor : Place} {field : Symbol} {dead : DeadStatement}
    (h : dead ∈ deadStatements constructor field) (hbody : dead.isBody = true) :
    ∃ n, constructor.child? n = some dead.statement
      ∧ dead.statement.kind = .arrowExpressionClause
      ∧ constructor.body? = some dead.statement := by
  obtain ⟨n, body, hn, hcases, -, -, hisBody, -⟩ := mem_deadStatements h
  rcases hcases with ⟨-, harrow, rfl⟩ | ⟨hblock, -⟩
  · exact ⟨n, hn, harrow, hisBody⟩
  · rw [hbody] at hblock
    exact absurd hblock.symm Bool.false_ne_true

/-- A parameter that goes is assigned by a dead statement, and all references
    to it are in the dead statements. -/
theorem removedParameters_spec {write : ConstructorWrites} {count n : Nat}
    (h : (removedParameters write count)[n]? = some true) :
    ∃ dead ∈ write.statements, ∃ right text, dead.assignment.labelled? .right = some right
      ∧ right.kind = .identifier
      ∧ right.resolve? = some (.parameter write.constructor.span n text)
      ∧ feedsOnlyDead write (.parameter write.constructor.span n text) = true := by
  simp only [removedParameters, List.getElem?_map, Option.map_eq_some_iff] at h
  obtain ⟨m, hm, h⟩ := h
  obtain ⟨hlt, hget⟩ := List.getElem?_eq_some_iff.1 hm
  rw [List.getElem_range] at hget
  subst hget
  -- The flag at `n` is set by a candidate, which a dead statement assigns.
  obtain ⟨candidate, hcandidate, h⟩ := List.any_eq_true.1 h
  obtain ⟨dead, hdead, hfed⟩ := List.mem_filterMap.1 hcandidate
  unfold fedParameter? at hfed
  split at hfed
  · exact absurd hfed (by simp only [reduceCtorEq, not_false_eq_true])
  · next right hright =>
    split at hfed
    · next hkind =>
      split at hfed
      · next owner index text hresolve =>
        split at hfed
        · next howner =>
          rw [Option.some.injEq] at hfed
          subst hfed howner
          rw [Bool.and_eq_true, beq_iff_eq] at h
          obtain ⟨rfl, hfeeds⟩ := h
          rw [isA, beq_iff_eq] at hkind
          exact ⟨dead, hdead, right, text, hright, hkind, hresolve, hfeeds⟩
        · exact absurd hfed (by simp only [reduceCtorEq, not_false_eq_true])
      · exact absurd hfed (by simp only [reduceCtorEq, not_false_eq_true])
    · exact absurd hfed (by simp only [reduceCtorEq, not_false_eq_true])

/-- A parameter that a dead statement assigns goes, if all references to it are
    in the dead statements. -/
theorem removed_of_feeds {write : ConstructorWrites} {dead : DeadStatement}
    (hdead : dead ∈ write.statements) {right : Place} {n : Nat} {text : String}
    (hright : dead.assignment.labelled? .right = some right) (hkind : right.kind = .identifier)
    (hresolve : right.resolve? = some (.parameter write.constructor.span n text))
    (hfeeds : feedsOnlyDead write (.parameter write.constructor.span n text) = true) {count : Nat}
    (hn : n < count) : (removedParameters write count)[n]? = some true := by
  have hfed : fedParameter? write.constructor dead
      = some (.parameter write.constructor.span n text) := by
    simp only [fedParameter?, hright, isA_iff.2 hkind, if_true, hresolve]
  rw [removedParameters, List.getElem?_map, List.getElem?_range hn]
  refine congrArg some (List.any_eq_true.2 ⟨_, List.mem_filterMap.2 ⟨dead, hdead, hfed⟩, ?_⟩)
  simp only [beq_self_eq_true, hfeeds, Bool.and_self]

theorem length_removedParameters (write : ConstructorWrites) (count : Nat) :
    (removedParameters write count).length = count := by
  simp only [removedParameters, List.length_map, List.length_range]

/-- A declarator among several is taken out of the list of them. -/
theorem declaratorEdits_of_many {field declaration declarator : Place}
    (hmany : 1 < (declaration.childrenOf .variableDeclarator).length) :
    declaratorEdits document field declaration declarator
      = (removalsFromList ((declaration.childrenOf .variableDeclarator).map Place.span)
          ((declaration.childrenOf .variableDeclarator).map fun other =>
            other.same declarator)).map .remove :=
  if_pos hmany

/-- The only declarator goes with its field. -/
theorem declaratorEdits_of_sole {field declaration declarator : Place}
    (hsole : ¬1 < (declaration.childrenOf .variableDeclarator).length) :
    declaratorEdits document field declaration declarator
      = [.remove (memberRemoval document field)] :=
  if_neg hsole

/-- An edit of a list takes all that is between the brackets, if all parameters
    go, or is one of the removals from the list. -/
theorem mem_parameterEdits {list : Place} {removed : List Bool} {edit : Edit}
    (h : edit ∈ parameterEdits list removed) :
    ((∀ flag ∈ removed, flag = true) ∧ edit = .remove ⟨list.start + 1, list.stop - 1⟩)
      ∨ ∃ span ∈ removalsFromList (list.parameters.map Place.span) removed,
        edit = .remove span := by
  unfold parameterEdits at h
  split at h
  · next hall =>
    rw [Bool.and_eq_true, List.all_eq_true] at hall
    exact .inl ⟨hall.2, List.mem_singleton.1 h⟩
  · obtain ⟨span, hspan, rfl⟩ := List.mem_map.1 h
    exact .inr ⟨span, hspan, rfl⟩

/-- A parameter inside an edit of its list is one that goes. -/
theorem Has.removed_of_parameterEdits {list : Place} (h : document.Has list)
    (hsound : document.Sound) {removed : List Bool} (hlength : removed.length = list.parameters.length)
    {edit : Edit} (hedit : edit ∈ parameterEdits list removed) {parameter : Place} {n : Nat}
    (hparameter : list.parameters[n]? = some parameter)
    (hwithin : parameter.span.within edit.span = true) : removed[n]? = some true := by
  rcases mem_parameterEdits hedit with ⟨hall, -⟩ | ⟨span, hspan, rfl⟩
  · obtain ⟨hn, -⟩ := List.getElem?_eq_some_iff.1 hparameter
    rw [List.getElem?_eq_getElem (hlength ▸ hn)]
    exact congrArg some (hall _ (List.getElem_mem _))
  · obtain ⟨hproper, hpairs⟩ := h.spans_childrenOf hsound .parameter
    exact removed_of_within (by rw [← parameters, List.length_map, hlength]) hproper hpairs hspan
      (by rw [← parameters, List.getElem?_map, hparameter]; rfl) hwithin

/-- A parameter that goes lies in an edit of its list. -/
theorem Has.exists_parameterEdit {list : Place} (h : document.Has list) (hsound : document.Sound)
    (hkind : list.kind = .parameterList) {removed : List Bool}
    (hlength : removed.length = list.parameters.length) {parameter : Place} {n : Nat}
    (hparameter : list.parameters[n]? = some parameter) (hlexeme : parameter.node.lexeme = "")
    (hremoved : removed[n]? = some true) :
    ∃ edit ∈ parameterEdits list removed, parameter.span.within edit.span = true := by
  have hchild {item : Place} (hitem : item ∈ list.parameters) :
      ∃ m, list.child? m = some item := (mem_childrenOf.1 hitem).1.1
  unfold parameterEdits
  split
  · -- The brackets are tokens, so the parameter is neither of them.
    refine ⟨_, List.mem_singleton.2 rfl, Span.within_iff.2 ?_⟩
    obtain ⟨m, hm⟩ := hchild (List.mem_of_getElem? hparameter)
    obtain ⟨opening, closing, k, hfirst, hlast, hstart, hstop, hopen, hclose⟩ :=
      h.list_ends hsound hkind
    have hopening : opening.start + 1 = opening.stop := (h.child hfirst).stop_of_char hsound hopen
    have hclosing : closing.start + 1 = closing.stop := (h.child hlast).stop_of_char hsound hclose
    have hne {bracket : Place} {i : Nat} {c : Char} (hi : list.child? i = some bracket)
        (htext : bracket.node.lexeme.toList = [c]) : m ≠ i := by
      rintro rfl
      rw [hm, Option.some.injEq] at hi
      rw [← hi, hlexeme, String.toList_empty] at htext
      exact absurd htext (List.cons_ne_nil c []).symm
    have hbehind := h.child_order hsound hfirst hm (Nat.pos_of_ne_zero (hne hfirst hopen))
    have hbefore : parameter.stop ≤ closing.start := by
      rcases Nat.lt_or_gt_of_ne (hne hlast hclose) with hlt | hlt
      · exact h.child_order hsound hm hlast hlt
      · -- Nothing stands behind the last bracket.
        have horder := h.child_order hsound hlast hm hlt
        have hspan := h.child_span hsound hm
        omega
    change list.start + 1 ≤ parameter.start ∧ parameter.stop ≤ list.stop - 1
    omega
  · obtain ⟨hproper, hpairs⟩ := h.spans_childrenOf hsound .parameter
    obtain ⟨span, hspan, hwithin⟩ := exists_removal
      (by rw [← parameters, List.length_map, hlength])
      (fun item hitem => Nat.le_of_lt (hproper item hitem)) hpairs
      (show (list.parameters.map Place.span)[n]? = some parameter.span by
        rw [List.getElem?_map, hparameter]
        rfl)
      hremoved
    exact ⟨.remove span, List.mem_map.2 ⟨span, hspan, rfl⟩, hwithin⟩

/-- A list of which nothing goes has no edits. -/
theorem parameterEdits_eq_nil {list : Place} {removed : List Bool}
    (h : ∀ n : Nat, removed[n]? ≠ some true) : parameterEdits list removed = [] := by
  have hnone : ¬removed.any id = true := by
    intro hany
    obtain ⟨flag, hflag, htrue⟩ := List.any_eq_true.1 hany
    obtain ⟨n, hn⟩ := List.getElem?_of_mem hflag
    exact h n (hn.trans (congrArg some htrue))
  have hall : ¬(!removed.isEmpty && removed.all id) = true := by
    intro hall
    rw [Bool.and_eq_true, Bool.not_eq_true', List.isEmpty_eq_false_iff, List.all_eq_true] at hall
    obtain ⟨flag, hflag⟩ := List.exists_mem_of_ne_nil _ hall.1
    exact hnone (List.any_eq_true.2 ⟨flag, hflag, hall.2 flag hflag⟩)
  rw [parameterEdits, if_neg hall, removalsFromList, if_neg hnone, List.map_nil]

end Document

/-! ### Assignments and writes -/

namespace Place

variable {assignment left name : Place} {field : Symbol}

/-- The name that an expression ends with is all of it, or the member it accesses. -/
theorem targetName?_eq_some_iff : left.targetName? = some name ↔
    left.kind = .identifier ∧ left = name
      ∨ left.kind = .memberAccessExpression ∧ left.labelled? .name = some name := by
  unfold targetName?
  split
  · next hname =>
    rw [isA_iff.1 hname, Option.some.injEq]
    simp only [true_and, reduceCtorEq, false_and, or_false]
  · next hname =>
    rw [isA_iff] at hname
    split
    · next hmember => simp only [isA_iff.1 hmember, reduceCtorEq, false_and, true_and, false_or]
    · next hmember =>
      rw [isA_iff] at hmember
      simp only [hname, hmember, reduceCtorEq, false_and, or_self]

/-- The name that the left side of an assignment ends with stands below it. -/
theorem below_of_targetName? (hleft : assignment.labelled? .left = some left)
    (hname : left.targetName? = some name) : Below assignment name := by
  obtain ⟨⟨n, hn⟩, -⟩ := child?_of_labelled? hleft
  rcases targetName?_eq_some_iff.1 hname with ⟨-, rfl⟩ | ⟨-, hlabelled⟩
  · exact .step .refl hn
  · obtain ⟨⟨m, hm⟩, -⟩ := child?_of_labelled? hlabelled
    exact .step (.step .refl hn) hm

theorem assignsField_iff : assignment.assignsField field = true ↔
    assignment.isPlainAssignment = true ∧ ∃ name,
      (assignment.labelled? .left).bind targetName? = some name ∧ name.resolve? = some field := by
  rw [assignsField, Bool.and_eq_true]
  refine and_congr_right fun _ => ?_
  cases (assignment.labelled? .left).bind targetName? with
  | none => simp only [Bool.false_eq_true, reduceCtorEq, false_and, exists_false]
  | some name =>
      rw [beq_iff_eq]
      simp only [Option.some.injEq, exists_eq_left']

end Place

namespace FieldUsage

variable {type name : Place} {field : Symbol} {write : ConstructorWrites}

/-- The constructors that write to a field are those with dead statements. -/
theorem mem_writesOf : write ∈ writesOf type field ↔ write.constructor ∈ type.constructors
    ∧ write.statements = deadStatements write.constructor field ∧ write.statements ≠ [] := by
  constructor
  · intro h
    obtain ⟨constructor, hconstructor, hwrite⟩ := List.mem_filterMap.1 h
    split at hwrite
    · exact absurd hwrite (by simp only [reduceCtorEq, not_false_eq_true])
    · next hne =>
      rw [Option.some.injEq] at hwrite
      rw [← hwrite]
      exact ⟨hconstructor, rfl, hne⟩
  · rintro ⟨hconstructor, hstatements, hne⟩
    refine List.mem_filterMap.2 ⟨write.constructor, hconstructor, ?_⟩
    rw [← hstatements]
    split
    · next hnil => exact absurd hnil hne
    · rfl

/-- Of the mentions of a field, those that no plain assignment writes to are the
    reads. -/
theorem mem_reads (h : name ∈ type.mentions field) :
    name ∈ (collect type field).reads ↔ name.writeTarget? = none := by
  simp only [collect, List.partition_eq_filter_filter, List.mem_filter, h, true_and,
    Function.comp_apply, Bool.not_eq_true', Option.isSome_eq_false_iff, Option.isNone_iff_eq_none]

theorem mem_otherWrites (h : name ∈ type.mentions field) :
    name ∈ (collect type field).otherWrites
      ↔ name.writeTarget? ≠ none ∧ ¬within (writesOf type field) name = true := by
  simp only [collect, List.partition_eq_filter_filter, List.mem_filter, h, true_and,
    Option.isSome_iff_ne_none, Bool.not_eq_true', Bool.not_eq_true]

end FieldUsage

namespace RemovalPlan

variable {plan : RemovalPlan} {document : Document}

theorem mem_writes {write : ConstructorWrites} (h : write ∈ plan.writes) :
    write.constructor ∈ plan.type.constructors
      ∧ write.statements = deadStatements write.constructor plan.symbol
      ∧ write.statements ≠ [] :=
  FieldUsage.mem_writesOf.1 h

/-- A constructor of the type with dead statements is one of those that write. -/
theorem mem_writes_of_dead {constructor : Place} (h : constructor ∈ plan.type.constructors)
    {dead : DeadStatement} (hdead : dead ∈ deadStatements constructor plan.symbol) :
    ⟨constructor, deadStatements constructor plan.symbol⟩ ∈ plan.writes :=
  FieldUsage.mem_writesOf.2 ⟨h, rfl, List.ne_nil_of_mem hdead⟩

/-- The statements of a write are dead for the field of the plan. -/
theorem dead_of_mem {write : ConstructorWrites} (hwrite : write ∈ plan.writes) {dead : DeadStatement}
    (hdead : dead ∈ write.statements) : dead ∈ deadStatements write.constructor plan.symbol :=
  (mem_writes hwrite).2.1 ▸ hdead

/-- The edit takes the node out of the source. -/
inductive Takes (plan : RemovalPlan) (document : Document) : Edit → Place → Prop
  /-- A dead statement in a block. -/
  | statement {write : ConstructorWrites} {dead : DeadStatement} (hwrite : write ∈ plan.writes)
      (hdead : dead ∈ write.statements) (hbody : dead.isBody = false) :
      Takes plan document (deadStatementEdit document write.constructor dead) dead.statement
  /-- A child of a constructor from the arrow of its body on. -/
  | body {write : ConstructorWrites} {dead : DeadStatement} {n : Nat} {node : Place}
      (hwrite : write ∈ plan.writes) (hdead : dead ∈ write.statements) (hbody : dead.isBody = true)
      (hchild : write.constructor.child? n = some node) (hle : dead.statement.start ≤ node.start) :
      Takes plan document (deadStatementEdit document write.constructor dead) node
  /-- A child of a parameter list. -/
  | item {write : ConstructorWrites} {list : Place} {edit : Edit} {n : Nat} {node : Place}
      (hwrite : write ∈ plan.writes) (hlist : write.constructor.ownParameterList? = some list)
      (hedit : edit ∈ parameterEdits list (removedParameters write list.parameters.length))
      (hchild : list.child? n = some node) (hwithin : node.span.within edit.span = true) :
      Takes plan document edit node
  /-- A child of a declaration of several fields. -/
  | declarator {edit : Edit} {n : Nat} {node : Place}
      (hmany : 1 < (plan.declaration.childrenOf .variableDeclarator).length)
      (hedit : edit ∈ declaratorEdits document plan.field plan.declaration plan.declarator)
      (hchild : plan.declaration.child? n = some node)
      (hwithin : node.span.within edit.span = true) : Takes plan document edit node
  /-- The declaration of a single field. -/
  | field (hsole : ¬1 < (plan.declaration.childrenOf .variableDeclarator).length) :
      Takes plan document (.remove (memberRemoval document plan.field)) plan.field

/-- Each edit deals with a dead statement, a parameter list, or the field. -/
theorem mem_edits {edit : Edit} :
    edit ∈ plan.edits document ↔
      (∃ write ∈ plan.writes, ∃ dead ∈ write.statements,
        edit = deadStatementEdit document write.constructor dead)
      ∨ (∃ write ∈ plan.writes, ∃ list, write.constructor.ownParameterList? = some list
        ∧ edit ∈ parameterEdits list (removedParameters write list.parameters.length))
      ∨ edit ∈ declaratorEdits document plan.field plan.declaration plan.declarator := by
  rw [edits, List.mem_append, List.mem_flatMap]
  constructor
  · rintro (⟨write, hwrite, hedit⟩ | hedit)
    · rcases List.mem_append.1 hedit with hedit | hedit
      · obtain ⟨dead, hdead, rfl⟩ := List.mem_map.1 hedit
        exact .inl ⟨write, hwrite, dead, hdead, rfl⟩
      · split at hedit
        · next list hlist => exact .inr (.inl ⟨write, hwrite, list, hlist, hedit⟩)
        · exact absurd hedit List.not_mem_nil
    · exact .inr (.inr hedit)
  · rintro (⟨write, hwrite, dead, hdead, rfl⟩ | ⟨write, hwrite, list, hlist, hedit⟩ | hedit)
    · exact .inl ⟨write, hwrite, List.mem_append_left _ (List.mem_map_of_mem hdead)⟩
    · refine .inl ⟨write, hwrite, List.mem_append_right _ ?_⟩
      rw [hlist]
      exact hedit
    · exact .inr hedit

namespace Stands

variable {anchor : Span}

/-- A plan whose edits do not overlap leads to a fix. -/
theorem fix_eq (h : plan.Stands document anchor)
    (hapart : Edit.overlapping (Edit.inOrder (plan.edits document)) = false) :
    removeField document anchor
      = .ok ⟨Fixer.removeField.title, Fixer.removeField.key,
          Edit.inOrder (plan.edits document)⟩ := by
  -- Each refusal of the fixer is one that the plan rules out.
  have hwrites : ¬(FieldUsage.collect plan.type plan.symbol).constructorWrites.isEmpty = true :=
    fun hempty => h.writes (List.isEmpty_iff.1 hempty)
  have hreads : ¬(!(FieldUsage.collect plan.type plan.symbol).reads.isEmpty
      || !(FieldUsage.collect plan.type plan.symbol).otherWrites.isEmpty) = true := by
    rw [h.reads, h.otherWrites]
    decide
  have hfield : ¬(!plan.symbol.isField) = true := by
    rw [h.isField]
    decide
  simp only [removeField, h.name, h.declarator, h.declaration, h.field, h.type, h.symbol,
    if_neg hwrites, if_neg hreads, if_neg hfield, Fixer.fix, Fix.ofEdits]
  exact if_neg fun hoverlap => absurd (hapart.symm.trans hoverlap) Bool.false_ne_true

theorem hasName (h : plan.Stands document anchor) :
    document.Has plan.name ∧ plan.name.kind = .identifier :=
  have hfound := below_of_at? h.name
  ⟨hfound.1, hfound.2.1⟩

theorem hasDeclarator (h : plan.Stands document anchor) :
    document.Has plan.declarator ∧ plan.declarator.kind = .variableDeclarator
      ∧ ∃ n, plan.declarator.child? n = some plan.name :=
  h.hasName.1.parentOf h.declarator

theorem hasDeclaration (h : plan.Stands document anchor) :
    document.Has plan.declaration ∧ plan.declaration.kind = .variableDeclaration
      ∧ ∃ n, plan.declaration.child? n = some plan.declarator :=
  h.hasDeclarator.1.parentOf h.declaration

theorem hasField (h : plan.Stands document anchor) :
    document.Has plan.field ∧ plan.field.kind = .fieldDeclaration
      ∧ ∃ n, plan.field.child? n = some plan.declaration :=
  h.hasDeclaration.1.parentOf h.field

theorem hasType (h : plan.Stands document anchor) :
    document.Has plan.type ∧ Below plan.type plan.field
      ∧ plan.type.kind.isTypeDeclaration = true :=
  h.hasField.1.enclosingType h.type

theorem hasConstructor (h : plan.Stands document anchor) {write : ConstructorWrites}
    (hwrite : write ∈ plan.writes) :
    document.Has write.constructor ∧ write.constructor.kind = .constructorDeclaration :=
  have hconstructor := h.hasType.1.constructor (mem_writes hwrite).1
  ⟨hconstructor.1, hconstructor.2.1⟩

/-- A parameter list with edits is a list, and a child of its constructor. -/
theorem hasList (h : plan.Stands document anchor) (hsound : document.Sound)
    {write : ConstructorWrites} (hwrite : write ∈ plan.writes) {list : Place}
    (hlist : write.constructor.ownParameterList? = some list) :
    document.Has list ∧ list.kind = .parameterList
      ∧ ∃ n, write.constructor.child? n = some list := by
  obtain ⟨hhas, hkind⟩ := h.hasConstructor hwrite
  obtain ⟨⟨n, hn⟩, hlistKind⟩ := hhas.ownParameterList hsound hkind hlist
  exact ⟨hhas.child hn, hlistKind, n, hn⟩

/-- The field stands in another node. -/
theorem exists_parent (h : plan.Stands document anchor) :
    ∃ parent n, document.Has parent ∧ parent.child? n = some plan.field := by
  obtain ⟨htype, hbelow, hkind⟩ := h.hasType
  rcases hbelow.last with heq | ⟨n, parent, hparent, hbelow⟩
  · rw [← heq, h.hasField.2.1] at hkind
    exact absurd hkind (by decide)
  · exact ⟨parent, n, htype.below hbelow, hparent⟩

/-- The span of an edit in a list lies between the children of the list. -/
theorem parameterEdit_spec (h : plan.Stands document anchor) (hsound : document.Sound)
    {write : ConstructorWrites} (hwrite : write ∈ plan.writes) {list : Place}
    (hlist : write.constructor.ownParameterList? = some list) {removed : List Bool} {edit : Edit}
    (hedit : edit ∈ parameterEdits list removed) :
    Document.Border list edit.span.start ∧ Document.Border list edit.span.stop
      ∧ list.start ≤ edit.span.start ∧ edit.span.start ≤ edit.span.stop
      ∧ edit.span.stop ≤ list.stop ∧ document.source.CutsAt edit.span.start
      ∧ document.source.CutsAt edit.span.stop ∧ edit.text = [] := by
  obtain ⟨hhas, hkind, -⟩ := h.hasList hsound hwrite hlist
  rcases Document.mem_parameterEdits hedit with ⟨-, rfl⟩ | ⟨span, hspan, rfl⟩
  · obtain ⟨hstart, hstop, hle, hpos, hstartCut, hstopCut⟩ := hhas.list_brackets hsound hkind
    exact ⟨hstart, hstop, Nat.le_succ _, hle, Nat.sub_le _ 1, hstartCut, hstopCut, rfl⟩
  · obtain ⟨hstart, hstop, hfrom, hle, hto, hstartCut, hstopCut⟩ :=
      hhas.mem_removalsFromList hsound (childrenOf_sublist list .parameter) hspan
    exact ⟨hstart, hstop, hfrom, hle, hto, hstartCut, hstopCut, rfl⟩

/-- The span of an edit in a declaration of several fields lies between the
    children of the declaration. -/
theorem declaratorEdit_spec (h : plan.Stands document anchor) (hsound : document.Sound)
    (hmany : 1 < (plan.declaration.childrenOf .variableDeclarator).length) {edit : Edit}
    (hedit : edit ∈ declaratorEdits document plan.field plan.declaration plan.declarator) :
    Document.Border plan.declaration edit.span.start
      ∧ Document.Border plan.declaration edit.span.stop
      ∧ plan.declaration.start ≤ edit.span.start ∧ edit.span.start ≤ edit.span.stop
      ∧ edit.span.stop ≤ plan.declaration.stop ∧ document.source.CutsAt edit.span.start
      ∧ document.source.CutsAt edit.span.stop ∧ edit.text = [] := by
  rw [Document.declaratorEdits_of_many hmany] at hedit
  obtain ⟨span, hspan, rfl⟩ := List.mem_map.1 hedit
  obtain ⟨hstart, hstop, hfrom, hle, hto, hstartCut, hstopCut⟩ :=
    h.hasDeclaration.1.mem_removalsFromList hsound (childrenOf_sublist _ _) hspan
  exact ⟨hstart, hstop, hfrom, hle, hto, hstartCut, hstopCut, rfl⟩

/-- An edit removes, but for the empty block in the place of a body. -/
theorem text_of_mem_edits (h : plan.Stands document anchor) (hsound : document.Sound) {edit : Edit}
    (hedit : edit ∈ plan.edits document) : edit.text = [] ∨ edit.text = ['{', ' ', '}'] := by
  rcases mem_edits.1 hedit with ⟨write, -, dead, -, rfl⟩ | ⟨write, hwrite, list, hlist, hedit⟩
    | hedit
  · unfold deadStatementEdit
    split
    · exact .inr rfl
    · exact .inl rfl
  · exact .inl (h.parameterEdit_spec hsound hwrite hlist hedit).2.2.2.2.2.2.2
  · by_cases hmany : 1 < (plan.declaration.childrenOf .variableDeclarator).length
    · exact .inl (h.declaratorEdit_spec hsound hmany hedit).2.2.2.2.2.2.2
    · rw [Document.declaratorEdits_of_sole hmany, List.mem_singleton] at hedit
      exact .inl (congrArg Edit.text hedit)

/-- What an edit takes is a node inside the span of the edit. -/
theorem takes_within (h : plan.Stands document anchor) (hsound : document.Sound) {edit : Edit}
    {node : Place} (htakes : plan.Takes document edit node) :
    document.Has node ∧ edit.span.start ≤ node.start ∧ node.stop ≤ edit.span.stop := by
  -- Each edit is known by what it takes, and the removals only widen it.
  cases htakes with
  | @statement write dead hwrite hdead hbody =>
      obtain ⟨hconstructor, -⟩ := h.hasConstructor hwrite
      obtain ⟨n, body, m, hn, -, -, hm, -⟩ :=
        Document.block_of_dead (dead_of_mem hwrite hdead) hbody
      have hstatement := (hconstructor.child hn).child hm
      obtain ⟨hbefore, hafter⟩ := statementRemoval_spec hsound hstatement
      have hspan : (deadStatementEdit document write.constructor dead).span
          = statementRemoval document dead.statement := by
        rw [deadStatementEdit, if_neg (by rw [hbody]; decide)]
        rfl
      rw [hspan]
      exact ⟨hstatement, hbefore.le, hafter.le⟩
  | @body write dead n node hwrite hdead hbody hchild hle =>
      obtain ⟨hconstructor, -⟩ := h.hasConstructor hwrite
      have hspan : (deadStatementEdit document write.constructor dead).span
          = ⟨dead.statement.start, write.constructor.stop⟩ := by
        rw [deadStatementEdit, if_pos hbody]
      rw [hspan]
      exact ⟨hconstructor.child hchild, hle, (hconstructor.child_span hsound hchild).2.2⟩
  | @item write list edit n node hwrite hlist hedit hchild hspan =>
      exact ⟨(h.hasList hsound hwrite hlist).1.child hchild, Span.within_iff.1 hspan⟩
  | @declarator edit n node hmany hedit hchild hspan =>
      exact ⟨h.hasDeclaration.1.child hchild, Span.within_iff.1 hspan⟩
  | field hsole =>
      obtain ⟨parent, n, hparent, hfield⟩ := h.exists_parent
      have hspec := memberRemoval_spec hsound hparent hfield
      exact ⟨h.hasField.1, hspec.1, hspec.2.1⟩

end Stands

namespace Leads

variable {anchor : Span} {fix : Fix}

theorem mem_fix (h : plan.Leads document anchor fix) {edit : Edit} :
    edit ∈ fix.edits ↔ edit ∈ plan.edits document := by
  rw [h.edits]
  exact (sortBy_perm Edit.precedes _).mem_iff

/-- A piece that an edit meets belongs to what the edit takes. -/
theorem exists_takes (h : plan.Leads document anchor fix) (hsound : document.Sound) {p : Place}
    (hp : document.Piece p) {edit : Edit} (hedit : edit ∈ fix.edits)
    (hmeets : p.span.Meets edit.span) :
    ∃ node, plan.Takes document edit node ∧ Below node p := by
  -- The edit is for a dead statement, for parameters or for the declaration.
  rcases mem_edits.1 (h.mem_fix.1 hedit) with ⟨write, hwrite, dead, hdead, rfl⟩
    | ⟨write, hwrite, list, hlist, hedit⟩ | hedit
  · obtain ⟨hconstructor, hkind⟩ := h.hasConstructor hwrite
    have habove : ¬Below p write.constructor := hp.not_above_member (by rw [hkind]; rfl)
    obtain ⟨n, body, hn, hcases, -⟩ :=
      Document.mem_deadStatements (dead_of_mem hwrite hdead)
    rcases hcases with ⟨hbody, -, rfl⟩ | ⟨hbody, hblock, hstatement, m, hm⟩
    · -- The edit reaches from the arrow to the end of the constructor.
      rw [deadStatementEdit, if_pos hbody] at hmeets ⊢
      obtain ⟨k, child, hchild, hbelow, hle, -⟩ := hp.of_borders hsound hconstructor habove
        (hconstructor.border_start hsound hn) (hconstructor.border_end hsound)
        (hconstructor.child_span hsound hn).1 (Nat.le_refl _) hmeets
      have htakes : plan.Takes document _ _ := .body hwrite hdead hbody hchild hle
      rw [deadStatementEdit, if_pos hbody] at htakes
      exact ⟨child, htakes, hbelow⟩
    · -- The statement goes with its line.
      have hnotBody := hp.not_above_child habove hn (by rw [hblock]; rfl)
      have hnotStatement := hp.not_above_child hnotBody hm (by rw [hstatement]; rfl)
      have htakes : plan.Takes document _ _ := .statement hwrite hdead hbody
      rw [deadStatementEdit, if_neg (by rw [hbody]; decide)] at hmeets htakes ⊢
      exact ⟨dead.statement, htakes,
        hp.of_statementRemoval hsound ((hconstructor.child hn).child hm) hnotStatement hmeets⟩
  · obtain ⟨hconstructor, hkind⟩ := h.hasConstructor hwrite
    obtain ⟨hhas, hlistKind, n, hn⟩ := h.hasList hsound hwrite hlist
    have habove : ¬Below p write.constructor := hp.not_above_member (by rw [hkind]; rfl)
    obtain ⟨hstart, hstop, hfrom, -, hto, -⟩ := h.parameterEdit_spec hsound hwrite hlist hedit
    obtain ⟨k, child, hchild, hbelow, hchildStart, hchildStop⟩ := hp.of_borders hsound hhas
      (hp.not_above_child habove hn (by rw [hlistKind]; rfl)) hstart hstop hfrom hto hmeets
    exact ⟨child, .item hwrite hlist hedit hchild (Span.within_iff.2 ⟨hchildStart, hchildStop⟩), hbelow⟩
  · have habove : ¬Below p plan.field := hp.not_above_member (by rw [h.hasField.2.1]; rfl)
    by_cases hmany : 1 < (plan.declaration.childrenOf .variableDeclarator).length
    · obtain ⟨hhas, hkind, -⟩ := h.hasDeclaration
      obtain ⟨n, hn⟩ := h.hasField.2.2
      obtain ⟨hstart, hstop, hfrom, -, hto, -⟩ := h.declaratorEdit_spec hsound hmany hedit
      obtain ⟨k, child, hchild, hbelow, hchildStart, hchildStop⟩ := hp.of_borders hsound hhas
        (hp.not_above_child habove hn (by rw [hkind]; rfl)) hstart hstop hfrom hto hmeets
      exact ⟨child, .declarator hmany hedit hchild (Span.within_iff.2 ⟨hchildStart, hchildStop⟩), hbelow⟩
    · rw [Document.declaratorEdits_of_sole hmany, List.mem_singleton] at hedit
      subst hedit
      obtain ⟨parent, n, hparent, hfield⟩ := h.exists_parent
      exact ⟨plan.field, .field hmany, hp.of_memberRemoval hsound hparent
        (fun hbelow => habove (.step hbelow hfield)) hfield (by rw [h.hasField.2.1]; rfl) hmeets⟩

end Leads

end RemovalPlan

end SharpLint

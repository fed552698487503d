import SharpLint.Proofs.Lint.Applicable

/-!
# Removals of Reported Fields

The rule looks for unread fields from above: it goes through the types, and for
each through the fields that stand directly in its body and are private. The
fixer starts from a name and goes up, to the nearest type around the field. It
asks neither about modifiers nor whether the field stands directly in the body
of that type, so it also removes fields that the rule passes over: those that
others may see, and those of an interface inside the type.

These two questions are all that is between rule and fixer. Where the fixer
removes a field, the rule reports it if and only if the field is private and
stands directly in the body of the type.

## Main definitions

* `Document.fieldAt?`: the declaration of the field whose name is at a span.
* `removesUnreported`: whether a field is removed that is not reported.

## Theorems

* `unreadFieldIssue?_iff`: When the rule reports a declarator.
* `RemovalPlan.Stands.mem_fieldDeclarators`: A field directly in the body of its
  type is one that the rule looks at.
* `RemovalPlan.Leads.reported_iff`: What is asked by the rule and not by the
  fixer.
* `fixFor_removes_reported`: Which of the fields that can be removed are
  reported.
-/

namespace SharpLint

open Place

/-- The declaration of the field whose name is at the span. -/
def Document.fieldAt? (document : Document) (anchor : Span) : Option Place :=
  (document.root.at? anchor .identifier).bind fun name =>
    (name.parentOf? .variableDeclarator).bind fun declarator =>
      (declarator.parentOf? .variableDeclaration).bind (·.parentOf? .fieldDeclaration)

theorem RemovalPlan.Stands.fieldAt? {plan : RemovalPlan} {document : Document} {anchor : Span}
    (h : plan.Stands document anchor) : document.fieldAt? anchor = some plan.field := by
  rw [Document.fieldAt?, h.name, Option.bind_some, h.declarator, Option.bind_some, h.declaration,
    Option.bind_some, h.field]

/-- A declarator is reported if its field is private and unread, at its name. -/
theorem unreadFieldIssue?_iff {document : Document} {type declarator declaration : Place}
    {anchor : Span} (hdeclaration : declarator.parent?.bind Place.parent? = some declaration) :
    (∃ issue, unreadFieldIssue? document type declarator = some issue ∧ issue.span = anchor) ↔
      declaration.isPrivateField = true ∧ ∃ name symbol, declarator.name? = some name
        ∧ name.resolve? = some symbol ∧ (FieldUsage.collect type symbol).isUnread = true
        ∧ name.span = anchor := by
  constructor
  · rintro ⟨issue, hissue, hspan⟩
    obtain ⟨field, name, symbol, message, hfield, hprivate, hname, hresolve, hunread, rfl⟩ :=
      exists_of_unreadFieldIssue? hissue
    rw [hdeclaration, Option.some.injEq] at hfield
    exact ⟨hfield ▸ hprivate, name, symbol, hname, hresolve, hunread, hspan⟩
  · rintro ⟨hprivate, name, symbol, hname, hresolve, hunread, hspan⟩
    unfold unreadFieldIssue?
    simp only [hdeclaration, hname, hprivate, hresolve, hunread, if_true]
    exact ⟨_, rfl, hspan⟩

namespace RemovalPlan

variable {plan : RemovalPlan} {document : Document} {anchor : Span}

/-- The declaration of the field is two steps above its declarator. -/
theorem Stands.bind_parent? (h : plan.Stands document anchor) :
    plan.declarator.parent?.bind Place.parent? = some plan.field := by
  obtain ⟨-, -, n, hn⟩ := h.hasDeclaration
  obtain ⟨-, -, m, hm⟩ := h.hasField
  rw [parent?_of_child? hn, Option.bind_some, parent?_of_child? hm]

/-- A field has one declaration of variables only, so the first is the one above
    the declarator. -/
theorem Stands.firstOf?_field (h : plan.Stands document anchor) (hsound : document.Sound) :
    plan.field.firstOf? .variableDeclaration = some plan.declaration := by
  obtain ⟨-, hdeclarationKind, -⟩ := h.hasDeclaration
  obtain ⟨hfield, hfieldKind, m, hm⟩ := h.hasField
  have hmem : plan.declaration ∈ plan.field.namedChildren :=
    mem_namedChildren.2 ⟨⟨m, hm⟩, by rw [hdeclarationKind]; rfl⟩
  cases hfirst : plan.field.firstOf? .variableDeclaration with
  | none =>
      exact absurd (isA_iff.2 hdeclarationKind) (List.find?_eq_none.1 hfirst plan.declaration hmem)
  | some first =>
      obtain ⟨⟨k, hk⟩, hfirstKind⟩ := child?_of_firstOf? hfirst
      rw [hfield.eq_of_kind hsound
        (by rw [hdeclarationKind, hfieldKind]; exact List.mem_cons_self) hm hk
        (hfirstKind.trans hdeclarationKind.symm)]

/-- A field directly in the body of its type is one that the rule looks at. -/
theorem Stands.mem_fieldDeclarators (h : plan.Stands document anchor) (hsound : document.Sound)
    (hmember : plan.field ∈ plan.type.members) : plan.declarator ∈ plan.type.fieldDeclarators := by
  obtain ⟨-, -, n, hn⟩ := h.hasDeclaration
  have hkind := h.hasDeclarator.2.1
  refine List.mem_flatMap.2
    ⟨plan.field, List.mem_filter.2 ⟨hmember, isA_iff.2 h.hasField.2.1⟩, ?_⟩
  rw [h.firstOf?_field hsound]
  exact mem_childrenOf.2 ⟨⟨⟨n, hn⟩, by rw [hkind]; rfl⟩, hkind⟩

/-- A field that a type declares stands directly in its body. -/
theorem mem_members_of_fieldDeclarators {type declarator field : Place}
    (h : declarator ∈ type.fieldDeclarators)
    (hfield : declarator.parent?.bind Place.parent? = some field) : field ∈ type.members := by
  obtain ⟨member, hmember, hdeclarator⟩ := List.mem_flatMap.1 h
  split at hdeclarator
  · next declaration hdeclaration =>
    obtain ⟨⟨k, hk⟩, -⟩ := child?_of_firstOf? hdeclaration
    obtain ⟨⟨⟨l, hl⟩, -⟩, -⟩ := mem_childrenOf.1 hdeclarator
    rw [parent?_of_child? hl, Option.bind_some, parent?_of_child? hk, Option.some.injEq] at hfield
    exact hfield ▸ (List.mem_filter.1 hmember).1
  · exact absurd hdeclarator List.not_mem_nil

/-- The rule reports a field that can be removed if and only if the field is
    private and stands directly in the body of its type. -/
theorem Leads.reported_iff {fix : Fix} (h : plan.Leads document anchor fix)
    (hsound : document.Sound) :
    (∃ issue ∈ unreadFieldIssues document, issue.span = anchor) ↔
      plan.field.isPrivateField = true ∧ plan.field ∈ plan.type.members := by
  have hspan : plan.name.span = anchor := (below_of_at? h.name).2.2
  constructor
  · rintro ⟨issue, hissue, hanchor⟩
    obtain ⟨type, htype, hissue⟩ := List.mem_flatMap.1 hissue
    rw [List.mem_filter] at htype
    obtain ⟨declarator, hdeclarator, hissue⟩ := List.mem_filterMap.1 hissue
    obtain ⟨name, symbol, hname, hresolve, hissueSpan, -⟩ := unreadFieldIssue?_eq_some hissue
    obtain ⟨field, declaration, hdeclares⟩ :=
      exists_declaresField (mem_descendants.1 htype.1) htype.2 hdeclarator hname
    -- The name at the span of the issue is that of the plan, and so is all above it.
    rw [hissueSpan] at hanchor
    obtain ⟨hfieldEq, htypeEq, -⟩ := hdeclares.eq_plan hsound (kind_of_resolve? hresolve)
      (hanchor ▸ h.toStands)
    have hparent : declarator.parent?.bind Place.parent? = some plan.field := by
      obtain ⟨k, hk⟩ := hdeclares.inField
      obtain ⟨l, hl⟩ := hdeclares.inDeclaration
      rw [parent?_of_child? hl, Option.bind_some, parent?_of_child? hk, hfieldEq]
    exact ⟨((unreadFieldIssue?_iff hparent).1 ⟨issue, hissue, rfl⟩).1,
      htypeEq ▸ mem_members_of_fieldDeclarators hdeclarator hparent⟩
  · rintro ⟨hprivate, hmember⟩
    have hunread : (FieldUsage.collect plan.type plan.symbol).isUnread = true := by
      rw [FieldUsage.isUnread, Bool.and_eq_true, Bool.not_eq_true', List.isEmpty_iff]
      exact ⟨List.isEmpty_eq_false_iff.2 h.writes, h.reads⟩
    obtain ⟨issue, hissue, hanchor⟩ := (unreadFieldIssue?_iff h.bind_parent?).2 ⟨hprivate, plan.name,
      plan.symbol, h.name_declarator hsound, h.symbol, hunread, hspan⟩
    obtain ⟨htype, -, htypeKind⟩ := h.hasType
    exact ⟨issue, List.mem_flatMap.2 ⟨plan.type,
      List.mem_filter.2 ⟨mem_descendants.2 htype, htypeKind⟩,
      List.mem_filterMap.2 ⟨plan.declarator, h.mem_fieldDeclarators hsound hmember, hissue⟩⟩, hanchor⟩

end RemovalPlan

/-- Under both names of the rule it is the removal of fields that is asked. -/
theorem fixFor_of_removeField (config : Config) (source : Text) {rule : String}
    (hrule : rule ∈ Fixer.removeField.ruleIds) (anchor : Span) :
    fixFor config (.parse source) rule anchor = removeField (.parse source) anchor := by
  have hfor : Fixer.for? rule = some .removeField := by
    rcases List.mem_cons.1 hrule with rfl | hrule
    · decide
    · rw [List.mem_singleton.1 hrule]
      decide
  rw [fixFor, hfor]
  rfl

/-- Where a field can be removed, under either name of the rule, the rule
    reports it if and only if the field is private and stands directly in the
    body of the type around it. -/
theorem fixFor_removes_reported (config : Config) (source : Text) (rule : String)
    (hrule : rule ∈ Fixer.removeField.ruleIds) (anchor : Span) (fix : Fix)
    (hfix : fixFor config (.parse source) rule anchor = .ok fix) :
    ∃ field type, (Document.parse source).fieldAt? anchor = some field
      ∧ field.enclosingType? = some type
      ∧ ((∃ issue ∈ unreadFieldIssues (.parse source), issue.span = anchor) ↔
        field.isPrivateField = true ∧ field ∈ type.members) := by
  have hremoval : removeField (.parse source) anchor = .ok fix :=
    (fixFor_of_removeField config source hrule anchor).symm.trans hfix
  obtain ⟨plan, hplan⟩ := exists_plan hremoval
  exact ⟨plan.field, plan.type, hplan.fieldAt?, hplan.type,
    hplan.reported_iff (Document.parse_sound source)⟩

/-- A public field that a constructor assigns and nothing reads. -/
def publicSource : Text :=
  "class C \x7b public int X; C(int x) \x7b X = x; \x7d \x7d".toList

/-- An interface inside a class, each with a field of one name. -/
def interfaceSource : Text :=
  "class C \x7b int _x; interface I \x7b int _x; \x7d C(int x) \x7b _x = x; \x7d \x7d".toList

/-- Whether there is a removal at the span in a document without errors, and
    no report. -/
def removesUnreported (source : Text) (anchor : Span) : Bool :=
  let document := Document.parse source
  !document.hasErrors && (fixFor {} document "DS0052" anchor).toOption.isSome
    && (unreadFieldIssues document).all fun issue => issue.span ≠ anchor

set_option maxRecDepth 100000 in
theorem removesUnreported_public : removesUnreported publicSource ⟨21, 22⟩ = true := by
  decide +kernel

set_option maxRecDepth 100000 in
theorem removesUnreported_interface : removesUnreported interfaceSource ⟨36, 38⟩ = true := by
  decide +kernel

/-- What such a removal is: one without errors, of a field that no issue is at. -/
theorem exists_of_removesUnreported {source : Text} {anchor : Span}
    (h : removesUnreported source anchor = true) :
    (Document.parse source).hasErrors = false
      ∧ (∃ fix, fixFor {} (.parse source) "DS0052" anchor = .ok fix)
      ∧ ¬∃ issue ∈ unreadFieldIssues (.parse source), issue.span = anchor := by
  rw [removesUnreported, Bool.and_eq_true, Bool.and_eq_true, Bool.not_eq_true'] at h
  obtain ⟨⟨herrors, hsome⟩, hnone⟩ := h
  obtain ⟨fix, hfix⟩ := Option.isSome_iff_exists.1 hsome
  refine ⟨herrors, ⟨fix, eq_ok_of_toOption hfix⟩, ?_⟩
  rintro ⟨issue, hissue, hspan⟩
  exact of_decide_eq_true (List.all_eq_true.1 hnone issue hissue) hspan

set_option maxRecDepth 100000 in
theorem fixFor_removes_reported_public :
    "DS0052" ∈ Fixer.removeField.ruleIds
      ∧ ∃ fix, fixFor {} (.parse publicSource) "DS0052" ⟨21, 22⟩ = .ok fix
        ∧ ∃ field type, (Document.parse publicSource).fieldAt? ⟨21, 22⟩ = some field
          ∧ field.enclosingType? = some type
          ∧ ((∃ issue ∈ unreadFieldIssues (.parse publicSource), issue.span = ⟨21, 22⟩) ↔
            field.isPrivateField = true ∧ field ∈ type.members) := by
  have hrule : "DS0052" ∈ Fixer.removeField.ruleIds := by decide
  obtain ⟨-, ⟨fix, hfix⟩, -⟩ := exists_of_removesUnreported removesUnreported_public
  exact ⟨hrule, fix, hfix,
    fixFor_removes_reported {} publicSource "DS0052" hrule ⟨21, 22⟩ fix hfix⟩

/-- Fields can be removed that the rule does not report: public ones, and those
    of an interface. -/
theorem removal_reaches_unreported :
    (¬∀ (config : Config) (rule : String) (anchor : Span) (fix : Fix),
      (Document.parse publicSource).hasErrors = false → rule ∈ Fixer.removeField.ruleIds →
      fixFor config (.parse publicSource) rule anchor = .ok fix →
      ∃ issue ∈ unreadFieldIssues (.parse publicSource), issue.span = anchor)
    ∧ ¬∀ (config : Config) (rule : String) (anchor : Span) (fix : Fix),
      (Document.parse interfaceSource).hasErrors = false → rule ∈ Fixer.removeField.ruleIds →
      fixFor config (.parse interfaceSource) rule anchor = .ok fix →
      ∃ issue ∈ unreadFieldIssues (.parse interfaceSource), issue.span = anchor := by
  constructor
  · intro h
    obtain ⟨herrors, ⟨fix, hfix⟩, hnone⟩ := exists_of_removesUnreported removesUnreported_public
    exact hnone (h {} "DS0052" ⟨21, 22⟩ fix herrors (by decide) hfix)
  · intro h
    obtain ⟨herrors, ⟨fix, hfix⟩, hnone⟩ := exists_of_removesUnreported removesUnreported_interface
    exact hnone (h {} "DS0052" ⟨36, 38⟩ fix herrors (by decide) hfix)

end SharpLint

import SharpLint.Proofs.Lint.Plan
import SharpLint.Proofs.Semantics.Scope

/-!
# Declarations of Fields

A field is declared by a name in a declarator, which stands in the body of a
type at a fixed depth. So the name tells the nodes around it, and a fixer that
starts from the span of the name finds them again.

## Main definitions

* `Document.DeclaresField`: a name declares a field of a type.

## Theorems

* `exists_declaresField`: The declarators of a type declare fields.
* `Document.DeclaresField.at?`: The name is found at its span.
* `Document.DeclaresField.symbol_eq`: The name stands for a field of the type.
-/

namespace SharpLint

open Place

namespace Place

theorem parentOf?_of_child? {parent child : Place} {n : Nat} (h : parent.child? n = some child)
    {kind : Kind} (hkind : parent.kind = kind) : child.parentOf? kind = some parent := by
  rw [Place.parentOf?, parent?_of_child? h]
  exact if_pos (isA_iff.2 hkind)

/-- The name of what declares by its name declares. -/
theorem role_of_name? {parent name : Place} {n : Nat} (hchild : parent.child? n = some name)
    (hdeclares : parent.kind.declaresByName = true) (hname : parent.name? = some name) :
    name.role = .declaration := by
  have hisName : name.isNameOf parent = true := by
    rw [isNameOf, hname, Bool.or_eq_true]
    exact .inr (same_self name)
  have hnot : parent.isA .memberAccessExpression = false := by
    rw [← Bool.not_eq_true, isA_iff]
    intro hkind
    rw [hkind] at hdeclares
    exact absurd hdeclares Bool.false_ne_true
  rw [role, parent?_of_child? hchild]
  simp only [roleIn, hnot, hisName, hdeclares, Bool.false_and, Bool.and_self, Bool.false_eq_true,
    if_false, if_true]

end Place

/-- The name declares a field of the type, and stands in the given nodes. -/
structure Document.DeclaresField (document : Document)
    (type field declaration declarator name : Place) : Prop where
  hasType : document.Has type
  isType : type.kind.isTypeDeclaration = true
  mem : declarator ∈ type.fieldDeclarators
  inType : ∃ body m n, type.child? m = some body ∧ body.kind = .declarationList
    ∧ body.child? n = some field
  isField : field.kind = .fieldDeclaration
  inField : ∃ n, field.child? n = some declaration
  isDeclaration : declaration.kind = .variableDeclaration
  inDeclaration : ∃ n, declaration.child? n = some declarator
  isDeclarator : declarator.kind = .variableDeclarator
  inDeclarator : declarator.name? = some name

/-- The declarators of a type declare fields of it. -/
theorem exists_declaresField {document : Document} {type declarator name : Place}
    (htype : document.Has type) (hkind : type.kind.isTypeDeclaration = true)
    (hdeclarator : declarator ∈ type.fieldDeclarators) (hname : declarator.name? = some name) :
    ∃ field declaration, document.DeclaresField type field declaration declarator name := by
  obtain ⟨body, field, declaration, i, j, k, l, hi, hj, hk, hl, hbodyKind, hfieldKind,
    hdeclarationKind, hdeclaratorKind⟩ := child?_of_mem_fieldDeclarators hdeclarator
  exact ⟨field, declaration, htype, hkind, hdeclarator, ⟨body, i, j, hi, hbodyKind, hj⟩,
    hfieldKind, ⟨k, hk⟩, hdeclarationKind, ⟨l, hl⟩, hdeclaratorKind, hname⟩

namespace Document.DeclaresField

variable {document : Document} {type field declaration declarator name : Place}

theorem hasDeclarator (h : document.DeclaresField type field declaration declarator name) :
    document.Has declarator := by
  obtain ⟨body, m, n, hm, -, hn⟩ := h.inType
  obtain ⟨k, hk⟩ := h.inField
  obtain ⟨l, hl⟩ := h.inDeclaration
  exact (((h.hasType.child hm).child hn).child hk).child hl

theorem hasName (h : document.DeclaresField type field declaration declarator name) :
    document.Has name :=
  have ⟨_, hn⟩ := child?_of_name? h.inDeclarator
  h.hasDeclarator.child hn

/-- The name declares, and the nodes around it are its parents. -/
theorem parents (h : document.DeclaresField type field declaration declarator name) :
    name.role = .declaration ∧ name.parentOf? .variableDeclarator = some declarator
      ∧ declarator.parentOf? .variableDeclaration = some declaration
      ∧ declaration.parentOf? .fieldDeclaration = some field
      ∧ field.enclosingType? = some type := by
  obtain ⟨body, m, n, hm, hbody, hn⟩ := h.inType
  obtain ⟨k, hk⟩ := h.inField
  obtain ⟨l, hl⟩ := h.inDeclaration
  obtain ⟨i, hi⟩ := child?_of_name? h.inDeclarator
  refine ⟨role_of_name? hi (by rw [h.isDeclarator]; rfl) h.inDeclarator,
    parentOf?_of_child? hi h.isDeclarator, parentOf?_of_child? hl h.isDeclaration,
    parentOf?_of_child? hk h.isField, ?_⟩
  rw [enclosingType?, ancestor?, ancestors_of_child? hn, ancestors_of_child? hm,
    List.find?_cons_of_neg (p := fun ancestor : Place => ancestor.kind.isTypeDeclaration)
      (by rw [hbody]; decide)]
  exact List.find?_cons_of_pos
    (p := fun ancestor : Place => ancestor.kind.isTypeDeclaration) h.isType

/-- The name is found at its span, for it is a leaf. -/
theorem at? (h : document.DeclaresField type field declaration declarator name)
    (hsound : document.Sound) (hkind : name.kind = .identifier) :
    document.root.at? name.span .identifier = some name := by
  have hpiece := Document.piece_of_identifier hsound h.hasName hkind
  have hat := h.hasName.at?_of_leaf hsound hpiece.start_lt_stop
    (h.hasName.leaf_of_identifier hsound hkind)
  rwa [hkind] at hat

/-- The name declares the field of the type. -/
theorem declared?_eq (h : document.DeclaresField type field declaration declarator name) :
    name.declared? = some (.field type.span name.lexeme) := by
  obtain ⟨k, hk⟩ := h.inField
  obtain ⟨l, hl⟩ := h.inDeclaration
  obtain ⟨i, hi⟩ := child?_of_name? h.inDeclarator
  rw [declared?, parent?_of_child? hi]
  simp only [h.isDeclarator, declaratorSymbol?, parent?_of_child? hl, Option.bind_some,
    parent?_of_child? hk, isA_iff.2 h.isField, if_true, h.parents.2.2.2.2, Option.map_some]

/-- The name stands for the field of the type. -/
theorem symbol_eq (h : document.DeclaresField type field declaration declarator name)
    {symbol : Symbol} (hresolve : name.resolve? = some symbol) :
    symbol = .field type.span name.lexeme := by
  have hdeclared := resolve?_of_declaration h.parents.1 hresolve
  rw [h.declared?_eq, Option.some.injEq] at hdeclared
  exact hdeclared.symm

theorem isNamed
    (h : document.DeclaresField type field declaration declarator name) :
    type.fieldDeclarators.any (·.isNamed name.lexeme) = true := by
  refine List.any_eq_true.2 ⟨declarator, h.mem, ?_⟩
  rw [Place.isNamed, h.inDeclarator]
  exact beq_self_eq_true name.lexeme

/-- Two declarations with names of one span are one declaration. -/
theorem unique (hsound : document.Sound) {type' field' declaration' declarator' name' : Place}
    (h : document.DeclaresField type field declaration declarator name)
    (h' : document.DeclaresField type' field' declaration' declarator' name')
    (hkind : name.kind = .identifier) (hkind' : name'.kind = .identifier)
    (hspan : name'.span = name.span) : type' = type ∧ name' = name := by
  have hname := h'.at? hsound hkind'
  rw [hspan, h.at? hsound hkind, Option.some.injEq] at hname
  subst hname
  -- The names are one, and going up from it each step leads to one parent.
  obtain ⟨-, hdeclarator, hdeclaration, hfield, htype⟩ := h.parents
  obtain ⟨-, hdeclarator', hdeclaration', hfield', htype'⟩ := h'.parents
  rw [hdeclarator, Option.some.injEq] at hdeclarator'
  subst hdeclarator'
  rw [hdeclaration, Option.some.injEq] at hdeclaration'
  subst hdeclaration'
  rw [hfield, Option.some.injEq] at hfield'
  subst hfield'
  rw [htype, Option.some.injEq] at htype'
  exact ⟨htype'.symm, rfl⟩

/-- A plan from the span of the name is for the field of the type. -/
theorem eq_plan (h : document.DeclaresField type field declaration declarator name)
    (hsound : document.Sound) (hkind : name.kind = .identifier) {plan : RemovalPlan}
    (hplan : plan.Stands document name.span) :
    plan.field = field ∧ plan.type = type ∧ plan.symbol = .field type.span name.lexeme := by
  obtain ⟨-, hdeclarator, hdeclaration, hfield, htype⟩ := h.parents
  -- The plan goes up from the name exactly as the declaration does.
  have hplanName := hplan.name
  rw [h.at? hsound hkind, Option.some.injEq] at hplanName
  have hplanDeclarator := hplan.declarator
  rw [← hplanName, hdeclarator, Option.some.injEq] at hplanDeclarator
  have hplanDeclaration := hplan.declaration
  rw [← hplanDeclarator, hdeclaration, Option.some.injEq] at hplanDeclaration
  have hplanField := hplan.field
  rw [← hplanDeclaration, hfield, Option.some.injEq] at hplanField
  have hplanType := hplan.type
  rw [← hplanField, htype, Option.some.injEq] at hplanType
  have hresolve := hplan.symbol
  rw [← hplanName] at hresolve
  exact ⟨hplanField.symm, hplanType.symm, h.symbol_eq hresolve⟩

end Document.DeclaresField

/-- An issue for an unread field is about the name of a private field, to which a
    constructor writes and which nothing reads. -/
theorem exists_of_unreadFieldIssue? {document : Document} {type declarator : Place} {issue : Issue}
    (h : unreadFieldIssue? document type declarator = some issue) :
    ∃ declaration name symbol message, declarator.parent?.bind Place.parent? = some declaration
      ∧ declaration.isPrivateField = true ∧ declarator.name? = some name
      ∧ name.resolve? = some symbol ∧ (FieldUsage.collect type symbol).isUnread = true
      ∧ issue = .at document .unreadField message name.span := by
  unfold unreadFieldIssue? at h
  split at h
  · next _ declaration name hdeclaration hname =>
    split at h
    · next hprivate =>
      split at h
      · exact absurd h (by simp only [reduceCtorEq, not_false_eq_true])
      · next symbol hresolve =>
        split at h
        · next hunread =>
          exact ⟨declaration, name, symbol, _, hdeclaration, hprivate, hname, hresolve, hunread,
            (Option.some.inj h).symm⟩
        · exact absurd h (by simp only [reduceCtorEq, not_false_eq_true])
    · exact absurd h (by simp only [reduceCtorEq, not_false_eq_true])
  · exact absurd h (by simp only [reduceCtorEq, not_false_eq_true])

/-- It stands at the name, under the rule, and has no fix yet. -/
theorem unreadFieldIssue?_eq_some {document : Document} {type declarator : Place} {issue : Issue}
    (h : unreadFieldIssue? document type declarator = some issue) :
    ∃ name symbol, declarator.name? = some name ∧ name.resolve? = some symbol
      ∧ issue.span = name.span ∧ issue.rule = .unreadField
      ∧ (FieldUsage.collect type symbol).isUnread = true ∧ issue.fix = none := by
  obtain ⟨-, name, symbol, message, -, -, hname, hresolve, hunread, rfl⟩ :=
    exists_of_unreadFieldIssue? h
  exact ⟨name, symbol, hname, hresolve, rfl, rfl, hunread, rfl⟩

end SharpLint

import SharpLint.Proofs.Syntax.Place
import SharpLint.Semantics.Usage

/-!
# What Names Stand For

A name that declares nothing stands for what a scope around it declares, and
the symbol says by its span which scope that is. Spans tell scopes apart,
though a node may span no more than its parent: a node with a body in braces,
or with parameters in parentheses, is never the only child of another.

## Main definitions

* `Place.Brings`: how a scope declares a symbol under a name.
* `Place.Makes`: how a name makes a declaration.
* `Document.Declares`, `Document.Refers`: how a name stands to a symbol.

## Theorems

* `Place.exists_scope`: A reference is to what a scope around it declares.
* `Place.makes_of_declared?`: What a name declares, it makes.
* `Document.Has.eq_of_span_of_body`: A type is told by its span.
* `Document.Has.eq_of_span_of_parameters`: What has parameters is told by its
  span, among the nodes with two children.
-/

namespace SharpLint

namespace Place

variable {scope name p : Place} {s : Symbol} {text : String}

/-- Only names stand for something. -/
theorem kind_of_resolve? (h : name.resolve? = some s) : name.kind = .identifier := by
  unfold resolve? at h
  split at h
  · next hkind => exact isA_iff.1 hkind
  · exact absurd h (by simp only [reduceCtorEq, not_false_eq_true])

/-- A declarator of a field stands in its declaration, in the field, in the body
    of the type. -/
theorem child?_of_mem_fieldDeclarators {type declarator : Place}
    (h : declarator ∈ type.fieldDeclarators) :
    ∃ body field declaration i j k l, type.child? i = some body ∧ body.child? j = some field
      ∧ field.child? k = some declaration ∧ declaration.child? l = some declarator
      ∧ body.kind = .declarationList ∧ field.kind = .fieldDeclaration
      ∧ declaration.kind = .variableDeclaration ∧ declarator.kind = .variableDeclarator := by
  obtain ⟨field, hfield, hmem⟩ := List.mem_flatMap.1 h
  rw [List.mem_filter, isA_iff, members] at hfield
  obtain ⟨hfield, hfieldKind⟩ := hfield
  split at hfield
  · next body hbody =>
    obtain ⟨⟨i, hi⟩, hbodyKind⟩ := child?_of_firstOf? hbody
    obtain ⟨⟨j, hj⟩, -⟩ := mem_namedChildren.1 hfield
    split at hmem
    · next declaration hdeclaration =>
      obtain ⟨⟨k, hk⟩, hdeclarationKind⟩ := child?_of_firstOf? hdeclaration
      obtain ⟨⟨⟨l, hl⟩, -⟩, hdeclaratorKind⟩ := mem_childrenOf.1 hmem
      exact ⟨body, field, declaration, i, j, k, l, hi, hj, hk, hl, hbodyKind, hfieldKind,
        hdeclarationKind, hdeclaratorKind⟩
    · exact absurd hmem List.not_mem_nil
  · exact absurd hfield List.not_mem_nil

/-! ### What scopes declare -/

theorem lookupDeclarators?_eq_some (h : scope.lookupDeclarators? text = some s) :
    ∃ declarator, s = .variable declarator text := by
  unfold lookupDeclarators? at h
  split at h
  · exact absurd h (by simp only [reduceCtorEq, not_false_eq_true])
  · obtain ⟨declarator, -, rfl⟩ := Option.map_eq_some_iff.1 h
    exact ⟨declarator.span, rfl⟩

theorem lookupBlock?_eq_some (h : scope.lookupBlock? text = some s) :
    ∃ declarator, s = .variable declarator text := by
  unfold lookupBlock? at h
  split at h
  · next hfound =>
    rw [Option.some.injEq] at h
    subst h
    obtain ⟨statement, -, hstatement⟩ := List.exists_of_findSome?_eq_some hfound
    exact lookupDeclarators?_eq_some hstatement
  · obtain ⟨found, -, rfl⟩ := Option.map_eq_some_iff.1 h
    exact ⟨found.span, rfl⟩

/-- A list in which the parameter of a name is found. -/
def Lists (list : Place) (text : String) (index : Nat) : Prop :=
  list.parameters.findIdx? (·.isNamed text) = some index

theorem lookupParameters?_eq_some {owner list : Place}
    (h : owner.lookupParameters? list text = some s) :
    ∃ index, s = .parameter owner.span index text ∧ list.Lists text index := by
  obtain ⟨index, hindex, rfl⟩ := Option.map_eq_some_iff.1 h
  exact ⟨index, rfl, hindex⟩

theorem lookupOwnParameters?_eq_some (h : scope.lookupOwnParameters? text = some s) :
    ∃ index list, s = .parameter scope.span index text
      ∧ scope.firstOf? .parameterList = some list ∧ list.Lists text index := by
  unfold lookupOwnParameters? at h
  split at h
  · next list hlist =>
    obtain ⟨index, hs, hindex⟩ := lookupParameters?_eq_some h
    exact ⟨index, list, hs, hlist, hindex⟩
  · exact absurd h (by simp only [reduceCtorEq, not_false_eq_true])

/-- A type that declares a field has a body. -/
theorem lookupField?_eq_some (h : scope.lookupField? text = some s) :
    s = .field scope.span text ∧ ∃ body, scope.firstOf? .declarationList = some body := by
  unfold lookupField? at h
  split at h
  · next hany =>
    rw [Option.some.injEq] at h
    refine ⟨h.symm, ?_⟩
    cases hbody : scope.firstOf? .declarationList with
    | some body => exact ⟨body, rfl⟩
    | none =>
        rw [fieldDeclarators, members, hbody] at hany
        exact absurd hany (by simp only [List.filter_nil, List.flatMap_nil, List.any_nil,
          Bool.false_eq_true, not_false_eq_true])
  · exact absurd h (by simp only [reduceCtorEq, not_false_eq_true])

/-- A type finds its fields before its parameters. -/
theorem lookup?_of_lookupField? (hkind : scope.kind.isTypeDeclaration = true)
    (h : scope.lookupField? text = some s) : scope.lookup? text = some s := by
  have hnot {kind : Kind} (h : kind.isTypeDeclaration = false) (heq : scope.kind = kind) : False := by
    rw [heq, h] at hkind
    exact absurd hkind Bool.false_ne_true
  unfold lookup?
  split
  · next heq => exact (hnot rfl heq).elim
  · next heq => exact (hnot rfl heq).elim
  · next heq => exact (hnot rfl heq).elim
  · next heq => exact (hnot rfl heq).elim
  · next heq => exact (hnot rfl heq).elim
  · next heq => exact (hnot rfl heq).elim
  · rw [if_pos hkind, h, Option.some_or]

/-- How a scope declares a symbol under a name. -/
inductive Brings (scope : Place) (text : String) : Symbol → Prop
  | field {body : Place} (hkind : scope.kind.isTypeDeclaration = true)
      (hbody : scope.firstOf? .declarationList = some body) :
      Brings scope text (.field scope.span text)
  | parameter {list : Place} {index : Nat} (hlist : scope.firstOf? .parameterList = some list)
      (hindex : list.Lists text index) : Brings scope text (.parameter scope.span index text)
  /-- The parameter that a lambda has without a list. -/
  | lone {parameter : Place} (hkind : scope.kind = .lambdaExpression)
      (hparameter : scope.labelled? .parameters = some parameter)
      (hlexeme : parameter.lexeme = text) : Brings scope text (.parameter scope.span 0 text)
  /-- The parameter that a lambda has in a list. -/
  | listed {list : Place} {index : Nat} (hkind : scope.kind = .lambdaExpression)
      (hlist : scope.labelled? .parameters = some list) (hindex : list.Lists text index) :
      Brings scope text (.parameter scope.span index text)
  | «variable» {declarator : Span} : Brings scope text (.variable declarator text)

theorem brings_of_lookup? (h : scope.lookup? text = some s) : scope.Brings text s := by
  have hown (h : scope.lookupOwnParameters? text = some s) : scope.Brings text s := by
    obtain ⟨index, list, rfl, hlist, hindex⟩ := lookupOwnParameters?_eq_some h
    exact .parameter hlist hindex
  have hvariable (h : ∃ declarator, s = .variable declarator text) : scope.Brings text s := by
    obtain ⟨declarator, rfl⟩ := h
    exact .variable
  -- The first five kinds of scopes find variables; lambdas, types and members do not.
  unfold lookup? at h
  split at h
  · exact hvariable (lookupBlock?_eq_some h)
  · exact hvariable (lookupDeclarators?_eq_some h)
  · exact hvariable (lookupDeclarators?_eq_some h)
  · split at h
    · split at h
      · rw [Option.some.injEq] at h
        exact hvariable ⟨_, h.symm⟩
      · exact absurd h (by simp only [reduceCtorEq, not_false_eq_true])
    · exact absurd h (by simp only [reduceCtorEq, not_false_eq_true])
  · split at h
    · split at h
      · rw [Option.some.injEq] at h
        exact hvariable ⟨_, h.symm⟩
      · exact absurd h (by simp only [reduceCtorEq, not_false_eq_true])
    · exact absurd h (by simp only [reduceCtorEq, not_false_eq_true])
  · next hkind =>
    unfold lookupLambda? at h
    split at h
    · exact absurd h (by simp only [reduceCtorEq, not_false_eq_true])
    · next parameters hparameters =>
      split at h
      · split at h
        · next hlexeme =>
          rw [Option.some.injEq] at h
          subst h
          exact .lone hkind hparameters hlexeme
        · exact absurd h (by simp only [reduceCtorEq, not_false_eq_true])
      · -- A lambda with a list of parameters.
        obtain ⟨index, rfl, hindex⟩ := lookupParameters?_eq_some h
        exact .listed hkind hparameters hindex
  · split at h
    · next hkind =>
      rcases Option.or_eq_some_iff.1 h with hfield | ⟨-, hparameter⟩
      · obtain ⟨rfl, body, hbody⟩ := lookupField?_eq_some hfield
        exact .field hkind hbody
      · exact hown hparameter
    · exact hown h

/-- What is declared under a name has the name. -/
theorem Brings.name_eq (h : scope.Brings text s) : s.name = text := by
  cases h <;> rfl

/-- What a reference stands for has the name. -/
theorem name_of_resolve? (hrole : name.role ≠ .declaration) (h : name.resolve? = some s) :
    s.name = name.lexeme := by
  rw [resolve?, if_pos (isA_iff.2 (kind_of_resolve? h))] at h
  split at h
  · next hrole' => exact absurd hrole' hrole
  · split at h
    · rw [(lookupField?_eq_some h).1]
      rfl
    · exact absurd h (by simp only [reduceCtorEq, not_false_eq_true])
  · exact absurd h (by simp only [reduceCtorEq, not_false_eq_true])
  · exact absurd h (by simp only [reduceCtorEq, not_false_eq_true])
  · obtain ⟨scope, -, hlookup⟩ := List.exists_of_findSome?_eq_some h
    exact (brings_of_lookup? hlookup).name_eq

/-- A reference is looked up from `this`, or from where it stands. -/
theorem role_of_resolve? (hrole : name.role ≠ .declaration) (h : name.resolve? = some s) :
    name.role = .thisMember ∨ name.role = .simple := by
  rw [resolve?, if_pos (isA_iff.2 (kind_of_resolve? h))] at h
  split at h
  · next hrole' => exact absurd hrole' hrole
  · next hrole' => exact .inl hrole'
  · exact absurd h (by simp only [reduceCtorEq, not_false_eq_true])
  · exact absurd h (by simp only [reduceCtorEq, not_false_eq_true])
  · next hrole' => exact .inr hrole'

/-- A reference stands below a scope that finds its symbol. -/
theorem exists_lookup {tree : Tree} (hname : Below (root tree) name)
    (hrole : name.role ≠ .declaration) (h : name.resolve? = some s) :
    ∃ scope, Below (root tree) scope ∧ Below scope name ∧ scope.lookup? name.lexeme = some s := by
  rw [resolve?, if_pos (isA_iff.2 (kind_of_resolve? h))] at h
  split at h
  · next hrole' => exact absurd hrole' hrole
  · split at h
    · next type htype =>
      obtain ⟨hroot, hbelow, hkind⟩ := below_of_ancestor? hname htype
      exact ⟨type, hroot, hbelow, lookup?_of_lookupField? hkind h⟩
    · exact absurd h (by simp only [reduceCtorEq, not_false_eq_true])
  · exact absurd h (by simp only [reduceCtorEq, not_false_eq_true])
  · exact absurd h (by simp only [reduceCtorEq, not_false_eq_true])
  · obtain ⟨scope, hscope, hlookup⟩ := List.exists_of_findSome?_eq_some h
    obtain ⟨hroot, hbelow⟩ := below_of_mem_ancestors hname hscope
    exact ⟨scope, hroot, hbelow, hlookup⟩

/-- A reference is to what a scope around it declares. -/
theorem exists_scope {tree : Tree} (hname : Below (root tree) name)
    (hrole : name.role ≠ .declaration) (h : name.resolve? = some s) :
    ∃ scope, Below (root tree) scope ∧ Below scope name ∧ scope.Brings name.lexeme s
      ∧ (name.role = .thisMember ∨ name.role = .simple) := by
  obtain ⟨scope, hroot, hbelow, hlookup⟩ := exists_lookup hname hrole h
  exact ⟨scope, hroot, hbelow, brings_of_lookup? hlookup, role_of_resolve? hrole h⟩

/-! ### What names declare -/

theorem resolve?_of_declaration (hrole : name.role = .declaration) (h : name.resolve? = some s) :
    name.declared? = some s := by
  rw [resolve?, if_pos (isA_iff.2 (kind_of_resolve? h)), hrole] at h
  exact h

/-- What declares by its name is named by the name that declares. -/
theorem name?_of_declaration {tree : Tree} {parent : Place} {n : Nat}
    (hparent : Below (root tree) parent) (hname : parent.child? n = some name)
    (hrole : name.role = .declaration) (hdeclares : parent.kind.declaresByName = true) :
    parent.name? = some name := by
  have hroot : Below (root tree) name := .step hparent hname
  have hplays (h : name.plays parent .name = true) : parent.name? = some name := by
    rw [name?, (plays_iff hroot hparent).1 h, Option.some_or]
  have hnot (kind : Kind) (hkind : kind.declaresByName = false) : parent.isA kind ≠ true := by
    intro hisA
    rw [isA_iff.1 hisA, hkind] at hdeclares
    exact absurd hdeclares Bool.false_ne_true
  rw [role, parent?_of_child? hname] at hrole
  simp only [roleIn, hnot .memberAccessExpression rfl, hnot .foreachStatement rfl,
    hnot .lambdaExpression rfl, Bool.false_and, Bool.false_eq_true, if_false, hdeclares,
    Bool.true_and] at hrole
  -- A role is told by the label of the name, or by its place before what declares.
  by_cases hisName : name.isNameOf parent = true
  · rw [isNameOf, Bool.or_eq_true] at hisName
    rcases hisName with h | h
    · exact hplays h
    · split at h
      · next found hfound =>
        obtain ⟨m, hm⟩ := child?_of_name? hfound
        rw [hfound, eq_of_same (.step hparent hm) hroot h]
      · exact absurd h Bool.false_ne_true
  · by_cases hplaysName : name.plays parent .name = true
    · exact hplays hplaysName
    · rw [if_neg hisName] at hrole
      split at hrole
      · exact absurd hrole (by simp only [reduceCtorEq, not_false_eq_true])
      · split at hrole
        · exact absurd hrole (by simp only [reduceCtorEq, not_false_eq_true])
        · exact absurd hrole (by simp only [reduceCtorEq, not_false_eq_true])

/-- How a name makes a declaration, told by the nodes around it. -/
inductive Makes (name : Place) : Symbol → Prop
  /-- As the name of a declarator in a field. -/
  | field {declarator declaration field type : Place} (hdeclarator : name.parent? = some declarator)
      (hkind : declarator.kind = .variableDeclarator)
      (hdeclaration : declarator.parent? = some declaration)
      (hfield : declaration.parent? = some field) (hfieldKind : field.kind = .fieldDeclaration)
      (htype : field.enclosingType? = some type) : Makes name (.field type.span name.lexeme)
  /-- As the name of a parameter in a list. -/
  | parameter {parameter list around : Place} {index : Nat}
      (hparameter : name.parent? = some parameter) (hkind : parameter.kind = .parameter)
      (hlist : parameter.parent? = some list) (haround : list.parent? = some around)
      (hindex : list.parameters.findIdx? (·.same parameter) = some index) :
      Makes name (.parameter around.span index name.lexeme)
  /-- As the only name before the arrow of a lambda. -/
  | lone {lambda : Place} (hlambda : name.parent? = some lambda)
      (hkind : lambda.kind = .lambdaExpression) : Makes name (.parameter lambda.span 0 name.lexeme)
  | «variable» {parent : Place} (hparent : name.parent? = some parent) :
      Makes name (.variable parent.span name.lexeme)

theorem makes_of_declared? (h : name.declared? = some s) : name.Makes s := by
  unfold declared? at h
  -- The parent is a declarator, a parameter, a lambda, or another node that declares.
  split at h
  · exact absurd h (by simp only [reduceCtorEq, not_false_eq_true])
  · next parent hparent =>
    split at h
    · next hkind =>
      unfold declaratorSymbol? at h
      split at h
      · exact absurd h (by simp only [reduceCtorEq, not_false_eq_true])
      · next field hfield =>
        obtain ⟨declaration, hdeclaration, hparent'⟩ := Option.bind_eq_some_iff.1 hfield
        split at h
        · next hisField =>
          obtain ⟨type, htype, rfl⟩ := Option.map_eq_some_iff.1 h
          exact .field hparent hkind hdeclaration hparent' (isA_iff.1 hisField) htype
        · exact Option.some.inj h ▸ .variable hparent
    · next hkind =>
      unfold parameterSymbol? at h
      split at h
      · exact absurd h (by simp only [reduceCtorEq, not_false_eq_true])
      · next list hlist =>
        split at h
        · next around index haround hindex =>
          exact Option.some.inj h ▸ .parameter hparent hkind hlist haround hindex
        · exact absurd h (by simp only [reduceCtorEq, not_false_eq_true])
    · next hkind => exact Option.some.inj h ▸ .lone hparent hkind
    · exact Option.some.inj h ▸ .variable hparent

/-- A field is declared by the name of a declarator. -/
theorem declared?_field {owner : Span} (h : name.declared? = some (.field owner text)) :
    ∃ declarator declaration field type, name.parent? = some declarator
      ∧ declarator.kind = .variableDeclarator ∧ declarator.parent? = some declaration
      ∧ declaration.parent? = some field ∧ field.kind = .fieldDeclaration
      ∧ field.enclosingType? = some type ∧ owner = type.span ∧ text = name.lexeme := by
  cases makes_of_declared? h with
  | field hdeclarator hkind hdeclaration hfield hfieldKind htype =>
      exact ⟨_, _, _, _, hdeclarator, hkind, hdeclaration, hfield, hfieldKind, htype, rfl, rfl⟩

/-- A parameter is declared by its name in a list, or by the only name before
    the arrow of a lambda. -/
theorem declared?_parameter {owner : Span} {index : Nat}
    (h : name.declared? = some (.parameter owner index text)) :
    text = name.lexeme
      ∧ ((∃ parameter list around, name.parent? = some parameter ∧ parameter.kind = .parameter
          ∧ parameter.parent? = some list ∧ list.parent? = some around
          ∧ list.parameters.findIdx? (·.same parameter) = some index ∧ owner = around.span)
        ∨ ∃ lambda, name.parent? = some lambda ∧ lambda.kind = .lambdaExpression
          ∧ owner = lambda.span) := by
  cases makes_of_declared? h with
  | parameter hparameter hkind hlist haround hindex =>
      exact ⟨rfl, .inl ⟨_, _, _, hparameter, hkind, hlist, haround, hindex, rfl⟩⟩
  | lone hlambda hkind => exact ⟨rfl, .inr ⟨_, hlambda, hkind, rfl⟩⟩

end Place

/-! ### Declarations and references -/

/-- The name declares the symbol. -/
def Document.Declares (document : Document) (name : Place) (symbol : Symbol) : Prop :=
  name ∈ document.root.descendants ∧ name.role = .declaration ∧ name.resolve? = some symbol

/-- The name stands for the symbol and does not declare it. -/
def Document.Refers (document : Document) (name : Place) (symbol : Symbol) : Prop :=
  name ∈ document.root.descendants ∧ name.role ≠ .declaration ∧ name.resolve? = some symbol

namespace Document

open Place

variable {document : Document} {name : Place} {symbol : Symbol}

theorem Declares.has (h : document.Declares name symbol) : document.Has name :=
  mem_descendants.1 h.1

theorem Refers.has (h : document.Refers name symbol) : document.Has name :=
  mem_descendants.1 h.1

/-- A name that refers to a symbol stands below a scope that finds it. -/
theorem Refers.exists_lookup (h : document.Refers name symbol) :
    ∃ scope, document.Has scope ∧ Below scope name
      ∧ scope.lookup? name.lexeme = some symbol :=
  Place.exists_lookup h.has h.2.1 h.2.2

/-- The name at a span, with its role and what it stands for. -/
theorem exists_at? (document : Document) (span : Span) (role : Role) (symbol : Symbol)
    (h : ((document.root.at? span .identifier).map fun name => (name.role, name.resolve?))
      = some (role, some symbol)) :
    ∃ name ∈ document.root.descendants, name.span = span ∧ name.role = role
      ∧ name.resolve? = some symbol := by
  obtain ⟨name, hname, heq⟩ := Option.map_eq_some_iff.1 h
  rw [Prod.mk.injEq] at heq
  obtain ⟨hbelow, -, hspan⟩ := below_of_at? hname
  exact ⟨name, mem_descendants.2 hbelow, hspan, heq⟩

end Document

/-! ### Spans of scopes -/

namespace Document

open Place

variable {document : Document} {p q : Place}

/-- A list in brackets has two children. -/
theorem Has.brackets (h : document.Has p) (hsound : document.Sound)
    (hkind : p.kind.isBracketed = true) :
    ∃ opening closing n, p.child? 0 = some opening ∧ p.child? (n + 1) = some closing := by
  obtain ⟨opening, closing, n, hopening, hclosing, -⟩ := h.exists_brackets hsound hkind
  exact ⟨opening, closing, n, hopening, hclosing⟩

/-- A node with two children spans more than those below it. -/
theorem Has.eq_of_span_of_two (hp : document.Has p) (hsound : document.Sound) (hq : Below p q)
    (hspan : q.span = p.span) {m n : Nat} {a b : Place} (ha : p.child? m = some a)
    (hb : p.child? n = some b) (hne : m ≠ n) : q = p := by
  refine Classical.byContradiction fun hqp => ?_
  obtain ⟨child, -, -, honly⟩ := hp.only_child hsound hq hqp hspan
  rw [honly m a ha] at ha
  rw [honly n b hb] at hb
  exact hne (child?_unique ha hb).2

/-- A node with a list in brackets spans more than those below it, but for the
    list. -/
theorem Has.eq_of_span_of_bracketed (hp : document.Has p) (hsound : document.Sound)
    (hq : Below p q) (hspan : q.span = p.span) {n : Nat} {list : Place}
    (hlist : p.child? n = some list) (hbracketed : list.kind.isBracketed = true)
    (hkind : q.kind ≠ list.kind) : q = p := by
  refine Classical.byContradiction fun hqp => ?_
  obtain ⟨child, hbelow, hchild, honly⟩ := hp.only_child hsound hq hqp hspan
  obtain rfl := honly n list hlist
  obtain ⟨opening, closing, m, hopening, hclosing⟩ := (hp.child hlist).brackets hsound hbracketed
  have heq := (hp.child hlist).eq_of_span_of_two hsound hbelow (hspan.trans hchild.symm) hopening
    hclosing (Nat.succ_ne_zero m).symm
  exact hkind (congrArg Place.kind heq)

/-- Two nodes of one span are above one another, if they are not empty. -/
theorem Has.below_of_span (hp : document.Has p) (hq : document.Has q) (hsound : document.Sound)
    (hspan : p.span = q.span) (hproper : p.start < p.stop) : Below p q ∨ Below q p := by
  have hstart : p.start = q.start := congrArg Span.start hspan
  have hstop : p.stop = q.stop := congrArg Span.stop hspan
  rcases hp.nested hq hsound with hbelow | hbelow | hapart | hapart
  · exact .inl hbelow
  · exact .inr hbelow
  · omega
  · omega

/-- A type with a body is told by its span. -/
theorem Has.eq_of_span_of_body (hp : document.Has p) (hq : document.Has q)
    (hsound : document.Sound) (hpKind : p.kind.isTypeDeclaration = true)
    (hqKind : q.kind.isTypeDeclaration = true) (hspan : p.span = q.span) {m n : Nat}
    {body body' : Place} (hm : p.child? m = some body) (hbody : body.kind = .declarationList)
    (hn : q.child? n = some body') (hbody' : body'.kind = .declarationList) : p = q := by
  have hbracketed {list : Place} (hlist : list.kind = .declarationList) :
      list.kind.isBracketed = true := by rw [hlist]; rfl
  have hnot {type list : Place} (hkind : type.kind.isTypeDeclaration = true)
      (hlist : list.kind = .declarationList) : type.kind ≠ list.kind := by
    rw [hlist]
    intro heq
    rw [heq] at hkind
    exact absurd hkind (by decide)
  have hproper : p.start < p.stop := by
    have hchild := hp.child_span hsound hm
    omega
  -- One of the two is below the other; a body in braces is smaller than what is around it.
  rcases hp.below_of_span hq hsound hspan hproper with hbelow | hbelow
  · exact (hp.eq_of_span_of_bracketed hsound hbelow hspan.symm hm (hbracketed hbody)
      (hnot hqKind hbody)).symm
  · exact hq.eq_of_span_of_bracketed hsound hbelow hspan hn (hbracketed hbody')
      (hnot hpKind hbody')

/-- A list in which a parameter is found stands in parentheses. -/
theorem Has.kind_of_lists (h : document.Has p) (hsound : document.Sound) {text : String}
    {index : Nat} (hlists : p.Lists text index) :
    p.kind = .parameterList ∨ p.kind = .bracketedParameterList := by
  obtain ⟨hindex, -⟩ := List.findIdx?_eq_some_iff_getElem.1 hlists
  obtain ⟨⟨⟨n, hn⟩, -⟩, hkind⟩ := mem_childrenOf.1 (List.getElem_mem hindex)
  have hholds := (h.shaped hsound).holds _ (mem_of_child? hn)
  rw [show (p.parameters[index]).node.kind = .parameter from hkind] at hholds
  rwa [Kind.mayHold, Bool.or_eq_true, beq_iff_eq, beq_iff_eq] at hholds

/-- What declares a parameter is told by its span, among the members with two
    children. -/
theorem Has.eq_of_span_of_parameters (hp : document.Has p) (hq : document.Has q)
    (hsound : document.Sound) {text : String} {owner : Span} {index : Nat}
    (hbrings : p.Brings text (.parameter owner index text)) (htext : text ≠ "")
    (hspan : owner = q.span) (hkind : q.kind.isMember = true) {m n : Nat} {a b : Place}
    (ha : q.child? m = some a) (hb : q.child? n = some b) (hne : m ≠ n) : p = q := by
  have hproper : q.start < q.stop := by
    have hchild := hq.child_span hsound ha
    omega
  have hlist {k : Nat} {list : Place} (hk : p.child? k = some list)
      (hlist : list.kind = .parameterList) (hbelow : Below p q) (hspan : q.span = p.span) :
      p = q := by
    refine (hp.eq_of_span_of_bracketed hsound hbelow hspan hk (by rw [hlist]; rfl) ?_).symm
    rw [hlist]
    intro heq
    rw [heq] at hkind
    exact absurd hkind (by decide)
  have hlabel {parameters : Place} (hparameters : p.labelled? .parameters = some parameters) :
      (∃ k, p.child? k = some parameters) ∧ parameters.kind.isParameters = true :=
    have hchild := child?_of_labelled? hparameters
    ⟨hchild.1, (hp.shaped hsound).parameters parameters.node (mem_of_child? hchild.1.choose_spec)
      hchild.2⟩
  have hpspan : p.span = q.span := by
    cases hbrings <;> exact hspan
  rcases hq.below_of_span hp hsound hpspan.symm hproper with hbelow | hbelow
  · exact hq.eq_of_span_of_two hsound hbelow hpspan ha hb hne
  · cases hbrings with
    | parameter hfirst hindex =>
        obtain ⟨⟨k, hk⟩, hlistKind⟩ := child?_of_firstOf? hfirst
        exact hlist hk hlistKind hbelow hspan.symm
    | @lone parameter hlambda hparameter hlexeme =>
        obtain ⟨⟨k, hk⟩, hparameters⟩ := hlabel hparameter
        -- A name alone is a leaf, so nothing else stands below it.
        refine Classical.byContradiction fun hqp => ?_
        obtain ⟨child, hchildBelow, -, honly⟩ := hp.only_child hsound hbelow (Ne.symm hqp)
          hspan.symm
        obtain rfl := honly k parameter hk
        have hshape := (hp.child hk).shaped hsound
        have hleaf : parameter.node.children = [] := by
          refine (hshape.leaf fun hempty => htext (hlexeme.symm.trans hempty)).resolve_left fun heq => ?_
          rw [Place.kind, heq] at hparameters
          exact absurd hparameters (by decide)
        rw [← eq_of_below_leaf hleaf hchildBelow] at hparameters
        cases hq : q.kind <;> rw [hq] at hparameters hkind <;>
          first
            | exact absurd hparameters Bool.false_ne_true
            | exact absurd hkind Bool.false_ne_true
    | @listed list _ hlambda hlabelled hindex =>
        obtain ⟨⟨k, hk⟩, hparameters⟩ := hlabel hlabelled
        refine hlist hk (((hp.child hk).kind_of_lists hsound hindex).resolve_right fun heq => ?_)
          hbelow hspan.symm
        rw [heq] at hparameters
        exact absurd hparameters (by decide)

end Document

end SharpLint

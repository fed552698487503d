import SharpLint.Proofs.Semantics.Scope

/-!
# What Scopes Hold

A lookup gives a symbol, and a symbol does not say which name declares it: a
variable is told by the span of the node around the name, a parameter by its
index, a field by its type alone. `Holds` keeps the name. It lists the ways in
which a scope can hold a declaration, one for each way in which a scope answers,
and says which symbol is declared, so that what is said of lookups is one case
for each way.

## Main definitions

* `Place.Holds`: a scope holds the declaration of a symbol, made by a name.

## Theorems

* `Document.Has.of_declaresIn`: What declares in a block is an argument or a
  pattern, with no other block between.
* `Document.Has.exists_holds`: What a scope finds, it holds.
-/

namespace SharpLint

open Place

namespace Place

variable {scope name p : Place} {s : Symbol} {text : String}

/-- The list is that of the parameters of a member, or of those of a lambda. -/
def IsListOf (list owner : Place) : Prop :=
  owner.firstOf? .parameterList = some list
    ∨ owner.kind = .lambdaExpression ∧ owner.labelled? .parameters = some list

/-- The statement is one in a block, or the `for` or `using` itself that is the
    scope. -/
def IsStatementOf (statement scope : Place) : Prop :=
  scope.kind = .block ∧ statement ∈ scope.childrenOf .localDeclarationStatement
    ∨ (scope.kind = .forStatement ∨ scope.kind = .usingStatement) ∧ statement = scope

/-- The scope holds the declaration of a symbol, which the name makes. -/
inductive Holds (scope : Place) : Place → Symbol → Prop
  /-- A declarator in the body of a type. -/
  | field {declarator name : Place} (hkind : scope.kind.isTypeDeclaration = true)
      (hdeclarator : declarator ∈ scope.fieldDeclarators)
      (hname : declarator.name? = some name) : Holds scope name (.field scope.span name.lexeme)
  /-- The first parameter of its name in a list. -/
  | parameter {list parameter name : Place} {index : Nat} (hlist : list.IsListOf scope)
      (hindex : list.Lists name.lexeme index) (hparameter : list.parameters[index]? = some parameter)
      (hname : parameter.name? = some name) :
      Holds scope name (.parameter scope.span index name.lexeme)
  /-- What stands before the arrow of a lambda without a list. -/
  | lone {name : Place} (hkind : scope.kind = .lambdaExpression)
      (hname : scope.labelled? .parameters = some name)
      (hnameKind : name.kind = .identifier ∨ name.kind = .implicitParameter) :
      Holds scope name (.parameter scope.span 0 name.lexeme)
  /-- A declarator in a statement. -/
  | declarator {statement declaration declarator name : Place}
      (hstatement : statement.IsStatementOf scope)
      (hdeclaration : statement.firstOf? .variableDeclaration = some declaration)
      (hdeclarator : declarator ∈ declaration.childrenOf .variableDeclarator)
      (hname : declarator.name? = some name) :
      Holds scope name (.variable declarator.span name.lexeme)
  /-- What a `foreach` goes through its values with. -/
  | foreach {name : Place} (hkind : scope.kind = .foreachStatement)
      (hname : scope.labelled? .left = some name) (hnameKind : name.kind = .identifier) :
      Holds scope name (.variable scope.span name.lexeme)
  /-- What a `catch` catches. -/
  | caught {declaration name : Place} (hkind : scope.kind = .catchClause)
      (hdeclaration : scope.firstOf? .catchDeclaration = some declaration)
      (hname : declaration.name? = some name) :
      Holds scope name (.variable declaration.span name.lexeme)
  /-- An argument or a pattern below a block, with no other block between. -/
  | designation {found name : Place} (hkind : scope.kind = .block)
      (hfound : Below scope found)
      (hfoundKind : found.kind = .declarationExpression ∨ found.kind = .declarationPattern)
      (hnearest : found.ancestor? (· == .block) = some scope)
      (hname : found.name? = some name) : Holds scope name (.variable found.span name.lexeme)

/-! ### What lookups find is held -/

theorem exists_name_of_isNamed (h : p.isNamed text = true) :
    ∃ name, p.name? = some name ∧ name.lexeme = text := by
  unfold isNamed at h
  split at h
  · next name hname => exact ⟨name, hname, beq_iff_eq.1 h⟩
  · exact absurd h Bool.false_ne_true

theorem holds_of_lookupField? (hkind : scope.kind.isTypeDeclaration = true)
    (h : scope.lookupField? text = some s) : ∃ name, scope.Holds name s ∧ name.lexeme = text := by
  unfold lookupField? at h
  split at h
  · next hany =>
    rw [Option.some.injEq] at h
    obtain ⟨declarator, hdeclarator, hnamed⟩ := List.any_eq_true.1 hany
    obtain ⟨name, hname, rfl⟩ := exists_name_of_isNamed hnamed
    subst h
    exact ⟨name, .field hkind hdeclarator hname, rfl⟩
  · exact absurd h (by simp only [reduceCtorEq, not_false_eq_true])

theorem holds_of_lookupParameters? {list : Place} (hlist : list.IsListOf scope)
    (h : scope.lookupParameters? list text = some s) :
    ∃ name, scope.Holds name s ∧ name.lexeme = text := by
  obtain ⟨index, rfl, hlists⟩ := lookupParameters?_eq_some h
  obtain ⟨hindex, hnamed, -⟩ := List.findIdx?_eq_some_iff_getElem.1 hlists
  obtain ⟨name, hname, rfl⟩ := exists_name_of_isNamed hnamed
  exact ⟨name, .parameter hlist hlists (List.getElem?_eq_getElem hindex) hname, rfl⟩

theorem holds_of_lookupOwnParameters? (h : scope.lookupOwnParameters? text = some s) :
    ∃ name, scope.Holds name s ∧ name.lexeme = text := by
  unfold lookupOwnParameters? at h
  split at h
  · next list hlist => exact holds_of_lookupParameters? (.inl hlist) h
  · exact absurd h (by simp only [reduceCtorEq, not_false_eq_true])

theorem holds_of_lookupLambda? (hkind : scope.kind = .lambdaExpression)
    (h : scope.lookupLambda? text = some s) : ∃ name, scope.Holds name s ∧ name.lexeme = text := by
  unfold lookupLambda? at h
  split at h
  · exact absurd h (by simp only [reduceCtorEq, not_false_eq_true])
  · next parameters hparameters =>
    split at h
    · next hnameKind =>
      rw [Bool.or_eq_true, isA_iff, isA_iff] at hnameKind
      split at h
      · next hlexeme =>
        rw [Option.some.injEq] at h
        subst h hlexeme
        exact ⟨parameters, .lone hkind hparameters hnameKind, rfl⟩
      · exact absurd h (by simp only [reduceCtorEq, not_false_eq_true])
    · exact holds_of_lookupParameters? (.inr ⟨hkind, hparameters⟩) h

theorem holds_of_lookupDeclarators? {statement : Place} (hstatement : statement.IsStatementOf scope)
    (h : statement.lookupDeclarators? text = some s) :
    ∃ name, scope.Holds name s ∧ name.lexeme = text := by
  unfold lookupDeclarators? at h
  split at h
  · exact absurd h (by simp only [reduceCtorEq, not_false_eq_true])
  · next declaration hdeclaration =>
    obtain ⟨declarator, hdeclarator, rfl⟩ := Option.map_eq_some_iff.1 h
    obtain ⟨name, hname, rfl⟩ := exists_name_of_isNamed
      (List.find?_some (p := fun place : Place => place.isNamed text) hdeclarator)
    exact ⟨name, .declarator hstatement hdeclaration (List.mem_of_find?_eq_some hdeclarator) hname,
      rfl⟩

theorem declaresIn_of_nearest {block : Place}
    (hkind : p.kind = .declarationExpression ∨ p.kind = .declarationPattern)
    (hnearest : p.ancestor? (· == .block) = some block) : p.declaresIn block = true := by
  rw [declaresIn, hnearest, Bool.and_eq_true, Bool.or_eq_true, isA_iff, isA_iff]
  exact ⟨hkind, same_self block⟩

end Place

namespace Document

variable {document : Document} {scope found name : Place} {s : Symbol} {text : String}

/-- What declares a variable of a block is an argument or a pattern, and the
    block is the nearest one. -/
theorem Has.of_declaresIn (hfound : document.Has found) (hscope : document.Has scope)
    (h : found.declaresIn scope = true) :
    (found.kind = .declarationExpression ∨ found.kind = .declarationPattern)
      ∧ found.ancestor? (· == .block) = some scope := by
  rw [declaresIn, Bool.and_eq_true, Bool.or_eq_true, isA_iff, isA_iff] at h
  refine ⟨h.1, ?_⟩
  cases hnearest : found.ancestor? (· == .block) with
  | none =>
      rw [hnearest] at h
      exact absurd h.2 Bool.false_ne_true
  | some nearest =>
      rw [hnearest] at h
      rw [eq_of_same (below_of_ancestor? hfound hnearest).1 hscope h.2]

theorem Has.holds_of_lookupBlock? (hscope : document.Has scope) (hkind : scope.kind = .block)
    (h : scope.lookupBlock? text = some s) : ∃ name, scope.Holds name s ∧ name.lexeme = text := by
  unfold lookupBlock? at h
  split at h
  · next hfound =>
    rw [Option.some.injEq] at h
    subst h
    obtain ⟨statement, hstatement, hlookup⟩ := List.exists_of_findSome?_eq_some hfound
    exact holds_of_lookupDeclarators? (.inl ⟨hkind, hstatement⟩) hlookup
  · obtain ⟨found, hfound, rfl⟩ := Option.map_eq_some_iff.1 h
    obtain ⟨hmem, hdeclares⟩ := List.mem_filter.1 (List.mem_of_find?_eq_some hfound)
    have hbelow := mem_descendants.1 hmem
    obtain ⟨hfoundKind, hnearest⟩ := (hscope.below hbelow).of_declaresIn hscope hdeclares
    obtain ⟨name, hname, rfl⟩ := exists_name_of_isNamed
      (List.find?_some (p := fun place : Place => place.isNamed text) hfound)
    exact ⟨name, .designation hkind hbelow hfoundKind hnearest hname, rfl⟩

/-- What a scope finds under a name, it holds. -/
theorem Has.exists_holds (hscope : document.Has scope) (h : scope.lookup? text = some s) :
    ∃ name, scope.Holds name s ∧ name.lexeme = text := by
  -- The cases are those of the lookup: five with variables, lambdas, types, and other members.
  unfold lookup? at h
  split at h
  · next hkind => exact hscope.holds_of_lookupBlock? hkind h
  · next hkind => exact holds_of_lookupDeclarators? (.inr ⟨.inl hkind, rfl⟩) h
  · next hkind => exact holds_of_lookupDeclarators? (.inr ⟨.inr hkind, rfl⟩) h
  · next hkind =>
    split at h
    · next left hleft =>
      split at h
      · next hname =>
        rw [Bool.and_eq_true, isA_iff, beq_iff_eq] at hname
        obtain ⟨hnameKind, rfl⟩ := hname
        rw [Option.some.injEq] at h
        subst h
        exact ⟨left, .foreach hkind hleft hnameKind, rfl⟩
      · exact absurd h (by simp only [reduceCtorEq, not_false_eq_true])
    · exact absurd h (by simp only [reduceCtorEq, not_false_eq_true])
  · next hkind =>
    split at h
    · next declaration hdeclaration =>
      split at h
      · next hnamed =>
        obtain ⟨name, hname, rfl⟩ := exists_name_of_isNamed hnamed
        rw [Option.some.injEq] at h
        subst h
        exact ⟨name, .caught hkind hdeclaration hname, rfl⟩
      · exact absurd h (by simp only [reduceCtorEq, not_false_eq_true])
    · exact absurd h (by simp only [reduceCtorEq, not_false_eq_true])
  · next hkind => exact holds_of_lookupLambda? hkind h
  · split at h
    · next hkind =>
      rcases Option.or_eq_some_iff.1 h with hfield | ⟨-, hparameter⟩
      · exact holds_of_lookupField? hkind hfield
      · exact holds_of_lookupOwnParameters? hparameter
    · exact holds_of_lookupOwnParameters? h

end Document

end SharpLint

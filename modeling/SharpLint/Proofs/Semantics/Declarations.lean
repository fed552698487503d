import SharpLint.Proofs.Lint.Fields
import SharpLint.Proofs.Semantics.Leaks

/-!
# Declarations Behind References

The symbol of a name is built twice over. From a reference, scopes are asked
from the inside out; from a declaration, the nodes around the declaring name are
read. What a lookup finds is held by its scope in one of a few ways, and in each
of them the declaring name gives the same symbol from its side.

## Theorems

* `Place.Holds.role`, `Document.Has.declared?_of_holds`: The name in a
  declaration that is held declares, and declares the symbol.
* `references_have_declarations`: A reference has a declaration of the same
  name and symbol, in a scope around both.
-/

namespace SharpLint

open Place

/-! ### What is held is declared -/

namespace Place

variable {scope name p : Place} {s : Symbol}

/-- A node with a list of parameters holds it. -/
theorem IsListOf.child? {list owner : Place} (h : list.IsListOf owner) :
    ∃ n, owner.child? n = some list := by
  rcases h with h | ⟨-, h⟩
  · exact (child?_of_firstOf? h).1
  · exact (child?_of_labelled? h).1

theorem IsStatementOf.below {statement : Place} (h : statement.IsStatementOf scope) :
    Below scope statement := by
  rcases h with ⟨-, h⟩ | ⟨-, rfl⟩
  · obtain ⟨⟨⟨n, hn⟩, -⟩, -⟩ := mem_childrenOf.1 h
    exact .step .refl hn
  · exact .refl

theorem IsStatementOf.kind_ne {statement : Place} (h : statement.IsStatementOf scope) :
    statement.kind ≠ .fieldDeclaration := by
  rcases h with ⟨-, h⟩ | ⟨h | h, rfl⟩
  · rw [(mem_childrenOf.1 h).2]
    decide
  · rw [h]
    decide
  · rw [h]
    decide

theorem child?_of_mem_parameters {list parameter : Place} {index : Nat}
    (h : list.parameters[index]? = some parameter) :
    (∃ n, list.child? n = some parameter) ∧ parameter.kind = .parameter :=
  have hmem := mem_childrenOf.1 (List.mem_of_getElem? h)
  ⟨hmem.1.1, hmem.2⟩

/-- The name in a declaration stands below the scope that holds it. -/
theorem Holds.below (h : scope.Holds name s) : Below scope name := by
  cases h with
  | field hkind hdeclarator hname =>
      obtain ⟨body, field, declaration, i, j, k, l, hi, hj, hk, hl, -⟩ :=
        child?_of_mem_fieldDeclarators hdeclarator
      obtain ⟨n, hn⟩ := child?_of_name? hname
      exact .step (.step (.step (.step (.step .refl hi) hj) hk) hl) hn
  | parameter hlist hindex hparameter hname =>
      obtain ⟨m, hm⟩ := hlist.child?
      obtain ⟨⟨n, hn⟩, -⟩ := child?_of_mem_parameters hparameter
      obtain ⟨k, hk⟩ := child?_of_name? hname
      exact .step (.step (.step .refl hm) hn) hk
  | lone hkind hname =>
      obtain ⟨⟨n, hn⟩, -⟩ := child?_of_labelled? hname
      exact .step .refl hn
  | declarator hstatement hdeclaration hdeclarator hname =>
      obtain ⟨⟨m, hm⟩, -⟩ := child?_of_firstOf? hdeclaration
      obtain ⟨⟨⟨n, hn⟩, -⟩, -⟩ := mem_childrenOf.1 hdeclarator
      obtain ⟨k, hk⟩ := child?_of_name? hname
      exact .step (.step (.step hstatement.below hm) hn) hk
  | foreach hkind hname =>
      obtain ⟨⟨n, hn⟩, -⟩ := child?_of_labelled? hname
      exact .step .refl hn
  | caught hkind hdeclaration hname =>
      obtain ⟨⟨m, hm⟩, -⟩ := child?_of_firstOf? hdeclaration
      obtain ⟨n, hn⟩ := child?_of_name? hname
      exact .step (.step .refl hm) hn
  | designation hkind hfound hfoundKind hnearest hname =>
      obtain ⟨n, hn⟩ := child?_of_name? hname
      exact .step hfound hn

/-- What stands before an arrow or in the head of a `foreach` declares. -/
theorem role_of_labelled? {parent : Place} {label : Label}
    (h : parent.labelled? label = some name)
    (hparent : parent.kind = .lambdaExpression ∧ label = .parameters
      ∨ parent.kind = .foreachStatement ∧ label = .left) : name.role = .declaration := by
  obtain ⟨⟨n, hn⟩, -⟩ := child?_of_labelled? h
  have hplays : name.plays parent label = true := by
    rw [plays, h]
    exact same_self name
  have hnot (kind : Kind) (hkind : parent.kind ≠ kind) : parent.isA kind = false := by
    rw [← Bool.not_eq_true, isA_iff]
    exact hkind
  rw [role, parent?_of_child? hn]
  rcases hparent with ⟨hkind, rfl⟩ | ⟨hkind, rfl⟩
  · have hmember := hnot .memberAccessExpression (by rw [hkind]; decide)
    have hforeach := hnot .foreachStatement (by rw [hkind]; decide)
    simp only [roleIn, hmember, hforeach, isA_iff.2 hkind, hkind, hplays, Kind.declaresByName,
      Bool.false_and, Bool.and_self, Bool.false_eq_true, if_false, if_true]
  · have hmember := hnot .memberAccessExpression (by rw [hkind]; decide)
    simp only [roleIn, hmember, isA_iff.2 hkind, hkind, hplays, Kind.declaresByName,
      Bool.false_and, Bool.and_self, Bool.false_eq_true, if_false, if_true]

/-- The name in a declaration that a scope holds declares. -/
theorem Holds.role (h : scope.Holds name s) : name.role = .declaration := by
  have hby {parent : Place} (hname : parent.name? = some name)
      (hkind : parent.kind.declaresByName = true) : name.role = .declaration := by
    obtain ⟨n, hn⟩ := child?_of_name? hname
    exact role_of_name? hn hkind hname
  cases h with
  | field hkind hdeclarator hname =>
      obtain ⟨_, _, _, _, _, _, _, -, -, -, -, -, -, -, hdeclaratorKind⟩ :=
        child?_of_mem_fieldDeclarators hdeclarator
      exact hby hname (by rw [hdeclaratorKind]; rfl)
  | parameter hlist hindex hparameter hname =>
      exact hby hname (by rw [(child?_of_mem_parameters hparameter).2]; rfl)
  | lone hkind hname => exact role_of_labelled? hname (.inl ⟨hkind, rfl⟩)
  | declarator hstatement hdeclaration hdeclarator hname =>
      exact hby hname (by rw [(mem_childrenOf.1 hdeclarator).2]; rfl)
  | foreach hkind hname => exact role_of_labelled? hname (.inr ⟨hkind, rfl⟩)
  | caught hkind hdeclaration hname =>
      exact hby hname (by rw [(child?_of_firstOf? hdeclaration).2]; rfl)
  | designation hkind hfound hfoundKind hnearest hname =>
      refine hby hname ?_
      rcases hfoundKind with hfoundKind | hfoundKind
      · rw [hfoundKind]
        rfl
      · rw [hfoundKind]
        rfl

end Place

namespace Document

variable {document : Document} {scope name : Place} {s : Symbol}

/-- The first parameter of its name is told by its place in the list. -/
theorem Has.parameterSymbol?_of_lists {list parameter owner : Place} {index : Nat} {text : String}
    (hlist : document.Has list) (howner : list.parent? = some owner)
    (hlists : list.Lists text index) (hparameter : list.parameters[index]? = some parameter) :
    parameter.parameterSymbol? text = some (.parameter owner.span index text) := by
  obtain ⟨hindex, hnamed, hbefore⟩ := List.findIdx?_eq_some_iff_getElem.1 hlists
  obtain ⟨⟨n, hn⟩, -⟩ := child?_of_mem_parameters hparameter
  have hget : list.parameters[index] = parameter :=
    (List.getElem?_eq_some_iff.1 hparameter).2
  have hfound : list.parameters.findIdx? (·.same parameter) = some index := by
    rw [List.findIdx?_eq_some_iff_getElem]
    refine ⟨hindex, by rw [hget]; exact same_self parameter, fun j hj hsame => ?_⟩
    -- A place before would be the same parameter, and so have the name already.
    obtain ⟨⟨⟨m, hm⟩, -⟩, -⟩ := mem_childrenOf.1 (List.getElem_mem (by omega : j < list.parameters.length))
    refine hbefore j hj ?_
    rw [eq_of_same (hlist.child hm) (hlist.child hn) hsame, ← hget]
    exact hnamed
  simp only [parameterSymbol?, parent?_of_child? hn, howner, hfound]

/-- The name in a declaration that a scope holds declares the symbol. -/
theorem Has.declared?_of_holds (hscope : document.Has scope) (h : scope.Holds name s) :
    name.declared? = some s := by
  cases h with
  | field hkind hdeclarator hname =>
      obtain ⟨field, declaration, hdeclares⟩ := exists_declaresField hscope hkind hdeclarator hname
      exact hdeclares.declared?_eq
  | @parameter list parameter _ index hlist hindex hparameter hname =>
      obtain ⟨m, hm⟩ := hlist.child?
      obtain ⟨-, hkind⟩ := child?_of_mem_parameters hparameter
      obtain ⟨k, hk⟩ := child?_of_name? hname
      rw [declared?, parent?_of_child? hk]
      simp only [hkind]
      exact (hscope.child hm).parameterSymbol?_of_lists (parent?_of_child? hm) hindex hparameter
  | lone hkind hname =>
      obtain ⟨⟨n, hn⟩, -⟩ := child?_of_labelled? hname
      rw [declared?, parent?_of_child? hn]
      simp only [hkind]
  | @declarator statement declaration declarator _ hstatement hdeclaration hdeclarator hname =>
      obtain ⟨⟨m, hm⟩, -⟩ := child?_of_firstOf? hdeclaration
      obtain ⟨⟨⟨n, hn⟩, -⟩, hkind⟩ := mem_childrenOf.1 hdeclarator
      obtain ⟨k, hk⟩ := child?_of_name? hname
      have hisA : ¬statement.isA .fieldDeclaration = true := fun hisA =>
        hstatement.kind_ne (isA_iff.1 hisA)
      rw [declared?, parent?_of_child? hk]
      simp only [hkind, declaratorSymbol?, parent?_of_child? hn, Option.bind_some,
        parent?_of_child? hm, if_neg hisA]
  | foreach hkind hname =>
      obtain ⟨⟨n, hn⟩, -⟩ := child?_of_labelled? hname
      rw [declared?, parent?_of_child? hn]
      simp only [hkind]
  | caught hkind hdeclaration hname =>
      obtain ⟨-, hdeclarationKind⟩ := child?_of_firstOf? hdeclaration
      obtain ⟨n, hn⟩ := child?_of_name? hname
      rw [declared?, parent?_of_child? hn]
      simp only [hdeclarationKind]
  | designation hkind hfound hfoundKind hnearest hname =>
      obtain ⟨n, hn⟩ := child?_of_name? hname
      rw [declared?, parent?_of_child? hn]
      rcases hfoundKind with hfoundKind | hfoundKind
      · simp only [hfoundKind]
      · simp only [hfoundKind]

end Document

/-- Documents of sources are sound, and in a sound document a name that refers to
    a symbol has a declaration: a name of the same text declares the symbol, and
    stands for it if it is an identifier, and the scope that holds the
    declaration is around the reference. -/
theorem references_have_declarations :
    (∀ source : Text, (Document.parse source).Sound)
      ∧ ∀ (document : Document), document.Sound →
        ∀ name symbol, document.Refers name symbol →
        ∃ declaring ∈ document.root.descendants, declaring.lexeme = name.lexeme
          ∧ declaring.role = .declaration ∧ declaring.declared? = some symbol
          ∧ (declaring.kind = .identifier → document.Declares declaring symbol)
          ∧ ∃ scope ∈ document.root.descendants, scope.Holds declaring symbol
            ∧ name ∈ scope.descendants ∧ name.span.within scope.span = true := by
  refine ⟨Document.parse_sound, fun document hsound name symbol hrefers => ?_⟩
  obtain ⟨scope, hscope, hbelow, hlookup⟩ := hrefers.exists_lookup
  obtain ⟨declaring, hholds, hlexeme⟩ := hscope.exists_holds hlookup
  have hdeclaring : declaring ∈ document.root.descendants :=
    mem_descendants.2 (hscope.below hholds.below)
  have hdeclared := hscope.declared?_of_holds hholds
  -- Only an identifier resolves; the other names in declarations declare all the same.
  have hdeclares (hkind : declaring.kind = .identifier) : document.Declares declaring symbol := by
    refine ⟨hdeclaring, hholds.role, ?_⟩
    rw [resolve?, if_pos (isA_iff.2 hkind), hholds.role]
    exact hdeclared
  have hwithin : name.span.within scope.span = true := by
    rw [Span.within_iff]
    exact hscope.inside hsound hbelow
  exact ⟨declaring, hdeclaring, hlexeme, hholds.role, hdeclared, hdeclares, scope,
    mem_descendants.2 hscope, hholds, mem_descendants.2 hbelow, hwithin⟩

set_option maxRecDepth 100000 in
/-- The name behind a lambda has its declaration in the lambda, as an argument
    that the block around both holds. -/
theorem references_have_declarations_of_argument :
    ∃ name declaring scope : Place, name.span = ⟨84, 86⟩ ∧ declaring.lexeme = name.lexeme
      ∧ declaring.declared? = some (.variable ⟨72, 78⟩ "_x")
      ∧ scope.Holds declaring (.variable ⟨72, 78⟩ "_x") ∧ name ∈ scope.descendants := by
  obtain ⟨name, hname, hspan, hrole, hresolve⟩ := Document.exists_at? (.parse leakingSource)
    ⟨84, 86⟩ .simple (.variable ⟨72, 78⟩ "_x") (by decide +kernel)
  have hrefers : Document.Refers _ name _ := ⟨hname, by rw [hrole]; decide, hresolve⟩
  obtain ⟨declaring, -, hlexeme, -, hdeclared, -, scope, -, hholds, hbelow, -⟩ :=
    references_have_declarations.2 _ (Document.parse_sound leakingSource) _ _ hrefers
  exact ⟨name, declaring, scope, hspan, hlexeme, hdeclared, hholds, hbelow⟩

end SharpLint

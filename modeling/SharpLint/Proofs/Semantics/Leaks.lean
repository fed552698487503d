import SharpLint.Proofs.Lint.Regions
import SharpLint.Proofs.Semantics.Holding

/-!
# Variables of Lambdas

A variable is found from a scope either straight on, in a statement or in the
head of the scope, or as an argument or a pattern anywhere below a block, as
long as no other block is between. What is found straight on does not leak out
of a lambda, for no lambda is on the way. A lambda with an expression for a body
has no block of its own, and its arguments and patterns do leak.

## Main definitions

* `Place.Straight`: a node is reached through parts of declarations only.
* `Place.Finds`: a scope finds the declaration of a variable.

## Theorems

* `exists_finds`: A scope that declares a variable finds it.
* `Document.Has.leaks`: What a name outside a node stands for in it.
* `lambda_leaks_only_through_blocks`: Only arguments and patterns leak out of a
  lambda, and no further than the block around them.
-/

namespace SharpLint

open Place

/-- The nodes between a scope and the names of the variables that it declares
    straight on. -/
def Kind.isDeclarationPart : Kind → Bool
  | .localDeclarationStatement | .variableDeclaration | .variableDeclarator
  | .catchDeclaration => true
  | _ => false

/-- The scopes that declare variables straight on. -/
def Kind.holdsVariables : Kind → Bool
  | .block | .forStatement | .usingStatement | .foreachStatement | .catchClause => true
  | _ => false

namespace Place

variable {scope p q : Place}

/-- The node is the scope, or is reached from it through parts of declarations
    only. -/
inductive Straight (scope : Place) : Place → Prop
  | refl : Straight scope scope
  | step {p q : Place} {n : Nat} (h : Straight scope p) (hchild : p.child? n = some q)
      (hkind : q.kind.isDeclarationPart = true) : Straight scope q

theorem Straight.isBelow (h : Straight scope p) : Below scope p := by
  induction h with
  | refl => exact .refl
  | step h hchild hkind ih => exact .step ih hchild

/-- What is on the way is a part of a declaration. -/
theorem Straight.between (h : Straight scope p) (hq : Below q p) :
    Below q scope ∨ q.kind.isDeclarationPart = true := by
  induction h with
  | refl => exact .inl hq
  | step h hchild hkind ih =>
      rcases hq.last with rfl | ⟨m, parent, hm, hbelow⟩
      · exact .inr hkind
      · obtain ⟨rfl, -⟩ := child?_unique hm hchild
        exact ih hbelow

theorem Straight.upTo (h : Straight scope p) (hq : Below q p) (hscope : Below scope q) :
    Straight scope q := by
  induction h with
  | refl => exact hq.antisymm hscope ▸ .refl
  | step h hchild hkind ih =>
      rcases hq.last with rfl | ⟨m, parent, hm, hbelow⟩
      · exact .step h hchild hkind
      · obtain ⟨rfl, -⟩ := child?_unique hm hchild
        exact ih hbelow

/-- A node that is no part of a declaration and no scope with variables is not
    on the way. -/
theorem Straight.not_of_kind (h : Straight scope p) (hscope : scope.kind.holdsVariables = true)
    (hpart : p.kind.isDeclarationPart = false) (hkind : p.kind.holdsVariables = false) : False := by
  cases h with
  | refl => exact absurd (hkind.symm.trans hscope) Bool.false_ne_true
  | step h hchild hpart' => exact absurd (hpart.symm.trans hpart') Bool.false_ne_true

theorem Straight.parent {n : Nat} (h : Straight scope q) (hne : q ≠ scope)
    (hchild : p.child? n = some q) : Straight scope p ∧ q.kind.isDeclarationPart = true := by
  cases h with
  | refl => exact absurd rfl hne
  | step h hchild' hkind =>
      obtain ⟨rfl, -⟩ := child?_unique hchild hchild'
      exact ⟨h, hkind⟩

theorem IsStatementOf.holdsVariables {statement : Place} (h : statement.IsStatementOf scope) :
    scope.kind.holdsVariables = true := by
  rcases h with ⟨hkind, -⟩ | ⟨hkind | hkind, -⟩ <;> rw [hkind] <;> rfl

theorem IsStatementOf.straight {statement : Place} (h : statement.IsStatementOf scope) :
    Straight scope statement := by
  rcases h with ⟨-, hmem⟩ | ⟨-, rfl⟩
  · obtain ⟨⟨⟨n, hn⟩, -⟩, hkind⟩ := mem_childrenOf.1 hmem
    exact .step .refl hn (by rw [hkind]; rfl)
  · exact .refl

/-- The scope finds a declaration of a variable called `text`, with its name:
    straight on, or as an argument or a pattern of the block. -/
structure Finds (scope : Place) (text : String) (found name : Place) : Prop where
  kind : found.kind = .foreachStatement ∨ found.kind.declaresByName = true
  child : ∃ n, found.child? n = some name
  lexeme : name.lexeme = text
  opens : name.kind.mayOpen = true
  way : scope.kind.holdsVariables = true ∧ Straight scope found
    ∨ Below scope found ∧ found.declaresIn scope = true

theorem Finds.below {text : String} {found name : Place} (h : scope.Finds text found name) :
    Below scope found :=
  h.way.elim (fun hway => hway.2.isBelow) And.left

end Place

namespace Document

variable {document : Document} {scope found name : Place} {text : String} {s : Symbol}

/-- What names a node is no comment or directive. -/
theorem Has.name_opens (h : document.Has found) (hsound : document.Sound)
    (hname : found.name? = some name) : name.kind.mayOpen = true := by
  rw [name?, Option.or_eq_some_iff] at hname
  rcases hname with hname | ⟨-, hname⟩
  · obtain ⟨⟨n, hn⟩, hlabel⟩ := child?_of_labelled? hname
    exact (h.shaped hsound).names name.node (mem_of_child? hn) hlabel
  · rw [(child?_of_firstOf? hname).2]
    rfl

/-- A scope that declares a variable finds it. -/
theorem Has.exists_finds (hscope : document.Has scope) (hsound : document.Sound) {span : Span}
    {text' : String} (h : scope.lookup? text = some (.variable span text')) :
    ∃ found name, scope.Finds text found name ∧ span = found.span := by
  obtain ⟨name, hholds, rfl⟩ := hscope.exists_holds h
  have hnamed {found : Place} (hkind : found.kind.declaresByName = true)
      (hname : found.name? = some name)
      (hway : scope.kind.holdsVariables = true ∧ Straight scope found
        ∨ Below scope found ∧ found.declaresIn scope = true) :
      scope.Finds name.lexeme found name := by
    have hbelow := hway.elim (fun hway => hway.2.isBelow) And.left
    exact ⟨.inr hkind, child?_of_name? hname, rfl, (hscope.below hbelow).name_opens hsound hname,
      hway⟩
  generalize hsymbol : Symbol.variable span text' = symbol at hholds
  -- Fields and parameters are no variables; the other ways are straight on, but for the last.
  cases hholds with
  | field | parameter | lone =>
      exact absurd hsymbol (by simp only [reduceCtorEq, not_false_eq_true])
  | @declarator statement declaration declarator _ hstatement hdeclaration hdeclarator hname =>
      obtain ⟨⟨m, hm⟩, hdeclarationKind⟩ := child?_of_firstOf? hdeclaration
      obtain ⟨⟨⟨n, hn⟩, -⟩, hdeclaratorKind⟩ := mem_childrenOf.1 hdeclarator
      refine ⟨declarator, name, hnamed (by rw [hdeclaratorKind]; rfl) hname
        (.inl ⟨hstatement.holdsVariables, ?_⟩), (Symbol.variable.inj hsymbol).1⟩
      exact .step (.step hstatement.straight hm (by rw [hdeclarationKind]; rfl)) hn
        (by rw [hdeclaratorKind]; rfl)
  | foreach hkind hname hnameKind =>
      exact ⟨scope, name, ⟨.inl hkind, (child?_of_labelled? hname).1, rfl, by rw [hnameKind]; rfl,
        .inl ⟨by rw [hkind]; rfl, .refl⟩⟩, (Symbol.variable.inj hsymbol).1⟩
  | @caught declaration _ hkind hdeclaration hname =>
      obtain ⟨⟨n, hn⟩, hdeclarationKind⟩ := child?_of_firstOf? hdeclaration
      exact ⟨declaration, name, hnamed (by rw [hdeclarationKind]; rfl) hname
        (.inl ⟨by rw [hkind]; rfl, .step .refl hn (by rw [hdeclarationKind]; rfl)⟩),
        (Symbol.variable.inj hsymbol).1⟩
  | @designation found _ hkind hfound hfoundKind hnearest hname =>
      refine ⟨found, name, hnamed ?_ hname (.inr ⟨hfound, declaresIn_of_nearest hfoundKind hnearest⟩),
        (Symbol.variable.inj hsymbol).1⟩
      rcases hfoundKind with hfoundKind | hfoundKind <;> rw [hfoundKind] <;> rfl

/-- Two nodes of one span that both have a leaf for a child are one node. -/
theorem Has.eq_of_span_of_leaf {p q a b : Place} (hp : document.Has p) (hq : document.Has q)
    (hsound : document.Sound) (hspan : q.span = p.span) {m n : Nat} (ha : p.child? m = some a)
    (hb : q.child? n = some b) (haLeaf : a.node.children = []) (hbLeaf : b.node.children = []) :
    q = p := by
  have hinner {parent child : Place} {k : Nat} (hk : parent.child? k = some child)
      (hleaf : parent.node.children = []) : False := by
    have hmem := mem_of_child? hk
    rw [hleaf] at hmem
    exact List.not_mem_nil hmem
  have hstart : q.start = p.start := congrArg Span.start hspan
  have hstop : q.stop = p.stop := congrArg Span.stop hspan
  have hproper := hp.child_span hsound ha
  refine Classical.byContradiction fun hne => ?_
  rcases hp.nested hq hsound with hbelow | hbelow | hapart | hapart
  · -- The only child of the upper node is a leaf, so it is the lower node.
    obtain ⟨child, hchild, -, honly⟩ := hp.only_child hsound hbelow hne hspan
    rw [← honly m a ha] at hchild
    exact hinner hb (eq_of_below_leaf haLeaf hchild ▸ haLeaf)
  · obtain ⟨child, hchild, -, honly⟩ := hq.only_child hsound hbelow (Ne.symm hne) hspan.symm
    rw [← honly n b hb] at hchild
    exact hinner ha (eq_of_below_leaf hbLeaf hchild ▸ hbLeaf)
  · omega
  · omega

/-- The name of what a scope finds is a piece, and a leaf. -/
theorem Has.piece_of_finds (hscope : document.Has scope) (hsound : document.Sound)
    (h : scope.Finds text found name) (htext : text ≠ "") :
    document.Has found ∧ document.Piece name ∧ name.node.children = [] := by
  have hfound := hscope.below h.below
  obtain ⟨n, hn⟩ := h.child
  have hlexeme : name.node.lexeme ≠ "" := fun hempty => htext (h.lexeme.symm.trans hempty)
  have hopens := h.opens
  rw [Kind.mayOpen, Bool.and_eq_true, Bool.and_eq_true, Bool.not_eq_true', Bool.not_eq_true'] at hopens
  refine ⟨hfound, piece_of_token hsound (hfound.child hn) hlexeme hopens.1.1 hopens.1.2, ?_⟩
  refine (((hfound.child hn).shaped hsound).leaf hlexeme).resolve_left fun hkind => ?_
  rw [Place.kind, hkind] at hopens
  exact absurd hopens.1.1 (by decide)

/-- A name outside a node that refers to a variable declared inside it: the
    node is a part of the declaration, or the declaration is an argument or a
    pattern of a block around both. -/
theorem Has.leaks {node : Place} (hnode : document.Has node) (hsound : document.Sound)
    (hchildren : node.node.children ≠ []) (hname : document.Has name) (hout : ¬Below node name)
    (hrole : name.role ≠ .declaration) {span : Span} {text : String}
    (h : name.resolve? = some (.variable span text)) (hwithin : span.within node.span = true) :
    ∃ found scope, document.Has scope ∧ Below scope name ∧ Below scope node ∧ Below node found
      ∧ found.span = span
      ∧ (node.kind.isDeclarationPart = true ∨ found.declaresIn scope = true) := by
  have hrefers : document.Refers name (.variable span text) := ⟨mem_descendants.2 hname, hrole, h⟩
  obtain ⟨scope, hscope, hbelow, hlookup⟩ := hrefers.exists_lookup
  obtain ⟨found, declaring, hfinds, rfl⟩ := hscope.exists_finds hsound hlookup
  obtain ⟨hfound, hpiece, hleaf⟩ := hscope.piece_of_finds hsound hfinds
    ((hname.shaped hsound).named (.inl (kind_of_resolve? h)))
  obtain ⟨n, hn⟩ := hfinds.child
  have hspan := hfound.child_span hsound hn
  have hproper := hpiece.start_lt_stop
  rw [Span.within_iff] at hwithin
  change node.start ≤ found.start ∧ found.stop ≤ node.stop at hwithin
  -- The name of the declaration lies in the node, so the declaration does.
  have hnodeBelow : Below node declaring := by
    refine hpiece.below_of_meets hsound hnode (fun habove => hchildren ?_)
      ⟨show declaring.start < node.stop by omega, show node.start < declaring.stop by omega⟩
    rw [eq_of_below_leaf hleaf habove]
    exact hleaf
  have hnodeFound : Below node found := by
    rcases hnodeBelow.last with rfl | ⟨m, parent, hm, hbelow'⟩
    · exact absurd hleaf hchildren
    · obtain ⟨rfl, -⟩ := child?_unique hm hn
      exact hbelow'
  have hscopeNode : Below scope node :=
    (hfinds.below.comparable hnodeFound).resolve_right fun habove => hout (habove.trans hbelow)
  refine ⟨found, scope, hscope, hbelow, hscopeNode, hnodeFound, rfl, ?_⟩
  rcases hfinds.way with ⟨-, hway⟩ | ⟨-, hdeclares⟩
  · exact .inl ((hway.between hnodeFound).resolve_left fun habove => hout (habove.trans hbelow))
  · exact .inr hdeclares

end Document

/-- A name that declares a variable stands in what the variable is told by. -/
theorem Place.declared?_variable {name : Place} {span : Span} {text : String}
    (h : name.declared? = some (.variable span text)) :
    ∃ parent, name.parent? = some parent ∧ span = parent.span := by
  generalize hsymbol : Symbol.variable span text = symbol at h
  cases makes_of_declared? h with
  | @«variable» parent hparent => exact ⟨parent, hparent, (Symbol.variable.inj hsymbol).1⟩
  | field | parameter | lone =>
      exact absurd hsymbol (by simp only [reduceCtorEq, not_false_eq_true])

/-- A name outside a lambda stands for a variable declared in it only if that is
    an argument or a pattern, and no block is between the declaration and the
    lambda. The name is then below the block around the lambda. -/
theorem lambda_leaks_only_through_blocks (source : Text) {lambda name : Place}
    (hlambda : lambda ∈ (Document.parse source).root.descendants)
    (hkind : lambda.kind = .lambdaExpression)
    (hname : name ∈ (Document.parse source).root.descendants) (hout : name ∉ lambda.descendants)
    {span : Span} {text : String} (hresolve : name.resolve? = some (.variable span text))
    (hwithin : span.within lambda.span = true) :
    ∃ found ∈ lambda.descendants,
      (found.kind = .declarationExpression ∨ found.kind = .declarationPattern)
        ∧ found.span = span
        ∧ ∃ block, found.ancestor? (· == .block) = some block ∧ lambda ∈ block.descendants
          ∧ name ∈ block.descendants := by
  have hsound := Document.parse_sound source
  have hlambdaHas : (Document.parse source).Has lambda := mem_descendants.1 hlambda
  have hnameHas : (Document.parse source).Has name := mem_descendants.1 hname
  simp only [mem_descendants] at hout ⊢
  -- A lambda is no leaf.
  have hlexeme : lambda.node.lexeme = "" := by
    refine Classical.byContradiction fun hne => ?_
    have hsimple := (hlambdaHas.shaped hsound).composite hne
    rw [show lambda.node.kind = .lambdaExpression from hkind] at hsimple
    exact absurd hsimple (by decide)
  have hchildren : lambda.node.children ≠ [] := by
    obtain ⟨first, rest, hchildren, -⟩ := (hlambdaHas.shaped hsound).opens hlexeme
      (by rw [show lambda.node.kind = .lambdaExpression from hkind]; decide)
      (by rw [show lambda.node.kind = .lambdaExpression from hkind]; decide)
    rw [hchildren]
    exact List.cons_ne_nil first rest
  by_cases hrole : name.role = .declaration
  · -- The name of a declaration stands for it, and is not outside the lambda.
    obtain ⟨parent, hparent, rfl⟩ := declared?_variable (resolve?_of_declaration hrole hresolve)
    obtain ⟨hparentHas, n, hn⟩ := hnameHas.parent hparent
    have hpiece := Document.piece_of_identifier hsound hnameHas (kind_of_resolve? hresolve)
    have hspan := hparentHas.child_span hsound hn
    rw [Span.within_iff] at hwithin
    change lambda.start ≤ parent.start ∧ parent.stop ≤ lambda.stop at hwithin
    refine absurd (hpiece.below_of_meets hsound hlambdaHas (fun habove => ?_) ⟨?_, ?_⟩) hout
    · have hleaf := hnameHas.leaf_of_identifier hsound (kind_of_resolve? hresolve)
      exact hchildren (eq_of_below_leaf hleaf habove ▸ hleaf)
    · change name.start < lambda.stop
      omega
    · change lambda.start < name.stop
      omega
  · -- A lambda is no scope of variables, so the scope is a block above it.
    obtain ⟨found, scope, hscope, hbelow, hscopeLambda, hfound, hspan, hcases⟩ :=
      hlambdaHas.leaks hsound hchildren hnameHas hout hrole hresolve hwithin
    have hdeclares := hcases.resolve_left fun hpart => by
      rw [hkind] at hpart
      exact absurd hpart (by decide)
    obtain ⟨hfoundKind, hblock⟩ := (hlambdaHas.below hfound).of_declaresIn hscope hdeclares
    exact ⟨found, hfound, hfoundKind, hspan, scope, hblock, hscopeLambda, hbelow⟩

/-- A type in which an argument within a lambda is called like a field that is
    read behind the lambda. -/
def leakingSource : Text :=
  ("class C \x7b private int _x; C(int x) \x7b _x = x; \x7d "
    ++ "void M() \x7b F(() => G(out var _x)); H(_x); \x7d \x7d").toList

set_option maxRecDepth 100000 in
/-- The variable that a lambda without a block declares leaks out of it: the name
    behind the lambda stands for it, and not for the field. -/
theorem argument_leaks_out_of_lambda :
    ∃ lambda ∈ (Document.parse leakingSource).root.descendants, lambda.kind = .lambdaExpression
      ∧ ∃ name ∈ (Document.parse leakingSource).root.descendants, lambda.stop ≤ name.start
        ∧ name.resolve? = some (.variable ⟨72, 78⟩ "_x")
        ∧ (⟨72, 78⟩ : Span).within lambda.span = true := by
  decide +kernel

set_option maxRecDepth 100000 in
/-- What leaks is the argument, through the body of the method. -/
theorem lambda_leaks_only_through_blocks_of_argument :
    ∃ lambda name : Place, lambda.span = ⟨60, 79⟩ ∧ name.span = ⟨84, 86⟩
      ∧ ∃ found ∈ lambda.descendants,
        (found.kind = .declarationExpression ∨ found.kind = .declarationPattern)
          ∧ found.span = ⟨72, 78⟩
          ∧ ∃ block, found.ancestor? (· == .block) = some block ∧ lambda ∈ block.descendants
            ∧ name ∈ block.descendants := by
  have hlambda : ((Document.parse leakingSource).root.at? ⟨60, 79⟩ .lambdaExpression).isSome = true := by
    decide +kernel
  have hname : (((Document.parse leakingSource).root.at? ⟨84, 86⟩ .identifier).bind resolve?)
      = some (.variable ⟨72, 78⟩ "_x") := by
    decide +kernel
  obtain ⟨lambda, hlambda⟩ := Option.isSome_iff_exists.1 hlambda
  obtain ⟨name, hname, hresolve⟩ := Option.bind_eq_some_iff.1 hname
  obtain ⟨hlambdaHas, hkind, hlambdaSpan⟩ := below_of_at? hlambda
  obtain ⟨hnameHas, -, hnameSpan⟩ := below_of_at? hname
  refine ⟨lambda, name, hlambdaSpan, hnameSpan, lambda_leaks_only_through_blocks leakingSource
    (mem_descendants.2 hlambdaHas) hkind (mem_descendants.2 hnameHas) (fun hmem => ?_) hresolve ?_⟩
  · -- The name stands behind the lambda, so it is not below it.
    have hinside := Document.Has.inside hlambdaHas (Document.parse_sound _) (mem_descendants.1 hmem)
    change lambda.span.start ≤ name.span.start ∧ name.span.stop ≤ lambda.span.stop at hinside
    rw [hlambdaSpan, hnameSpan] at hinside
    exact absurd hinside.2 (by decide)
  · rw [hlambdaSpan]
    decide

end SharpLint

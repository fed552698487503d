import SharpLint.Proofs.Lint.Plan
import SharpLint.Proofs.Semantics.Scope

/-!
# References to What Is Removed

The fix for an unread field leaves no name behind that stands for a field or a
parameter whose declaration it takes out. The field is refused a fix as long as
a dead statement is not all that mentions it, a parameter goes only when all
that refers to it is dead, and whatever else is declared in a stretch that goes
is declared for that stretch alone.

## Main definitions

* `Fix.Covers`: an edit of the fix takes all of a node.
* `Symbol.isVariable`: whether a symbol is neither a field nor a parameter.

## Theorems

* `RemovalPlan.Leads.covers_of_field`: References to the field go.
* `RemovalPlan.Leads.covers_of_parameter`: References to a parameter that goes
  go too.
* `removeField_leaves_no_reference`: No reference is left to what is removed.
-/

namespace SharpLint

open Place

/-- One of the edits of the fix takes all of the node. -/
def Fix.Covers (fix : Fix) (place : Place) : Prop :=
  ∃ edit ∈ fix.edits, place.span.within edit.span = true

/-- Whether the symbol is a variable of a function. -/
def Symbol.isVariable : Symbol → Bool
  | .variable .. => true
  | _ => false

namespace Document

variable {document : Document} {name : Place} {symbol : Symbol}

theorem Declares.piece (h : document.Declares name symbol) (hsound : document.Sound) :
    document.Piece name :=
  piece_of_identifier hsound h.has (kind_of_resolve? h.2.2)

/-- A name has a text. -/
theorem Has.lexeme_ne_empty (h : document.Has name) (hsound : document.Sound)
    (hkind : name.kind = .identifier) : name.lexeme ≠ "" :=
  (h.shaped hsound).named (.inl hkind)

end Document

namespace RemovalPlan.Leads

variable {plan : RemovalPlan} {document : Document} {anchor : Span} {fix : Fix}

/-! ### Dead statements -/

/-- A dead statement stands in its constructor, and no piece is above it. -/
theorem hasDead (h : plan.Leads document anchor fix) {write : ConstructorWrites}
    (hwrite : write ∈ plan.writes) {dead : DeadStatement} (hdead : dead ∈ write.statements) :
    document.Has dead.statement ∧ Below write.constructor dead.statement
      ∧ ∀ p, document.Piece p → ¬Below p dead.statement := by
  obtain ⟨hhas, hkind⟩ := h.hasConstructor hwrite
  obtain ⟨n, body, hn, hcases, -⟩ := Document.mem_deadStatements (dead_of_mem hwrite hdead)
  have habove {p : Place} (hp : document.Piece p) : ¬Below p write.constructor :=
    hp.not_above_member (by rw [hkind]; rfl)
  -- An arrow clause is the dead statement itself; a block has it as a child.
  rcases hcases with ⟨-, harrow, heq⟩ | ⟨-, hblock, hstatement, m, hm⟩
  · rw [heq]
    exact ⟨hhas.child hn, .step .refl hn,
      fun p hp => hp.not_above_child (habove hp) hn (by rw [harrow]; rfl)⟩
  · exact ⟨(hhas.child hn).child hm, .step (.step .refl hn) hm, fun p hp =>
      hp.not_above_child (hp.not_above_child (habove hp) hn (by rw [hblock]; rfl)) hm
        (by rw [hstatement]; rfl)⟩

/-- What lies in a dead statement goes with it. -/
theorem covers_of_dead (h : plan.Leads document anchor fix) (hsound : document.Sound)
    {write : ConstructorWrites} (hwrite : write ∈ plan.writes) {dead : DeadStatement}
    (hdead : dead ∈ write.statements) {place : Place}
    (hwithin : place.span.within dead.statement.span = true) : fix.Covers place := by
  refine ⟨deadStatementEdit document write.constructor dead,
    h.mem_fix.2 (mem_edits.2 (.inl ⟨write, hwrite, dead, hdead, rfl⟩)), ?_⟩
  obtain ⟨hhas, hbelow, -⟩ := h.hasDead hwrite hdead
  have hinside := (h.hasConstructor hwrite).1.inside hsound hbelow
  obtain ⟨hbefore, hafter⟩ := statementRemoval_spec hsound hhas
  have hbeforeLe := hbefore.le
  have hafterLe := hafter.le
  rw [Span.within_iff] at hwithin ⊢
  change dead.statement.start ≤ place.start ∧ place.stop ≤ dead.statement.stop at hwithin
  change _ ≤ place.start ∧ place.stop ≤ _
  -- The edit takes the statement with blanks around it, or all from the arrow on.
  unfold deadStatementEdit
  split
  · simp only
    omega
  · simp only [Edit.remove]
    omega

/-- What is within the dead statements of a constructor goes with them. -/
theorem covers_of_within (h : plan.Leads document anchor fix) (hsound : document.Sound)
    {write : ConstructorWrites} (hwrite : write ∈ plan.writes) {place : Place}
    (hwithin : FieldUsage.within [write] place = true) : fix.Covers place := by
  rw [FieldUsage.within, List.any_cons, List.any_nil, Bool.or_false, List.any_eq_true] at hwithin
  obtain ⟨dead, hdead, hwithin⟩ := hwithin
  exact h.covers_of_dead hsound hwrite hdead hwithin

/-- A piece within a dead statement stands below it. -/
theorem below_of_within_dead (h : plan.Leads document anchor fix) (hsound : document.Sound)
    {write : ConstructorWrites} (hwrite : write ∈ plan.writes) {dead : DeadStatement}
    (hdead : dead ∈ write.statements) {p : Place} (hp : document.Piece p)
    (hwithin : p.span.within dead.statement.span = true) : Below write.constructor p := by
  obtain ⟨hhas, hbelow, hnot⟩ := h.hasDead hwrite hdead
  have hproper := hp.start_lt_stop
  rw [Span.within_iff] at hwithin
  change dead.statement.start ≤ p.start ∧ p.stop ≤ dead.statement.stop at hwithin
  exact hbelow.trans (hp.below_of_meets hsound hhas (hnot p hp)
    ⟨show p.start < dead.statement.stop by omega, show dead.statement.start < p.stop by omega⟩)

/-! ### References to the field -/

/-- All that mentions the field is within dead statements. -/
theorem exists_dead_of_mention (h : plan.Leads document anchor fix) {mention : Place}
    (hmention : mention ∈ plan.type.mentions plan.symbol) :
    ∃ write ∈ plan.writes, ∃ dead ∈ write.statements,
      mention.span.within dead.statement.span = true := by
  have hread : mention ∉ (FieldUsage.collect plan.type plan.symbol).reads :=
    h.reads ▸ List.not_mem_nil
  have hother : mention ∉ (FieldUsage.collect plan.type plan.symbol).otherWrites :=
    h.otherWrites ▸ List.not_mem_nil
  -- A mention is a read, in a dead statement or another write; the plan has no read and no other.
  rw [FieldUsage.mem_reads hmention] at hread
  rw [FieldUsage.mem_otherWrites hmention, and_iff_right hread, Classical.not_not, FieldUsage.within,
    List.any_eq_true] at hother
  obtain ⟨write, hwrite, hany⟩ := hother
  rw [List.any_eq_true] at hany
  obtain ⟨dead, hdead, hwithin⟩ := hany
  exact ⟨write, hwrite, dead, hdead, hwithin⟩

/-- A reference below the type is one of the mentions. -/
theorem mem_mentions {name type : Place} {symbol : Symbol} (hbelow : Below type name)
    (hresolve : name.resolve? = some symbol) (hname : symbol.name = name.lexeme)
    (hrole : name.role = .thisMember ∨ name.role = .simple) :
    name ∈ type.mentions symbol := by
  refine List.mem_filter.2 ⟨mem_descendants.2 hbelow, ?_⟩
  rw [isA_iff.2 (kind_of_resolve? hresolve), hname, beq_self_eq_true, hresolve]
  rcases hrole with hrole | hrole <;> rw [hrole] <;> simp only [beq_self_eq_true, Bool.and_self]

/-- The name that the plan starts from declares the field. -/
theorem role_name (h : plan.Leads document anchor fix) (hsound : document.Sound) :
    plan.name.role = .declaration := by
  obtain ⟨hname, hkind⟩ := h.hasName
  refine Classical.byContradiction fun hrole => ?_
  obtain ⟨scope, -, -, hbrings, hrole'⟩ := exists_scope hname hrole h.symbol
  obtain ⟨-, -, n, hn⟩ := h.hasDeclarator
  obtain ⟨-, -, m, hm⟩ := h.hasDeclaration
  obtain ⟨hfield, hfieldKind, k, hk⟩ := h.hasField
  have hbelow : Below plan.field plan.name := .step (.step (.step .refl hk) hm) hn
  obtain ⟨write, hwrite, dead, hdead, hwithin⟩ := h.exists_dead_of_mention
    (mem_mentions (h.hasType.2.1.trans hbelow) h.symbol hbrings.name_eq hrole')
  obtain ⟨hconstructor, hconstructorKind⟩ := h.hasConstructor hwrite
  have heq := hfield.eq_of_sealed hconstructor hsound (by rw [hfieldKind]; rfl)
    (by rw [hconstructorKind]; rfl) (by rw [hfieldKind]; rfl) (by rw [hconstructorKind]; rfl) hbelow
    (h.below_of_within_dead hsound hwrite hdead
      (Document.piece_of_identifier hsound hname hkind) hwithin)
  rw [heq, hconstructorKind] at hfieldKind
  exact absurd hfieldKind (by decide)

/-- The declarator is named by the name that the plan starts from. -/
theorem name_declarator (h : plan.Leads document anchor fix) (hsound : document.Sound) :
    plan.declarator.name? = some plan.name := by
  obtain ⟨hhas, hkind, n, hn⟩ := h.hasDeclarator
  exact name?_of_declaration hhas hn (h.role_name hsound) (by rw [hkind]; rfl)

/-- The symbol is the field of the type. -/
theorem symbol_eq (h : plan.Leads document anchor fix) (hsound : document.Sound) :
    plan.symbol = .field plan.type.span plan.name.lexeme := by
  have hdeclared := resolve?_of_declaration (h.role_name hsound) h.symbol
  have hisField := h.isField
  cases hsymbol : plan.symbol with
  | field owner text =>
      rw [hsymbol] at hdeclared
      -- The name is declared by its parents, which are those of the plan.
      obtain ⟨declarator, declaration, field, type, hdeclarator, -, hdeclaration, hfield, -, htype,
        rfl, rfl⟩ := declared?_field hdeclared
      obtain ⟨-, -, n, hn⟩ := h.hasDeclarator
      obtain ⟨-, -, m, hm⟩ := h.hasDeclaration
      obtain ⟨-, -, k, hk⟩ := h.hasField
      rw [parent?_of_child? hn, Option.some.injEq] at hdeclarator
      subst hdeclarator
      rw [parent?_of_child? hm, Option.some.injEq] at hdeclaration
      subst hdeclaration
      rw [parent?_of_child? hk, Option.some.injEq] at hfield
      subst hfield
      rw [h.type, Option.some.injEq] at htype
      rw [htype]
  | parameter owner index text =>
      rw [hsymbol] at hisField
      exact absurd hisField Bool.false_ne_true
  | «variable» declarator text =>
      rw [hsymbol] at hisField
      exact absurd hisField Bool.false_ne_true

/-- The references to the field go. -/
theorem covers_of_field (h : plan.Leads document anchor fix) (hsound : document.Sound) {name : Place}
    (hrefers : document.Refers name plan.symbol) : fix.Covers name := by
  obtain ⟨scope, hscope, hbelow, hbrings, hrole'⟩ :=
    exists_scope hrefers.has hrefers.2.1 hrefers.2.2
  obtain ⟨htype, -, htypeKind⟩ := h.hasType
  -- Two types of one span that hold a body are one type.
  have heq : scope = plan.type := by
    obtain ⟨write, hwrite⟩ := List.exists_mem_of_ne_nil _ h.writes
    obtain ⟨-, -, -, n, body, hn, hbody, -⟩ := htype.constructor (mem_writes hwrite).1
    have hname := hbrings.name_eq
    generalize hsymbol : plan.symbol = symbol at hbrings
    rw [h.symbol_eq hsound] at hsymbol
    cases hbrings with
    | @field body' hkind hbody' =>
        rw [Symbol.field.injEq] at hsymbol
        obtain ⟨⟨m, hm⟩, hbodyKind⟩ := child?_of_firstOf? hbody'
        exact Document.Has.eq_of_span_of_body hscope htype hsound hkind htypeKind hsymbol.1.symm hm
          hbodyKind hn hbody
    | parameter | lone | listed | «variable» =>
        exact absurd hsymbol (by simp only [reduceCtorEq, not_false_eq_true])
  obtain ⟨write, hwrite, dead, hdead, hwithin⟩ := h.exists_dead_of_mention
    (mem_mentions (heq ▸ hbelow) hrefers.2.2 hbrings.name_eq hrole')
  exact h.covers_of_dead hsound hwrite hdead hwithin

/-- Among the declarators of a declaration of several fields, what an edit
    takes is the declarator of the plan. -/
theorem eq_declarator (h : plan.Leads document anchor fix) (hsound : document.Sound)
    (hmany : 1 < (plan.declaration.childrenOf .variableDeclarator).length) {edit : Edit}
    (hedit : edit ∈ declaratorEdits document plan.field plan.declaration plan.declarator)
    {node : Place} {n : Nat} (hchild : plan.declaration.child? n = some node)
    (hkind : node.kind = .variableDeclarator) (hwithin : node.span.within edit.span = true) :
    node = plan.declarator := by
  have hhas := h.hasDeclaration.1
  rw [Document.declaratorEdits_of_many hmany] at hedit
  obtain ⟨span, hspan, rfl⟩ := List.mem_map.1 hedit
  have hmem : node ∈ plan.declaration.childrenOf .variableDeclarator :=
    mem_childrenOf.2 ⟨⟨⟨n, hchild⟩, by rw [hkind]; rfl⟩, hkind⟩
  obtain ⟨k, hk⟩ := List.getElem?_of_mem hmem
  obtain ⟨hproper, hpairs⟩ := hhas.spans_childrenOf hsound .variableDeclarator
  -- Only the declarator of the plan is flagged, and a removal holds no other one whole.
  have hremoved := removed_of_within (by simp only [List.length_map]) hproper hpairs hspan
    (by rw [List.getElem?_map, hk]; rfl) hwithin
  rw [List.getElem?_map, hk, Option.map_some, Option.some.injEq] at hremoved
  exact eq_of_same (hhas.child hchild) h.hasDeclarator.1 hremoved

/-- The only declarator of a declaration of fields is that of the plan. -/
theorem eq_sole_declarator (h : plan.Leads document anchor fix)
    (hsole : ¬1 < (plan.declaration.childrenOf .variableDeclarator).length) {node : Place} {n : Nat}
    (hchild : plan.declaration.child? n = some node) (hkind : node.kind = .variableDeclarator) :
    node = plan.declarator := by
  obtain ⟨-, -, m, hm⟩ := h.hasDeclaration
  have hmem : node ∈ plan.declaration.childrenOf .variableDeclarator :=
    mem_childrenOf.2 ⟨⟨⟨n, hchild⟩, by rw [hkind]; rfl⟩, hkind⟩
  have hmem' : plan.declarator ∈ plan.declaration.childrenOf .variableDeclarator :=
    mem_childrenOf.2 ⟨⟨⟨m, hm⟩, by rw [h.hasDeclarator.2.1]; rfl⟩, h.hasDeclarator.2.1⟩
  obtain ⟨only, honly⟩ := List.length_eq_one_iff.1
    (Nat.le_antisymm (Nat.le_of_not_lt hsole) (List.length_pos_of_mem hmem))
  rw [honly, List.mem_singleton] at hmem hmem'
  rw [hmem, hmem']

/-- A name that declares a field below what an edit takes is that of the plan. -/
theorem eq_name (h : plan.Leads document anchor fix) (hsound : document.Sound) {name : Place}
    {owner : Span} {text : String} (hdeclares : document.Declares name (.field owner text))
    {edit : Edit} {node : Place} (htakes : plan.Takes document edit node) (hbelow : Below node name) :
    name = plan.name := by
  obtain ⟨declarator, declaration, field, type, hparent, hkind, hdeclaration, hfield, hfieldKind, -⟩ :=
    declared?_field (resolve?_of_declaration hdeclares.2.1 hdeclares.2.2)
  obtain ⟨hdeclaratorHas, n, hn⟩ := hdeclares.has.parent hparent
  obtain ⟨hdeclarationHas, m, hm⟩ := hdeclaratorHas.parent hdeclaration
  obtain ⟨hfieldHas, k, hk⟩ := hdeclarationHas.parent hfield
  have hfieldBelow : Below field name := .step (.step (.step .refl hk) hm) hn
  -- The name stands in a field, so in no constructor, and in no field but that of the plan.
  have hnotConstructor {write : ConstructorWrites} (hwrite : write ∈ plan.writes)
      (hbelow : Below write.constructor name) : False := by
    obtain ⟨hhas, hconstructorKind⟩ := h.hasConstructor hwrite
    exact hhas.not_in_both hfieldHas hsound hconstructorKind hfieldKind hbelow hfieldBelow
  obtain ⟨hownHas, hownKind, i, hi⟩ := h.hasField
  have hownField (hbelow : Below plan.field name) : field = plan.field :=
    hfieldHas.eq_of_sealed hownHas hsound (by rw [hfieldKind]; rfl) (by rw [hownKind]; rfl)
      (by rw [hfieldKind]; rfl) (by rw [hownKind]; rfl) hfieldBelow hbelow
  have heq : declarator = plan.declarator := by
    cases htakes with
    | statement hwrite hdead hbody =>
        exact (hnotConstructor hwrite ((h.hasDead hwrite hdead).2.1.trans hbelow)).elim
    | body hwrite hdead hbody hchild hle =>
        exact (hnotConstructor hwrite (.trans (.step .refl hchild) hbelow)).elim
    | item hwrite hlist hedit hchild hwithin =>
        obtain ⟨-, -, l, hl⟩ := h.hasList hsound hwrite hlist
        exact (hnotConstructor hwrite (.trans (.step (.step .refl hl) hchild) hbelow)).elim
    | declarator hmany hedit hchild hwithin =>
        obtain rfl := hownField (Below.trans (.step (.step .refl hi) hchild) hbelow)
        obtain rfl := eq_of_children_above hk hi (.step (.step .refl hm) hn)
          (Below.trans (.step .refl hchild) hbelow)
        obtain rfl := eq_of_children_above hm hchild (.step .refl hn) hbelow
        exact h.eq_declarator hsound hmany hedit hchild hkind hwithin
    | field hsole =>
        obtain rfl := hownField hbelow
        have hholds := (hdeclarationHas.shaped hsound).holds _ (mem_of_child? hm)
        rw [show declarator.node.kind = .variableDeclarator from hkind, Kind.mayHold,
          beq_iff_eq] at hholds
        obtain rfl := hfieldHas.eq_of_kind hsound
          (by rw [h.hasDeclaration.2.1, hfieldKind]; exact List.mem_cons_self) hi hk
          (Eq.trans hholds h.hasDeclaration.2.1.symm)
        exact h.eq_sole_declarator hsole hm hkind
  have hname := name?_of_declaration hdeclaratorHas hn hdeclares.2.1 (by rw [hkind]; rfl)
  rw [heq, h.name_declarator hsound, Option.some.injEq] at hname
  exact hname.symm

/-! ### References to parameters -/

/-- A constructor with dead statements and a parameter list is told by its
    span among the scopes that declare parameters. -/
theorem eq_constructor (h : plan.Leads document anchor fix) (hsound : document.Sound)
    {write : ConstructorWrites} (hwrite : write ∈ plan.writes) {list : Place}
    (hlist : write.constructor.ownParameterList? = some list) {scope : Place}
    (hscope : document.Has scope) {text : String} {index : Nat}
    (hbrings : scope.Brings text (.parameter write.constructor.span index text)) (htext : text ≠ "") :
    scope = write.constructor := by
  obtain ⟨hhas, hkind⟩ := h.hasConstructor hwrite
  obtain ⟨-, hlistKind, n, hn⟩ := h.hasList hsound hwrite hlist
  obtain ⟨-, hstatements, hne⟩ := mem_writes hwrite
  obtain ⟨dead, hdead⟩ := List.exists_mem_of_ne_nil _ hne
  obtain ⟨m, body, hm, hcases, -⟩ := Document.mem_deadStatements (hstatements ▸ hdead)
  -- Two children, list and body, keep an only child from having the span of the constructor.
  refine hscope.eq_of_span_of_parameters hhas hsound hbrings htext rfl (by rw [hkind]; rfl) hn hm
    fun hnm => ?_
  subst hnm
  rw [hn, Option.some.injEq] at hm
  subst hm
  rcases hcases with ⟨-, hbody, -⟩ | ⟨-, hbody, -⟩ <;>
    exact absurd (hlistKind.symm.trans hbody) (by decide)

/-- The parameter of a symbol that a dead statement reads is that of the list. -/
theorem lexeme_of_fed (h : plan.Leads document anchor fix) (hsound : document.Sound)
    {write : ConstructorWrites} (hwrite : write ∈ plan.writes) {list : Place}
    (hlist : write.constructor.ownParameterList? = some list) {dead : DeadStatement}
    (hdead : dead ∈ write.statements) {right : Place} {index : Nat} {text : String}
    (hright : dead.assignment.labelled? .right = some right)
    (hresolve : right.resolve? = some (.parameter write.constructor.span index text)) :
    list.Lists text index := by
  obtain ⟨hhas, hkind⟩ := h.hasConstructor hwrite
  obtain ⟨-, hlistKind, n, hn⟩ := h.hasList hsound hwrite hlist
  obtain ⟨-, -, -, -, ⟨k, hk⟩, hassigns, -⟩ :=
    Document.mem_deadStatements (dead_of_mem hwrite hdead)
  rw [assignsField, Bool.and_eq_true, isPlainAssignment, Bool.and_eq_true, isA_iff] at hassigns
  obtain ⟨⟨j, hj⟩, -⟩ := child?_of_labelled? hright
  have hrightHas := ((h.hasDead hwrite hdead).1.child hk).child hj
  -- The right side of an assignment declares nothing.
  have hrole : right.role ≠ .declaration := by
    intro hrole
    obtain ⟨-, hparents⟩ := declared?_parameter (resolve?_of_declaration hrole hresolve)
    have hassignment := hassigns.1.1
    rcases hparents with ⟨parent, -, -, hparent, hparentKind, -⟩ | ⟨parent, hparent, hparentKind, -⟩ <;>
    · rw [parent?_of_child? hj, Option.some.injEq] at hparent
      rw [hparent, hparentKind] at hassignment
      exact absurd hassignment (by decide)
  -- So it is found in a scope, which is the constructor.
  obtain ⟨scope, hscope, -, hbrings, -⟩ := exists_scope hrightHas hrole hresolve
  have htext : text = right.lexeme := hbrings.name_eq
  rw [htext] at hbrings ⊢
  have heq := h.eq_constructor hsound hwrite hlist hscope hbrings
    (hrightHas.lexeme_ne_empty hsound (kind_of_resolve? hresolve))
  subst heq
  generalize hsymbol : Symbol.parameter write.constructor.span index right.lexeme = symbol at hbrings
  cases hbrings with
  | @parameter found index' hfirst hlists =>
      obtain ⟨⟨m, hm⟩, hfoundKind⟩ := child?_of_firstOf? hfirst
      have hsame := hhas.eq_of_kind hsound
        (by rw [hlistKind, hkind]; exact List.mem_cons_of_mem _ List.mem_cons_self) hn hm
        (hfoundKind.trans hlistKind.symm)
      rw [Symbol.parameter.injEq] at hsymbol
      rw [hsymbol.2.1, ← hsame]
      exact hlists
  | lone hlambda | listed hlambda =>
      exact absurd (hlambda.symm.trans hkind) (by decide)
  | field | «variable» =>
      exact absurd hsymbol (by simp only [reduceCtorEq, not_false_eq_true])

/-- All that refers to a parameter that goes is within dead statements. -/
theorem covers_of_removed (h : plan.Leads document anchor fix) (hsound : document.Sound)
    {write : ConstructorWrites} (hwrite : write ∈ plan.writes) {list : Place}
    (hlist : write.constructor.ownParameterList? = some list) {count index : Nat}
    (hremoved : (removedParameters write count)[index]? = some true) {parameter name : Place}
    (hparameter : list.parameters[index]? = some parameter) (hname : parameter.name? = some name)
    (hnameHas : document.Has name) (hnameKind : name.kind = .identifier) {place : Place}
    (hrefers : document.Refers place (.parameter write.constructor.span index name.lexeme)) :
    fix.Covers place := by
  -- A dead statement reads the parameter, so its symbol is that of the statement.
  obtain ⟨dead, hdead, right, text, hright, -, hresolve, hfeeds⟩ :=
    Document.removedParameters_spec hremoved
  have hlists := h.lexeme_of_fed hsound hwrite hlist hdead hright hresolve
  obtain ⟨hindex, hnamed, -⟩ := List.findIdx?_eq_some_iff_getElem.1 hlists
  rw [List.getElem?_eq_getElem hindex, Option.some.injEq] at hparameter
  rw [hparameter, isNamed, hname] at hnamed
  have htext : name.lexeme = text := beq_iff_eq.1 hnamed
  rw [htext] at hrefers
  obtain ⟨scope, hscope, hbelow, hbrings, -⟩ :=
    exists_scope hrefers.has hrefers.2.1 hrefers.2.2
  have hlexeme : text = place.lexeme := hbrings.name_eq
  rw [← hlexeme] at hbrings
  have heq := h.eq_constructor hsound hwrite hlist hscope hbrings
    (htext ▸ hnameHas.lexeme_ne_empty hsound hnameKind)
  subst heq
  rw [feedsOnlyDead, Bool.and_eq_true, List.all_eq_true] at hfeeds
  refine h.covers_of_within hsound hwrite (hfeeds.2 place (List.mem_filter.2
    ⟨mem_descendants.2 hbelow, ?_⟩))
  rw [isA_iff.2 (kind_of_resolve? hrefers.2.2), hrefers.2.2, ← hlexeme]
  simp only [Symbol.name, beq_self_eq_true, Bool.true_and, Bool.and_true, bne_iff_ne, ne_eq]
  exact hrefers.2.1

/-- A reference to a parameter goes with the node around the declaration. -/
theorem covers_of_around (h : plan.Leads document anchor fix) (hsound : document.Sound)
    {edit : Edit} (hedit : edit ∈ fix.edits) {node around : Place}
    (htakes : plan.Takes document edit node) (hbelow : Below node around) {index : Nat}
    {text : String} {place : Place}
    (hrefers : document.Refers place (.parameter around.span index text)) : fix.Covers place := by
  obtain ⟨hnode, hstart, hstop⟩ := h.takes_within hsound htakes
  obtain ⟨scope, hscope, hplace, hbrings, -⟩ :=
    exists_scope hrefers.has hrefers.2.1 hrefers.2.2
  -- A parameter symbol carries the span of its owner, which is thus the scope it resolves in.
  have hspan : scope.span = around.span := by
    generalize hsymbol : Symbol.parameter around.span index text = symbol at hbrings
    cases hbrings with
    | parameter | lone | listed =>
        rw [Symbol.parameter.injEq] at hsymbol
        exact hsymbol.1.symm
    | field | «variable» => exact absurd hsymbol (by simp only [reduceCtorEq, not_false_eq_true])
  have hinside := hnode.inside hsound hbelow
  have hinside' := Document.Has.inside hscope hsound hplace
  have hscopeStart : scope.start = around.start := congrArg Span.start hspan
  have hscopeStop : scope.stop = around.stop := congrArg Span.stop hspan
  refine ⟨edit, hedit, ?_⟩
  rw [Span.within_iff]
  change _ ≤ place.start ∧ place.stop ≤ _
  omega

/-- What an edit takes stands in a constructor behind its arrow, in a list of
    its parameters or in a declaration of fields; else it is a statement or a
    declaration of fields. -/
theorem kind_of_takes (h : plan.Leads document anchor fix) (hsound : document.Sound) {edit : Edit}
    {node : Place} (htakes : plan.Takes document edit node) :
    node.kind = .expressionStatement ∨ node.kind = .fieldDeclaration
      ∨ ∃ (parent : Place) (n : Nat), parent.child? n = some node
        ∧ (parent.kind = .constructorDeclaration ∧ node.kind ≠ .parameterList
          ∨ parent.kind = .variableDeclaration ∨ parent.kind = .parameterList) := by
  cases htakes with
  | @statement write dead hwrite hdead hbody =>
      obtain ⟨-, -, -, -, -, -, -, hkind⟩ :=
        Document.block_of_dead (dead_of_mem hwrite hdead) hbody
      exact .inl hkind
  | @body write dead n node hwrite hdead hbody hchild hle =>
      obtain ⟨hhas, hkind⟩ := h.hasConstructor hwrite
      obtain ⟨m, hm, harrow, -⟩ := Document.arrow_of_dead (dead_of_mem hwrite hdead) hbody
      refine .inr (.inr ⟨write.constructor, n, hchild, .inl ⟨hkind, fun hlist => ?_⟩⟩)
      -- A list stands before the arrow.
      have hbodySpan := hhas.child_span hsound hm
      have hchildSpan := hhas.child_span hsound hchild
      have hbefore := hhas.not_before hsound
        (by rw [harrow, hlist, hkind]; exact List.mem_cons_self) hm hchild
      rcases Nat.eq_or_lt_of_le (Nat.le_of_not_lt hbefore) with rfl | hlt
      · rw [hm, Option.some.injEq] at hchild
        rw [hchild, hlist] at harrow
        exact absurd harrow (by decide)
      · have horder := hhas.child_order hsound hchild hm hlt
        omega
  | @item write list edit n node hwrite hlist hedit hchild hwithin =>
      exact .inr (.inr ⟨list, n, hchild, .inr (.inr (h.hasList hsound hwrite hlist).2.1)⟩)
  | @declarator edit n node hmany hedit hchild hwithin =>
      exact .inr (.inr ⟨plan.declaration, n, hchild, .inr (.inl h.hasDeclaration.2.1)⟩)
  | field hsole => exact .inr (.inl h.hasField.2.1)

/-- What an edit takes below the node around a parameter is that parameter, in
    the list of a constructor. -/
theorem below_around_or_item (h : plan.Leads document anchor fix) (hsound : document.Sound)
    {edit : Edit} {node : Place} (htakes : plan.Takes document edit node)
    {around list parameter name : Place} {k m n : Nat} (hlist : document.Has list)
    (hk : around.child? k = some list) (haround : document.Has around)
    (hm : list.child? m = some parameter) (hn : parameter.child? n = some name)
    (hkind : parameter.kind = .parameter) (hname : name.kind = .identifier)
    (hleaf : name.node.children = []) (hbelow : Below node name) :
    Below node around ∨ node = parameter ∧ list.kind = .parameterList := by
  have hlistKind : list.kind = .parameterList ∨ list.kind = .bracketedParameterList := by
    have hholds := (hlist.shaped hsound).holds _ (mem_of_child? hm)
    rw [show parameter.node.kind = .parameter from hkind] at hholds
    rwa [Kind.mayHold, Bool.or_eq_true, beq_iff_eq, beq_iff_eq] at hholds
  have haroundHolds : around.kind.mayHold list.kind = true :=
    (haround.shaped hsound).holds _ (mem_of_child? hk)
  have hparent {parent : Place} {i : Nat} {child : Place} (hi : parent.child? i = some child)
      {other : Place} {j : Nat} (hj : other.child? j = some child) : other = parent :=
    (child?_unique hj hi).1
  -- What is taken and the node around are both above the name: one is above the other.
  rcases (Below.step (.step (.step .refl hk) hm) hn).comparable hbelow with habove | hbelow'
  · rcases habove.head with rfl | ⟨k', child, hk', hchild⟩
    · exact .inl .refl
    obtain rfl := eq_of_children_above hk hk' (.step (.step .refl hm) hn) (hchild.trans hbelow)
    have hcases := h.kind_of_takes hsound htakes
    rcases hchild.head with rfl | ⟨m', child, hm', hchild⟩
    · -- A list is taken with what is around it only.
      refine absurd haroundHolds ?_
      rcases hcases with heq | heq | ⟨parent, i, hi, hcases⟩
      · rcases hlistKind with hlistKind | hlistKind <;>
          exact absurd (hlistKind.symm.trans heq) (by decide)
      · rcases hlistKind with hlistKind | hlistKind <;>
          exact absurd (hlistKind.symm.trans heq) (by decide)
      · obtain rfl := hparent hk hi
        rcases hcases with ⟨heq, hnot⟩ | heq | heq
        · rw [heq, hlistKind.resolve_left hnot]
          decide
        · rcases hlistKind with hlistKind | hlistKind <;> rw [heq, hlistKind] <;> decide
        · rcases hlistKind with hlistKind | hlistKind <;> rw [heq, hlistKind] <;> decide
    obtain rfl := eq_of_children_above hm hm' (.step .refl hn) (hchild.trans hbelow)
    rcases hchild.head with rfl | ⟨n', child, hn', hchild⟩
    · rcases hcases with heq | heq | ⟨parent, i, hi, hcases⟩
      · exact absurd (hkind.symm.trans heq) (by decide)
      · exact absurd (hkind.symm.trans heq) (by decide)
      · obtain rfl := hparent hm hi
        refine .inr ⟨rfl, hlistKind.resolve_right fun hbracketed => ?_⟩
        rcases hcases with ⟨heq, -⟩ | heq | heq <;>
          exact absurd (hbracketed.symm.trans heq) (by decide)
    · obtain rfl := eq_of_children_above hn hn' .refl (hchild.trans hbelow)
      obtain rfl := eq_of_below_leaf hleaf hchild
      rcases hcases with heq | heq | ⟨parent, i, hi, hcases⟩
      · exact absurd (hname.symm.trans heq) (by decide)
      · exact absurd (hname.symm.trans heq) (by decide)
      · obtain rfl := hparent hn hi
        rcases hcases with ⟨heq, -⟩ | heq | heq <;> exact absurd (hkind.symm.trans heq) (by decide)
  · exact .inl hbelow'

/-- The references to a parameter that is declared below what an edit takes go. -/
theorem covers_of_parameter (h : plan.Leads document anchor fix) (hsound : document.Sound)
    {edit : Edit} (hedit : edit ∈ fix.edits) {node name place : Place}
    (htakes : plan.Takes document edit node) (hbelow : Below node name) {owner : Span} {index : Nat}
    {text : String} (hdeclares : document.Declares name (.parameter owner index text))
    (hrefers : document.Refers place (.parameter owner index text)) : fix.Covers place := by
  have hnameKind := kind_of_resolve? hdeclares.2.2
  have hleaf := hdeclares.has.leaf_of_identifier hsound hnameKind
  obtain ⟨rfl, hcases⟩ :=
    declared?_parameter (resolve?_of_declaration hdeclares.2.1 hdeclares.2.2)
  -- The parameter stands in a list, or it is the only one of a lambda.
  rcases hcases with ⟨parameter, list, around, hparent, hkind, hlist, haround, hindex, rfl⟩
    | ⟨lambda, hlambda, hkind, rfl⟩
  · obtain ⟨hparameterHas, n, hn⟩ := hdeclares.has.parent hparent
    obtain ⟨hlistHas, m, hm⟩ := hparameterHas.parent hlist
    obtain ⟨haroundHas, k, hk⟩ := hlistHas.parent haround
    rcases h.below_around_or_item hsound htakes hlistHas hk haroundHas hm hn hkind hnameKind hleaf
      hbelow with hbelow | ⟨rfl, hlistKind⟩
    · exact h.covers_of_around hsound hedit htakes hbelow hrefers
    · -- Only an edit of a list takes a parameter by itself.
      have hnot {kind : Kind} (heq : node.kind = kind) : kind = .parameter := heq.symm.trans hkind
      cases htakes with
      | @statement write dead hwrite hdead hbody =>
          obtain ⟨-, -, -, -, -, -, -, heq⟩ :=
            Document.block_of_dead (dead_of_mem hwrite hdead) hbody
          exact absurd (hnot heq) (by decide)
      | body hwrite hdead hbody hchild hle =>
          have heq := (child?_unique hchild hm).1
          rw [← heq, (h.hasConstructor hwrite).2] at hlistKind
          exact absurd hlistKind (by decide)
      | @item write list' edit i node hwrite hlist' hedit' hchild hwithin =>
          obtain ⟨-, -, j, hj⟩ := h.hasList hsound hwrite hlist'
          -- The list is that of the constructor, and the index of the symbol is the one that goes.
          obtain rfl := (child?_unique hchild hm).1
          obtain rfl := (child?_unique hj hk).1
          have hindex' := List.findIdx?_eq_some_iff_getElem.1 hindex
          obtain ⟨hlt, hsame, -⟩ := hindex'
          have hget := List.getElem?_eq_getElem hlt
          obtain ⟨⟨⟨l, hl⟩, -⟩, -⟩ := mem_childrenOf.1 (List.getElem_mem hlt)
          rw [eq_of_same (hlistHas.child hl) hparameterHas hsame] at hget
          exact h.covers_of_removed hsound hwrite hlist'
            (hlistHas.removed_of_parameterEdits hsound
              (Document.length_removedParameters _ _) hedit' hget hwithin) hget
            (name?_of_declaration hparameterHas hn hdeclares.2.1 (by rw [hkind]; rfl))
            hdeclares.has hnameKind hrefers
      | declarator hmany hedit' hchild hwithin =>
          have heq := (child?_unique hchild hm).1
          rw [← heq, h.hasDeclaration.2.1] at hlistKind
          exact absurd hlistKind (by decide)
      | field hsole => exact absurd (hnot h.hasField.2.1) (by decide)
  · obtain ⟨hlambdaHas, n, hn⟩ := hdeclares.has.parent hlambda
    rcases hbelow.last with rfl | ⟨n', parent, hn', hbelow'⟩
    · -- A name that a lambda declares is not what an edit takes.
      rcases h.kind_of_takes hsound htakes with heq | heq | ⟨parent, i, hi, hcases⟩
      · exact absurd (hnameKind.symm.trans heq) (by decide)
      · exact absurd (hnameKind.symm.trans heq) (by decide)
      · obtain rfl := (child?_unique hi hn).1
        rcases hcases with ⟨heq, -⟩ | heq | heq <;> exact absurd (hkind.symm.trans heq) (by decide)
    · obtain rfl := (child?_unique hn' hn).1
      exact h.covers_of_around hsound hedit htakes hbelow' hrefers

/-- What a fix covers of a piece belongs to what an edit takes. -/
theorem exists_takes_of_covers (h : plan.Leads document anchor fix) (hsound : document.Sound)
    {p : Place} (hp : document.Piece p) (hcovers : fix.Covers p) :
    ∃ edit ∈ fix.edits, ∃ node, plan.Takes document edit node ∧ Below node p := by
  obtain ⟨edit, hedit, hwithin⟩ := hcovers
  have hproper := hp.start_lt_stop
  rw [Span.within_iff] at hwithin
  change edit.span.start ≤ p.start ∧ p.stop ≤ edit.span.stop at hwithin
  exact ⟨edit, hedit, h.exists_takes hsound hp hedit
    ⟨show p.start < edit.span.stop by omega, show edit.span.start < p.stop by omega⟩⟩

/-- The references to a field or a parameter that is declared in what goes go
    too. -/
theorem covers_of_declares (h : plan.Leads document anchor fix) (hsound : document.Sound)
    {symbol : Symbol} (hsymbol : symbol.isVariable = false) {declaring place : Place}
    (hdeclares : document.Declares declaring symbol) (hcovers : fix.Covers declaring)
    (hrefers : document.Refers place symbol) : fix.Covers place := by
  obtain ⟨edit, hedit, node, htakes, hbelow⟩ :=
    h.exists_takes_of_covers hsound (hdeclares.piece hsound) hcovers
  cases symbol with
  | field owner text =>
      -- The one field whose declaration can go is that of the plan.
      obtain rfl := h.eq_name hsound hdeclares htakes hbelow
      have heq := hdeclares.2.2
      rw [h.symbol, Option.some.injEq] at heq
      exact h.covers_of_field hsound (heq ▸ hrefers)
  | parameter owner index text =>
      exact h.covers_of_parameter hsound hedit htakes hbelow hdeclares hrefers
  | «variable» declarator text => exact absurd hsymbol.symm Bool.false_ne_true

end RemovalPlan.Leads

/-- Documents of sources are sound, and in a sound document the fix for an
    unread field that takes out the declaration of a field or a parameter takes
    out all names that stand for it. -/
theorem removeField_leaves_no_reference :
    (∀ source : Text, (Document.parse source).Sound)
      ∧ ∀ (document : Document), document.Sound → ∀ (anchor : Span) (fix : Fix),
        removeField document anchor = .ok fix →
        ∀ (symbol : Symbol), symbol.isVariable = false →
        ∀ declaring, document.Declares declaring symbol → fix.Covers declaring →
        ∀ place, document.Refers place symbol → fix.Covers place := by
  refine ⟨Document.parse_sound, fun document hsound anchor fix hfix symbol hsymbol declaring
    hdeclares hcovers place hrefers => ?_⟩
  obtain ⟨plan, h⟩ := exists_plan hfix
  exact h.covers_of_declares hsound hsymbol hdeclares hcovers hrefers

theorem eq_ok_of_toOption {ε α : Type} {result : Except ε α} {value : α}
    (h : result.toOption = some value) : result = .ok value := by
  cases result with
  | error e => exact absurd h (by simp only [Except.toOption, reduceCtorEq, not_false_eq_true])
  | ok value' => rw [Option.some.inj h]

/-- A type with a field that nothing reads, and a parameter that only feeds it. -/
def unreadSource : Text :=
  "class C \x7b private int _x; C(int x) \x7b _x = x; \x7d \x7d".toList

set_option maxRecDepth 100000 in
/-- The parameter that only feeds the unread field goes with its reference. -/
theorem removeField_leaves_no_reference_to_fed :
    ∃ fix declaring place, removeField (.parse unreadSource) ⟨22, 24⟩ = .ok fix
      ∧ (Document.parse unreadSource).Declares declaring (.parameter ⟨26, 46⟩ 0 "x")
      ∧ fix.Covers declaring
      ∧ (Document.parse unreadSource).Refers place (.parameter ⟨26, 46⟩ 0 "x")
      ∧ fix.Covers place := by
  have hedits : ((removeField (.parse unreadSource) ⟨22, 24⟩).toOption.map Fix.edits)
      = some [.remove ⟨10, 26⟩, .remove ⟨28, 33⟩, .remove ⟨37, 45⟩] := by
    decide +kernel
  obtain ⟨fix, hfix, hedits⟩ := Option.map_eq_some_iff.1 hedits
  have hfix := eq_ok_of_toOption hfix
  obtain ⟨declaring, hdeclaring, hspan, hrole, hresolve⟩ := Document.exists_at?
    (.parse unreadSource) ⟨32, 33⟩ .declaration (.parameter ⟨26, 46⟩ 0 "x") (by decide +kernel)
  obtain ⟨place, hplace, -, hrole', hresolve'⟩ := Document.exists_at?
    (.parse unreadSource) ⟨42, 43⟩ .simple (.parameter ⟨26, 46⟩ 0 "x") (by decide +kernel)
  have hcovers : fix.Covers declaring :=
    ⟨.remove ⟨28, 33⟩, by rw [hedits]; exact List.mem_cons_of_mem _ List.mem_cons_self,
      by rw [hspan]; rfl⟩
  have hdeclares : Document.Declares _ declaring _ := ⟨hdeclaring, hrole, hresolve⟩
  have hrefers : Document.Refers _ place _ := ⟨hplace, by rw [hrole']; decide, hresolve'⟩
  exact ⟨fix, declaring, place, hfix, hdeclares, hcovers, hrefers,
    removeField_leaves_no_reference.2 _ (Document.parse_sound _) _ _ hfix _ rfl _ hdeclares hcovers
      _ hrefers⟩

end SharpLint

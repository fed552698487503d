import SharpLint.Proofs.Lint.References
import SharpLint.Proofs.Semantics.Leaks

/-!
# What a Removal Loses

A statement is dead by the target of its own assignment, whatever else its right
side does. So the fix for an unread field may take out an assignment to another
symbol, or the declaration of a variable that is used elsewhere, but only from
inside an expression: a statement that assigns another symbol stays, and a
variable that is lost is an argument or a pattern, which its block declares
though it stands deep inside a statement.

## Theorems

* `Document.Refers.exists_finds`: A reference to a variable finds the node
  around the name that declares it.
* `RemovalPlan.Leads.lost_variable`: A variable that is lost is an argument or a
  pattern.
* `RemovalPlan.Leads.keeps_other`: Statements that assign other symbols stay.
* `removeField_loses_only_nested`: Nothing else is lost.
-/

namespace SharpLint

open Place

/-- A scope around a reference to a variable finds the node around each name
    that declares the variable. -/
theorem Document.Refers.exists_finds {document : Document} (hsound : document.Sound)
    {declaring place : Place} {span : Span} {text : String}
    (hrefers : document.Refers place (.variable span text))
    (hdeclares : document.Declares declaring (.variable span text)) :
    ∃ scope found name n, document.Has scope ∧ Below scope place
      ∧ scope.Finds place.lexeme found name ∧ found.child? n = some declaring
      ∧ found.span = span := by
  obtain ⟨parent, hparent, rfl⟩ :=
    declared?_variable (resolve?_of_declaration hdeclares.2.1 hdeclares.2.2)
  obtain ⟨hparentHas, n, hn⟩ := hdeclares.has.parent hparent
  obtain ⟨scope, hscope, hbelow, hlookup⟩ := hrefers.exists_lookup
  obtain ⟨found, name, hfinds, hspan⟩ := hscope.exists_finds hsound hlookup
  obtain ⟨hfound, -, hleaf⟩ := hscope.piece_of_finds hsound hfinds
    ((hrefers.has.shaped hsound).named (.inl (kind_of_resolve? hrefers.2.2)))
  obtain ⟨m, hm⟩ := hfinds.child
  -- Two nodes of one span, each above a name: neither is nested in the other.
  have heq : found = parent := hparentHas.eq_of_span_of_leaf hfound hsound hspan.symm hn hm
    (hdeclares.has.leaf_of_identifier hsound (kind_of_resolve? hdeclares.2.2)) hleaf
  subst heq
  exact ⟨scope, found, name, n, hscope, hbelow, hfinds, hn, rfl⟩

/-- The name that an assignment to a symbol assigns stands below it. -/
theorem exists_target {assignment : Place} {symbol : Symbol}
    (h : assignment.assignsField symbol = true) :
    ∃ left target, assignment.labelled? .left = some left ∧ left.targetName? = some target
      ∧ target.resolve? = some symbol ∧ Below assignment target := by
  obtain ⟨-, target, htarget, hresolve⟩ := assignsField_iff.1 h
  obtain ⟨left, hleft, hname⟩ := Option.bind_eq_some_iff.1 htarget
  exact ⟨left, target, hleft, hname, hresolve, below_of_targetName? hleft hname⟩

/-- An assignment assigns one symbol only. -/
theorem eq_of_assignsField {assignment : Place} {s s' : Symbol}
    (h : assignment.assignsField s = true) (h' : assignment.assignsField s' = true) : s = s' := by
  obtain ⟨left, target, hleft, htarget, hresolve, -⟩ := exists_target h
  obtain ⟨left', target', hleft', htarget', hresolve', -⟩ := exists_target h'
  rw [hleft, Option.some.injEq] at hleft'
  subst hleft'
  rw [htarget, Option.some.injEq] at htarget'
  subst htarget'
  rw [hresolve, Option.some.injEq] at hresolve'
  exact hresolve'

/-- A statement is dead for one symbol only. -/
theorem eq_of_dead {constructor other : Place} {s s' : Symbol} {dead dead' : DeadStatement}
    (h : dead ∈ deadStatements constructor s) (h' : dead' ∈ deadStatements other s')
    (heq : dead'.statement = dead.statement) : s = s' := by
  obtain ⟨-, -, -, -, -, hassigns, -, hcontent⟩ := Document.mem_deadStatements h
  obtain ⟨-, -, -, -, -, hassigns', -, hcontent'⟩ := Document.mem_deadStatements h'
  rw [heq, hcontent, Option.some.injEq] at hcontent'
  rw [← hcontent'] at hassigns'
  exact eq_of_assignsField hassigns hassigns'

/-- Two dead statements of a constructor are one, if one of them is its body or
    both are above one node. -/
theorem statement_eq_of_dead {constructor p : Place} {s s' : Symbol} {dead dead' : DeadStatement}
    (h : dead ∈ deadStatements constructor s) (h' : dead' ∈ deadStatements constructor s')
    (habove : dead'.isBody = true ∨ Below dead.statement p ∧ Below dead'.statement p) :
    dead'.statement = dead.statement := by
  obtain ⟨-, body, -, hcases, -, -, hbody, -⟩ := Document.mem_deadStatements h
  obtain ⟨-, body', -, hcases', -, -, hbody', -⟩ := Document.mem_deadStatements h'
  rw [hbody, Option.some.injEq] at hbody'
  subst hbody'
  rcases hcases with ⟨-, harrow, heq⟩ | ⟨-, hblock, -, m, hm⟩
  · rcases hcases' with ⟨-, -, heq'⟩ | ⟨-, hblock, -⟩
    · rw [heq, heq']
    · exact absurd (harrow.symm.trans hblock) (by decide)
  · rcases hcases' with ⟨-, harrow, -⟩ | ⟨hisBody, -, -, m', hm'⟩
    · exact absurd (harrow.symm.trans hblock) (by decide)
    · obtain ⟨hbelow, hbelow'⟩ := habove.resolve_left fun htrue => by
        rw [hisBody] at htrue
        exact Bool.false_ne_true htrue
      exact (eq_of_children_above hm hm' hbelow hbelow').symm

namespace RemovalPlan.Leads

variable {plan : RemovalPlan} {document : Document} {anchor : Span} {fix : Fix}

/-- What stands below a node that an edit takes is covered. -/
theorem covers_of_below (h : plan.Leads document anchor fix) (hsound : document.Sound) {edit : Edit}
    (hedit : edit ∈ fix.edits) {node p : Place} (htakes : plan.Takes document edit node)
    (hbelow : Below node p) : fix.Covers p := by
  obtain ⟨hnode, hstart, hstop⟩ := h.takes_within hsound htakes
  have hinside := hnode.inside hsound hbelow
  refine ⟨edit, hedit, ?_⟩
  rw [Span.within_iff]
  change _ ≤ p.start ∧ p.stop ≤ _
  omega

/-- No scope finds a variable straight on through what an edit takes. -/
theorem not_straight (h : plan.Leads document anchor fix) (hsound : document.Sound) {edit : Edit}
    {node scope : Place} (htakes : plan.Takes document edit node)
    (hscope : scope.kind.holdsVariables = true) (hway : Straight scope node) (hne : node ≠ scope) :
    False := by
  have hnot {parent : Place} {kind : Kind} (hkind : parent.kind = kind)
      (hpart : kind.isDeclarationPart = false) (hholds : kind.holdsVariables = false)
      (hparent : Straight scope parent) : False :=
    hparent.not_of_kind hscope (hkind ▸ hpart) (hkind ▸ hholds)
  -- What an edit takes, or its parent, is no part of a declaration, so the way ends there.
  cases htakes with
  | @statement write dead hwrite hdead hbody =>
      obtain ⟨-, -, -, -, -, -, -, hkind⟩ :=
        Document.block_of_dead (dead_of_mem hwrite hdead) hbody
      exact hnot hkind rfl rfl hway
  | body hwrite hdead hbody hchild hle =>
      exact hnot (h.hasConstructor hwrite).2 rfl rfl (hway.parent hne hchild).1
  | item hwrite hlist hedit hchild hwithin =>
      exact hnot (h.hasList hsound hwrite hlist).2.1 rfl rfl (hway.parent hne hchild).1
  | declarator hmany hedit hchild hwithin =>
      obtain ⟨n, hn⟩ := h.hasField.2.2
      have hdeclaration := (hway.parent hne hchild).1
      refine hnot h.hasField.2.1 rfl rfl (hdeclaration.parent (fun heq => ?_) hn).1
      rw [← heq, h.hasDeclaration.2.1] at hscope
      exact absurd hscope (by decide)
  | field hsole => exact hnot h.hasField.2.1 rfl rfl hway

/-- A variable that is declared in what goes, and referred to in what stays, is
    an argument or a pattern, and the block that declares it stays. -/
theorem lost_variable (h : plan.Leads document anchor fix) (hsound : document.Sound)
    {declaring place : Place} {span : Span} {text : String}
    (hdeclares : document.Declares declaring (.variable span text)) (hcovers : fix.Covers declaring)
    (hrefers : document.Refers place (.variable span text)) (hkept : ¬fix.Covers place) :
    ∃ found n, found.child? n = some declaring
      ∧ (found.kind = .declarationExpression ∨ found.kind = .declarationPattern)
      ∧ found.span = span ∧ fix.Covers found
      ∧ ∃ block, found.ancestor? (· == .block) = some block ∧ Below block place := by
  obtain ⟨edit, hedit, node, htakes, hbelow⟩ :=
    h.exists_takes_of_covers hsound (hdeclares.piece hsound) hcovers
  obtain ⟨scope, found, name, n, hscope, hplace, hfinds, hn, hspan⟩ :=
    hrefers.exists_finds hsound hdeclares
  have hfound := hscope.below hfinds.below
  -- What is taken is more than the name, so the whole declaration is.
  have hnodeFound : Below node found := by
    rcases hbelow.last with rfl | ⟨m, parent, hm, hbelow'⟩
    · have hname := kind_of_resolve? hdeclares.2.2
      refine absurd hfinds.kind ?_
      rcases h.kind_of_takes hsound htakes with heq | heq | ⟨parent, i, hi, hcases⟩
      · exact absurd (hname.symm.trans heq) (by decide)
      · exact absurd (hname.symm.trans heq) (by decide)
      · obtain ⟨rfl, -⟩ := child?_unique hi hn
        rcases hcases with ⟨hkind, -⟩ | hkind | hkind <;> rw [hkind] <;> decide
    · obtain ⟨rfl, -⟩ := child?_unique hm hn
      exact hbelow'
  have hnot : ¬Below node scope := fun habove =>
    hkept (h.covers_of_below hsound hedit htakes (habove.trans hplace))
  have hscopeNode : Below scope node := (hfinds.below.comparable hnodeFound).resolve_right hnot
  rcases hfinds.way with ⟨hholds, hway⟩ | ⟨-, hdeclaresIn⟩
  · exact (h.not_straight hsound htakes hholds (hway.upTo hnodeFound hscopeNode)
      fun heq => hnot (heq ▸ .refl)).elim
  · obtain ⟨hkind, hblock⟩ := hfound.of_declaresIn hscope hdeclaresIn
    exact ⟨found, n, hn, hkind, hspan, h.covers_of_below hsound hedit htakes hnodeFound, scope, hblock,
      hplace⟩

/-- A statement that assigns another symbol than the field is not covered. -/
theorem keeps_other (h : plan.Leads document anchor fix) (hsound : document.Sound)
    {constructor : Place} (hconstructor : document.Has constructor)
    (hkind : constructor.kind = .constructorDeclaration) {symbol : Symbol} (hne : symbol ≠ plan.symbol)
    {dead : DeadStatement} (hdead : dead ∈ deadStatements constructor symbol) :
    ¬fix.Covers dead.statement := by
  intro hcovers
  obtain ⟨n, body, hn, hcases, ⟨k, hk⟩, hassigns, -⟩ := Document.mem_deadStatements hdead
  have hbelowBody : Below body dead.statement := by
    rcases hcases with ⟨-, -, heq⟩ | ⟨-, -, -, m, hm⟩
    · exact heq ▸ .refl
    · exact .step .refl hm
  obtain ⟨-, target, -, -, hresolve, hbelow⟩ := exists_target hassigns
  have htargetStatement : Below dead.statement target := .trans (.step .refl hk) hbelow
  have htargetBody := hbelowBody.trans htargetStatement
  have htargetConstructor : Below constructor target := .trans (.step .refl hn) htargetBody
  have htargetHas := hconstructor.below htargetConstructor
  have hcoversTarget : fix.Covers target := by
    obtain ⟨edit, hedit, hwithin⟩ := hcovers
    have hinside := ((hconstructor.child hn).below hbelowBody).inside hsound htargetStatement
    refine ⟨edit, hedit, ?_⟩
    rw [Span.within_iff] at hwithin ⊢
    change _ ≤ dead.statement.start ∧ dead.statement.stop ≤ _ at hwithin
    change _ ≤ target.start ∧ target.stop ≤ _
    omega
  obtain ⟨edit, -, node, htakes, hnode⟩ := h.exists_takes_of_covers hsound
    (Document.piece_of_identifier hsound htargetHas (kind_of_resolve? hresolve)) hcoversTarget
  -- The target stands in one constructor, and in no declaration of fields.
  have hsame {write : ConstructorWrites} (hwrite : write ∈ plan.writes)
      (hbelow : Below write.constructor target) : write.constructor = constructor := by
    obtain ⟨hhas, hwriteKind⟩ := h.hasConstructor hwrite
    exact hhas.eq_of_sealed hconstructor hsound (by rw [hwriteKind]; rfl) (by rw [hkind]; rfl)
      (by rw [hwriteKind]; rfl) (by rw [hkind]; rfl) hbelow htargetConstructor
  have hnotField : ¬Below plan.field target :=
    hconstructor.not_in_both h.hasField.1 hsound hkind h.hasField.2.1 htargetConstructor
  have hsymbol {write : ConstructorWrites} (hwrite : write ∈ plan.writes) {other : DeadStatement}
      (hother : other ∈ write.statements) (heq : write.constructor = constructor)
      (habove : other.isBody = true ∨ Below dead.statement target ∧ Below other.statement target) :
      False := by
    have hotherDead := dead_of_mem hwrite hother
    exact hne (eq_of_dead hdead hotherDead (statement_eq_of_dead hdead (heq ▸ hotherDead) habove))
  cases htakes with
  | @statement write other hwrite hother hisBody =>
      have hbelowOther := (h.hasDead hwrite hother).2.1
      exact hsymbol hwrite hother (hsame hwrite (hbelowOther.trans hnode))
        (.inr ⟨htargetStatement, hnode⟩)
  | @body write other i node hwrite hother hisBody hchild hle =>
      exact hsymbol hwrite hother (hsame hwrite (.trans (.step .refl hchild) hnode)) (.inl hisBody)
  | @item write list edit i node hwrite hlist hedit hchild hwithin =>
      obtain ⟨-, hlistKind, j, hj⟩ := h.hasList hsound hwrite hlist
      have hlistBelow : Below list target := .trans (.step .refl hchild) hnode
      have heq := hsame hwrite (.trans (.step .refl hj) hlistBelow)
      rw [heq] at hj
      rw [eq_of_children_above hj hn hlistBelow htargetBody] at hlistKind
      rcases hcases with ⟨-, hbodyKind, -⟩ | ⟨-, hbodyKind, -⟩ <;>
        exact absurd (hlistKind.symm.trans hbodyKind) (by decide)
  | declarator hmany hedit hchild hwithin =>
      obtain ⟨i, hi⟩ := h.hasField.2.2
      exact hnotField (.trans (.step (.step .refl hi) hchild) hnode)
  | field hsole => exact hnotField hnode

end RemovalPlan.Leads

/-- What the fix for an unread field takes out, though it is used in what stays,
    stands inside an expression. A symbol that is declared in what goes and
    referred to in what stays is a variable of an argument or a pattern, of the
    nearest block around it. A statement of a constructor that does nothing but
    assign another symbol stays. -/
theorem removeField_loses_only_nested (source : Text) {anchor : Span} {fix : Fix}
    (hfix : removeField (.parse source) anchor = .ok fix) (symbol : Symbol) :
    (∀ declaring, (Document.parse source).Declares declaring symbol → fix.Covers declaring →
      ∀ place, (Document.parse source).Refers place symbol → ¬fix.Covers place →
      ∃ found n, found.child? n = some declaring
        ∧ (found.kind = .declarationExpression ∨ found.kind = .declarationPattern)
        ∧ fix.Covers found ∧ symbol = .variable found.span place.lexeme
        ∧ ∃ block, found.ancestor? (· == .block) = some block ∧ place ∈ block.descendants)
      ∧ ((∀ name, (Document.parse source).root.at? anchor .identifier = some name →
          name.resolve? ≠ some symbol) →
        ∀ constructor ∈ (Document.parse source).root.descendants,
          constructor.kind = .constructorDeclaration →
          ∀ dead ∈ deadStatements constructor symbol, ¬fix.Covers dead.statement) := by
  have hsound := Document.parse_sound source
  obtain ⟨plan, h⟩ := exists_plan hfix
  constructor
  · intro declaring hdeclares hcovers place hrefers hkept
    -- The references to fields and parameters go with them, so the symbol is a variable.
    cases symbol with
    | «variable» span text =>
        obtain ⟨found, n, hn, hkind, hspan, hcoversFound, block, hblock, hbelow⟩ :=
          h.lost_variable hsound hdeclares hcovers hrefers hkept
        obtain ⟨scope, -, -, hbrings, -⟩ := exists_scope hrefers.has hrefers.2.1 hrefers.2.2
        refine ⟨found, n, hn, hkind, hcoversFound, ?_, block, hblock, mem_descendants.2 hbelow⟩
        rw [hspan, ← hbrings.name_eq]
        rfl
    | field owner text =>
        exact absurd (h.covers_of_declares hsound rfl hdeclares hcovers hrefers) hkept
    | parameter owner index text =>
        exact absurd (h.covers_of_declares hsound rfl hdeclares hcovers hrefers) hkept
  · intro hother constructor hconstructor hkind dead hdead
    refine h.keeps_other hsound (mem_descendants.1 hconstructor) hkind (fun heq => ?_) hdead
    exact hother plan.name h.name (heq ▸ h.symbol)

/-- A type in which a field that nothing reads is assigned with another. -/
def nestedAssignmentSource : Text :=
  ("class C \x7b private int _a; private int _b; C(int x) \x7b _a = _b = x; \x7d "
    ++ "int B => _b; \x7d").toList

set_option maxRecDepth 100000 in
/-- An assignment to another field goes with the statement that it is nested in,
    though that field is read in what stays. -/
theorem nested_assignment_is_lost :
    (removeField (.parse nestedAssignmentSource) ⟨22, 24⟩).toOption.map Fix.edits
        = some [.remove ⟨10, 26⟩, .remove ⟨53, 66⟩]
      ∧ (∃ assignment ∈ (Document.parse nestedAssignmentSource).root.descendants,
        assignment.assignsField (.field ⟨0, 82⟩ "_b") = true
          ∧ assignment.span.within ⟨53, 66⟩ = true)
      ∧ ∃ place ∈ (Document.parse nestedAssignmentSource).root.descendants, place.span = ⟨77, 79⟩
        ∧ place.role = .simple ∧ place.resolve? = some (.field ⟨0, 82⟩ "_b") := by
  decide +kernel

/-- A type in which a statement that assigns a field that nothing reads declares
    a variable. -/
def nestedVariableSource : Text :=
  "class C \x7b int _a; C() \x7b _a = F(out var y); G(y); \x7d \x7d".toList

set_option maxRecDepth 100000 in
/-- The variable is lost with the statement, and it is an argument. -/
theorem removeField_loses_only_nested_variable :
    ∃ fix declaring place, removeField (.parse nestedVariableSource) ⟨14, 16⟩ = .ok fix
      ∧ (Document.parse nestedVariableSource).Declares declaring (.variable ⟨35, 40⟩ "y")
      ∧ fix.Covers declaring
      ∧ (Document.parse nestedVariableSource).Refers place (.variable ⟨35, 40⟩ "y")
      ∧ ¬fix.Covers place
      ∧ ∃ found n, found.child? n = some declaring
        ∧ (found.kind = .declarationExpression ∨ found.kind = .declarationPattern)
        ∧ fix.Covers found ∧ Symbol.variable ⟨35, 40⟩ "y" = .variable found.span place.lexeme
        ∧ ∃ block, found.ancestor? (· == .block) = some block ∧ place ∈ block.descendants := by
  have hedits : ((removeField (.parse nestedVariableSource) ⟨14, 16⟩).toOption.map Fix.edits)
      = some [.remove ⟨10, 18⟩, .remove ⟨24, 43⟩] := by
    decide +kernel
  obtain ⟨fix, hfix, hedits⟩ := Option.map_eq_some_iff.1 hedits
  have hfix := eq_ok_of_toOption hfix
  obtain ⟨declaring, hdeclaring, hspan, hrole, hresolve⟩ := Document.exists_at?
    (.parse nestedVariableSource) ⟨39, 40⟩ .declaration (.variable ⟨35, 40⟩ "y") (by decide +kernel)
  obtain ⟨place, hplace, hspan', hrole', hresolve'⟩ := Document.exists_at?
    (.parse nestedVariableSource) ⟨45, 46⟩ .simple (.variable ⟨35, 40⟩ "y") (by decide +kernel)
  -- The declaration goes with the second edit, and neither edit reaches the use behind it.
  have hcovers : fix.Covers declaring :=
    ⟨.remove ⟨24, 43⟩, by rw [hedits]; exact List.mem_cons_of_mem _ List.mem_cons_self,
      by rw [hspan]; rfl⟩
  have hkept : ¬fix.Covers place := by
    rintro ⟨edit, hedit, hwithin⟩
    rw [hedits, List.mem_cons, List.mem_singleton] at hedit
    rw [hspan'] at hwithin
    rcases hedit with rfl | rfl <;> exact absurd hwithin (by decide)
  have hdeclares : Document.Declares _ declaring _ := ⟨hdeclaring, hrole, hresolve⟩
  have hrefers : Document.Refers _ place _ := ⟨hplace, by rw [hrole']; decide, hresolve'⟩
  exact ⟨fix, declaring, place, hfix, hdeclares, hcovers, hrefers, hkept,
    (removeField_loses_only_nested _ hfix _).1 _ hdeclares hcovers _ hrefers hkept⟩

end SharpLint

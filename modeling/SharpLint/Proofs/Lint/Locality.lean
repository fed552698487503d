import Mathlib.Data.List.Basic
import SharpLint.Lint.UnreadField
import SharpLint.Proofs.Lint.Fields
import SharpLint.Proofs.Semantics.Transplant

/-!
# Findings on a Type Are Local

Whether a field is unread is found out within its type. A name in the type that
is called like the field may be looked up through all its ancestors, but the
type itself declares the field, so the search ends there at the latest. Hence
the usage of a field, and with it what is reported, depends on the tree of the
type alone, and two documents with the same tree of a type somewhere in them
get the same findings on it.

## Main definitions

* `FieldUsage.under`: a usage carried over to other surroundings.
* `Document.reported`: the declarators of a type that are reported.

## Theorems

* `FieldUsage.collect_under`: The usage of a field is that in the tree of its
  type.
* `findings_are_local`: Documents with the same type have the same findings on
  it.
-/

namespace SharpLint

open Place

/-- The dead statement, in other surroundings. -/
def DeadStatement.under (dead : DeadStatement) (top : Place) (k : Nat) : DeadStatement :=
  ⟨dead.statement.under top k, dead.assignment.under top k, dead.isBody⟩

/-- The dead statements of a constructor, in other surroundings. -/
def ConstructorWrites.under (write : ConstructorWrites) (top : Place) (k : Nat) :
    ConstructorWrites :=
  ⟨write.constructor.under top k, write.statements.map (·.under top k)⟩

/-- The usage, in other surroundings. -/
def FieldUsage.under (usage : FieldUsage) (top : Place) (k : Nat) : FieldUsage :=
  ⟨usage.constructorWrites.map (·.under top k), usage.reads.map (·.under top k),
    usage.otherWrites.map (·.under top k)⟩

/-- The declarators of a type that the rule reports. -/
def Document.reported (document : Document) (type : Place) : List Place :=
  type.fieldDeclarators.filter fun declarator =>
    (unreadFieldIssue? document type declarator).isSome

/-- The issues of the rule are those of the reported declarators of all types. -/
theorem unreadFieldIssues_eq (document : Document) :
    unreadFieldIssues document
      = (document.root.descendants.filter (·.kind.isTypeDeclaration)).flatMap fun type =>
        (document.reported type).filterMap (unreadFieldIssue? document type) := by
  refine congrArg (List.flatMap · _) (funext fun type => ?_)
  rw [Document.reported, List.filterMap_filter]
  refine congrArg (List.filterMap · _) (funext fun declarator => ?_)
  cases unreadFieldIssue? document type declarator with
  | none => rfl
  | some issue => rfl

namespace Place

variable {p q : Place} {top : Place} {k : Nat}

/-! ### Assignments -/

theorem above_ne_nil_of_labelled? {label : Label} (h : p.labelled? label = some q) :
    q.above ≠ [] := by
  obtain ⟨⟨n, hn⟩, -⟩ := child?_of_labelled? h
  rw [(child?_eq_some.1 hn).2]
  exact List.cons_ne_nil _ _

theorem operator?_under : (p.under top k).operator? = p.operator?.map (·.under top k) := by
  rw [operator?, operator?, labelled?_under, labelled?_under]
  cases p.labelled? .operator with
  | some operator => rfl
  | none =>
      cases hleft : p.labelled? .left with
      | none => rfl
      | some left => exact next?_under (above_ne_nil_of_labelled? hleft)

theorem isPlainAssignment_under : (p.under top k).isPlainAssignment = p.isPlainAssignment := by
  rw [isPlainAssignment, isPlainAssignment, isA_under, operator?_under]
  cases p.operator? with
  | none => rfl
  | some operator => simp only [Option.map_some, under_lexeme]

theorem assignsTo_under : (p.under top k).assignsTo (q.under top k) = p.assignsTo q := by
  rw [assignsTo, assignsTo, isPlainAssignment_under, plays_under]

theorem targetName?_under : (p.under top k).targetName? = p.targetName?.map (·.under top k) := by
  simp only [targetName?, isA_under, labelled?_under]
  split
  · rfl
  · split
    · rfl
    · rfl

theorem content?_under : (p.under top k).content? = p.content?.map (·.under top k) := by
  simp only [content?, namedChildren_under, List.find?_map, Function.comp_def, isA_under]

/-- The target of an assignment declares nothing. -/
theorem role_of_target {tree : Tree} {assignment left name : Place}
    (hassignment : Below (root tree) assignment) (hkind : assignment.kind = .assignmentExpression)
    (hleft : assignment.labelled? .left = some left) (hname : left.targetName? = some name) :
    Below (root tree) name ∧ name.role ≠ .declaration := by
  obtain ⟨⟨n, hn⟩, hlabel⟩ := child?_of_labelled? hleft
  have hleftBelow : Below (root tree) left := .step hassignment hn
  rcases targetName?_eq_some_iff.1 hname with ⟨-, rfl⟩ | ⟨hmember, hlabelled⟩
  · refine ⟨hleftBelow, fun hrole => ?_⟩
    -- On the left of an assignment a name is not its name.
    have hnot (kind : Kind) (h : Kind.assignmentExpression ≠ kind) : assignment.isA kind = false := by
      rw [← Bool.not_eq_true, isA_iff, hkind]
      exact h
    have hplays : left.plays assignment .name = false := by
      rw [← Bool.not_eq_true, plays_iff hleftBelow hassignment]
      intro hname
      have hlabel' := (child?_of_labelled? hname).2
      rw [hlabel] at hlabel'
      exact absurd hlabel' (by decide)
    rw [role, parent?_of_child? hn] at hrole
    simp only [roleIn, hnot .memberAccessExpression (by decide), hnot .foreachStatement (by decide),
      hnot .lambdaExpression (by decide), hkind, hplays, Kind.declaresByName,
      Kind.holdsNoExpression, Bool.false_and, Bool.false_eq_true, if_false] at hrole
    split at hrole
    · exact absurd hrole (by decide)
    · exact absurd hrole (by decide)
  · obtain ⟨⟨m, hm⟩, -⟩ := child?_of_labelled? hlabelled
    have hnameBelow : Below (root tree) name := .step hleftBelow hm
    refine ⟨hnameBelow, fun hrole => ?_⟩
    have hplays := (plays_iff hnameBelow hleftBelow).2 hlabelled
    rw [role, parent?_of_child? hm] at hrole
    simp only [roleIn, isA_iff.2 hmember, hplays, Bool.and_self, if_true] at hrole
    split at hrole
    · split at hrole
      · exact absurd hrole (by decide)
      · exact absurd hrole (by decide)
    · exact absurd hrole (by decide)

section Field

/-! ### Mentions of a field of the root -/

variable {tree : Tree} {text : String} {field : Symbol}

theorem assignsField_under (hkind : tree.kind.isTypeDeclaration = true)
    (hfield : (root tree).lookupField? text = some field) (hp : Below (root tree) p) :
    (p.under top k).assignsField (field.shift k) = p.assignsField field := by
  rw [assignsField, assignsField, isPlainAssignment_under, labelled?_under]
  by_cases hplain : p.isPlainAssignment = true
  · have hpKind : p.kind = .assignmentExpression := by
      rw [isPlainAssignment, Bool.and_eq_true, isA_iff] at hplain
      exact hplain.1
    cases hleft : p.labelled? .left with
    | none => rfl
    | some left =>
        rw [Option.map_some, Option.bind_some, Option.bind_some, targetName?_under]
        cases hname : left.targetName? with
        | none => rfl
        | some name =>
            obtain ⟨hnameBelow, hrole⟩ := role_of_target hp hpKind hleft hname
            rw [hplain, Bool.true_and, Bool.true_and, Option.map_some, Bool.eq_iff_iff, beq_iff_eq,
              beq_iff_eq]
            exact resolve?_under_eq_field hkind hnameBelow hrole hfield
  · rw [Bool.not_eq_true] at hplain
    rw [hplain, Bool.false_and, Bool.false_and]

theorem deadStatements_under (hkind : tree.kind.isTypeDeclaration = true)
    (hfield : (root tree).lookupField? text = some field) (hp : Below (root tree) p) :
    deadStatements (p.under top k) (field.shift k)
      = (deadStatements p field).map (·.under top k) := by
  rw [deadStatements, deadStatements, body?_under]
  cases hbody : p.body? with
  | none => rfl
  | some body =>
      obtain ⟨⟨n, hn⟩, -⟩ := mem_namedChildren.1 (List.mem_of_find?_eq_some hbody)
      have hbodyBelow : Below (root tree) body := .step hp hn
      -- What a body or a statement holds is below the root.
      have hcontent {place expression : Place} (hplace : Below (root tree) place)
          (h : place.content? = some expression) : Below (root tree) expression := by
        obtain ⟨⟨m, hm⟩, -⟩ := mem_namedChildren.1 (List.mem_of_find?_eq_some h)
        exact .step hplace hm
      rw [Option.map_some]
      simp only [isA_under]
      split
      · rw [content?_under]
        cases hexpression : body.content? with
        | none => rfl
        | some expression =>
            simp only [Option.map_some,
              assignsField_under hkind hfield (hcontent hbodyBelow hexpression)]
            split
            · rfl
            · rfl
      · rw [childrenOf_under, List.filterMap_map, List.map_filterMap]
        refine List.filterMap_congr fun statement hstatement => ?_
        obtain ⟨⟨⟨m, hm⟩, -⟩, -⟩ := mem_childrenOf.1 hstatement
        rw [Function.comp_apply, content?_under]
        cases hexpression : statement.content? with
        | none => rfl
        | some expression =>
            simp only [Option.map_some,
              assignsField_under hkind hfield (hcontent (.step hbodyBelow hm) hexpression)]
            split
            · rfl
            · rfl

theorem mentions_under (hkind : tree.kind.isTypeDeclaration = true)
    (hfield : (root tree).lookupField? text = some field) :
    ((root tree).under top k).mentions (field.shift k)
      = ((root tree).mentions field).map (·.under top k) := by
  have hname : (field.shift k).name = field.name := by
    cases field <;> rfl
  rw [mentions, mentions, descendants_under, List.filter_map]
  refine congrArg _ (List.filter_congr fun name hmem => ?_)
  have hbelow := mem_descendants.1 hmem
  rw [Function.comp_apply, isA_under, under_lexeme, hname]
  -- The nodes are the same, so it is left to see which of them mention the field.
  by_cases hidentifier : name.isA .identifier = true
  · have habove := above_ne_nil hbelow
      (isA_iff.1 hidentifier ▸ kind_ne_of_isTypeDeclaration hkind rfl)
    have hresolve (hrole : name.role ≠ .declaration) :
        ((name.under top k).resolve? == some (field.shift k)) = (name.resolve? == some field) := by
      rw [Bool.eq_iff_iff, beq_iff_eq, beq_iff_eq]
      exact resolve?_under_eq_field hkind hbelow hrole hfield
    rw [role_under habove]
    cases hrole : name.role with
    | declaration => rfl
    | nonExpression => rfl
    | foreignMember => rfl
    | thisMember => simp only [hresolve (by rw [hrole]; decide)]
    | simple => simp only [hresolve (by rw [hrole]; decide)]
  · rw [Bool.not_eq_true] at hidentifier
    simp only [hidentifier, Bool.false_and]

/-- A name in a type has its assignment within the type. -/
theorem writeTarget?_under (hkind : tree.kind.isTypeDeclaration = true)
    (hp : Below (root tree) p) (hpKind : p.kind = .identifier) :
    (p.under top k).writeTarget? = p.writeTarget?.map (·.under top k) := by
  have habove := above_ne_nil hp (hpKind ▸ kind_ne_of_isTypeDeclaration hkind rfl)
  rw [writeTarget?, writeTarget?, parent?_under habove]
  cases hparent : p.parent? with
  | none => rfl
  | some parent =>
      simp only [Option.map_some, isA_under, plays_under, assignsTo_under]
      split
      -- Behind `this` the assignment is one step further up, and still within the type.
      · next hmember =>
        rw [Bool.and_eq_true, isA_iff] at hmember
        have hparentBelow : Below (root tree) parent := by
          rcases hp.last with rfl | ⟨n, parent', hn, hbelow⟩
          · exact absurd rfl habove
          · rw [parent?_of_child? hn, Option.some.injEq] at hparent
            exact hparent ▸ hbelow
        rw [parent?_under (above_ne_nil hparentBelow
          (hmember.1 ▸ kind_ne_of_isTypeDeclaration hkind rfl))]
        cases parent.parent? with
        | none => rfl
        | some assignment =>
            simp only [Option.map_some, assignsTo_under]
            split
            · rfl
            · rfl
      · split
        · rfl
        · rfl

end Field

end Place

namespace FieldUsage

variable {tree : Tree} {text : String} {field : Symbol} {top : Place} {k : Nat}

theorem writesOf_under (hkind : tree.kind.isTypeDeclaration = true)
    (hfield : (root tree).lookupField? text = some field) :
    writesOf ((root tree).under top k) (field.shift k)
      = (writesOf (root tree) field).map (·.under top k) := by
  rw [writesOf, writesOf, constructors_under, List.filterMap_map, List.map_filterMap]
  refine List.filterMap_congr fun constructor hconstructor => ?_
  have hbelow : Below (root tree) constructor := by
    have hmember := (List.mem_filter.1 hconstructor).1
    unfold members at hmember
    split at hmember
    · next body hbody =>
      obtain ⟨⟨m, hm⟩, -⟩ := child?_of_firstOf? hbody
      obtain ⟨⟨n, hn⟩, -⟩ := mem_namedChildren.1 hmember
      exact .step (.step .refl hm) hn
    · exact absurd hmember List.not_mem_nil
  rw [Function.comp_apply, deadStatements_under hkind hfield hbelow]
  cases hdead : deadStatements constructor field with
  | nil => rfl
  | cons dead rest => simp only [List.map_cons, Option.map_some, ConstructorWrites.under]

theorem within_under (writes : List ConstructorWrites) (place : Place) :
    within (writes.map (·.under top k)) (place.under top k) = within writes place := by
  simp only [within, List.any_map, Function.comp_def, ConstructorWrites.under, DeadStatement.under,
    under_span, Span.within_shift]

/-- The usage of a field of a type is that in the tree of the type. -/
theorem collect_under (hkind : tree.kind.isTypeDeclaration = true)
    (hfield : (root tree).lookupField? text = some field) :
    collect ((root tree).under top k) (field.shift k)
      = (collect (root tree) field).under top k := by
  have htarget (ok : Bool → Bool) : (((root tree).mentions field).map (·.under top k)).filter
        (fun mention => ok mention.writeTarget?.isSome)
      = (((root tree).mentions field).filter
        fun mention => ok mention.writeTarget?.isSome).map (·.under top k) := by
    rw [List.filter_map]
    refine congrArg _ (List.filter_congr fun name hname => ?_)
    obtain ⟨hmem, hmention⟩ := List.mem_filter.1 hname
    rw [Bool.and_eq_true, Bool.and_eq_true, isA_iff] at hmention
    rw [Function.comp_apply, writeTarget?_under hkind (mem_descendants.1 hmem) hmention.1.1,
      Option.isSome_map]
  simp only [collect, under, mentions_under hkind hfield, writesOf_under hkind hfield,
    List.partition_eq_filter_filter, Function.comp_def]
  rw [htarget (fun found => found), htarget (fun found => !found), List.filter_map]
  simp only [Function.comp_def, within_under]

theorem isUnread_under (usage : FieldUsage) : (usage.under top k).isUnread = usage.isUnread := by
  simp only [isUnread, under, List.isEmpty_map]

end FieldUsage

/-! ### What is reported -/

namespace Place

variable {p declarator name : Place} {top : Place} {k : Nat} {tree : Tree}

theorem isPrivateField_under : (p.under top k).isPrivateField = p.isPrivateField := by
  rw [isPrivateField, isPrivateField, isA_under, modifiers_under]

/-- Whether a declarator of a type is reported, as told from the tree of the
    type. -/
def isReportedIn (declarator : Place) (tree : Tree) : Bool :=
  match declarator.parent?.bind parent?, declarator.name? with
  | some declaration, some name =>
    declaration.isPrivateField && name.isA .identifier
      && (FieldUsage.collect (root tree) (.field tree.span name.lexeme)).isUnread
  | _, _ => false

theorem lookupField?_of_mem {type : Place} (hdeclarator : declarator ∈ type.fieldDeclarators)
    (hname : declarator.name? = some name) :
    type.lookupField? name.lexeme = some (.field type.span name.lexeme) := by
  rw [lookupField?, if_pos]
  refine List.any_eq_true.2 ⟨declarator, hdeclarator, ?_⟩
  rw [isNamed, hname]
  exact beq_self_eq_true name.lexeme

/-- The name of a declarator stands for the field. -/
theorem resolve?_of_mem {document : Document} {type : Place} (htype : document.Has type)
    (hkind : type.kind.isTypeDeclaration = true) (hdeclarator : declarator ∈ type.fieldDeclarators)
    (hname : declarator.name? = some name) (hnameKind : name.kind = .identifier) :
    name.resolve? = some (.field type.span name.lexeme) := by
  obtain ⟨field, declaration, hdeclares⟩ := exists_declaresField htype hkind hdeclarator hname
  rw [resolve?, if_pos (isA_iff.2 hnameKind), hdeclares.parents.1]
  exact hdeclares.declared?_eq

section Surroundings

variable {document : Document} (htype : document.Has top)
  (hkind : tree.kind.isTypeDeclaration = true) (hnode : top.node = tree.shift k)
  (hdeclarator : declarator ∈ (root tree).fieldDeclarators)
include hnode

theorem isTypeDeclaration_of_shift (hkind : tree.kind.isTypeDeclaration = true) :
    top.kind.isTypeDeclaration = true := by
  rw [kind, hnode, Tree.shift_kind, hkind]

theorem field_of_shift (text : String) :
    Symbol.field top.span text = (Symbol.field tree.span text).shift k := by
  rw [Symbol.shift, span, hnode, Tree.shift_span]

include hdeclarator

theorem mem_fieldDeclarators_under : declarator.under top k ∈ top.fieldDeclarators := by
  rw [← root_under hnode, fieldDeclarators_under, root_under hnode]
  exact List.mem_map_of_mem hdeclarator

include hkind

/-- The usage of a field of a type is that in the tree of the type. -/
theorem collect_of_shift (hname : declarator.name? = some name) :
    FieldUsage.collect top (.field top.span name.lexeme)
      = (FieldUsage.collect (root tree) (.field tree.span name.lexeme)).under top k := by
  have hcollect : FieldUsage.collect ((root tree).under top k)
      ((Symbol.field tree.span name.lexeme).shift k) = _ :=
    FieldUsage.collect_under hkind (lookupField?_of_mem hdeclarator hname)
  rw [root_under hnode] at hcollect
  rw [field_of_shift hnode]
  exact hcollect

include htype

theorem resolve?_of_shift (hname : declarator.name? = some name)
    (hnameKind : name.kind = .identifier) :
    (name.under top k).resolve? = some (.field top.span name.lexeme) := by
  have hunder : (declarator.under top k).name? = some (name.under top k) := by
    rw [name?_under, hname]
    rfl
  have hresolve := resolve?_of_mem htype (isTypeDeclaration_of_shift hnode hkind)
    (mem_fieldDeclarators_under hnode hdeclarator) hunder (by rw [under_kind, hnameKind])
  rwa [under_lexeme] at hresolve

theorem isSome_unreadFieldIssue?_of_shift :
    (unreadFieldIssue? document top (declarator.under top k)).isSome
      = declarator.isReportedIn tree := by
  obtain ⟨body, field, declaration, i, j, l, m, hi, hj, hl, hm, -⟩ :=
    child?_of_mem_fieldDeclarators hdeclarator
  have habove {parent child : Place} {n : Nat} (h : parent.child? n = some child) :
      child.above ≠ [] := by
    rw [(child?_eq_some.1 h).2]
    exact List.cons_ne_nil _ _
  rw [unreadFieldIssue?, isReportedIn, parent?_under (habove hm), parent?_of_child? hm,
    Option.map_some, Option.bind_some, Option.bind_some, parent?_under (habove hl),
    parent?_of_child? hl, name?_under]
  -- The issue asks for a name, a private field and an unread symbol, each of which is shifted.
  cases hname : declarator.name? with
  | none => rfl
  | some name =>
      simp only [Option.map_some, isPrivateField_under]
      by_cases hprivate : field.isPrivateField = true
      · rw [if_pos hprivate, hprivate, Bool.true_and]
        by_cases hidentifier : name.isA .identifier = true
        · rw [resolve?_of_shift htype hkind hnode hdeclarator hname (isA_iff.1 hidentifier)]
          simp only [collect_of_shift hkind hnode hdeclarator hname, FieldUsage.isUnread_under,
            hidentifier, Bool.true_and]
          split
          · next hunread => rw [hunread]; rfl
          · next hunread => rw [Bool.not_eq_true] at hunread; rw [hunread]; rfl
        · rw [resolve?, isA_under, if_neg hidentifier]
          rw [Bool.not_eq_true] at hidentifier
          rw [hidentifier]
          rfl
      · rw [if_neg hprivate]
        rw [Bool.not_eq_true] at hprivate
        rw [hprivate]
        rfl

end Surroundings

end Place

/-- The rule reports what the tree of a type tells. -/
theorem reported_of_shift {document : Document} {type : Place} {tree : Tree} {k : Nat}
    (htype : document.Has type) (hkind : tree.kind.isTypeDeclaration = true)
    (hnode : type.node = tree.shift k) :
    document.reported type
      = ((root tree).fieldDeclarators.filter (·.isReportedIn tree)).map (·.under type k) := by
  have hdeclarators : type.fieldDeclarators
      = (root tree).fieldDeclarators.map (·.under type k) := by
    rw [← root_under hnode, fieldDeclarators_under, root_under hnode]
  rw [Document.reported, hdeclarators, List.filter_map]
  refine congrArg _ (List.filter_congr fun declarator hdeclarator => ?_)
  exact isSome_unreadFieldIssue?_of_shift htype hkind hnode hdeclarator

/-- Two documents that have the same tree of a type, each at its own place, have
    the same findings on the type: the same declarators are reported, and each
    field has the same usage. -/
theorem findings_are_local {document document' : Document} {type type' : Place} {tree : Tree}
    {k k' : Nat} (htype : type ∈ document.root.descendants)
    (htype' : type' ∈ document'.root.descendants) (hkind : tree.kind.isTypeDeclaration = true)
    (hnode : type.node = tree.shift k) (hnode' : type'.node = tree.shift k') :
    (∃ declarators : List Place, document.reported type = declarators.map (·.under type k)
        ∧ document'.reported type' = declarators.map (·.under type' k'))
      ∧ ∀ declarator ∈ (root tree).fieldDeclarators, ∀ name, declarator.name? = some name →
        (name.kind = .identifier →
          (name.under type k).resolve? = some (.field type.span name.lexeme)
            ∧ (name.under type' k').resolve? = some (.field type'.span name.lexeme))
        ∧ ∃ usage : FieldUsage, FieldUsage.collect type (.field type.span name.lexeme) = usage.under type k
          ∧ FieldUsage.collect type' (.field type'.span name.lexeme) = usage.under type' k' := by
  have hhas : document.Has type := mem_descendants.1 htype
  have hhas' : document'.Has type' := mem_descendants.1 htype'
  refine ⟨⟨_, reported_of_shift hhas hkind hnode, reported_of_shift hhas' hkind hnode'⟩,
    fun declarator hdeclarator name hname => ⟨fun hnameKind => ⟨?_, ?_⟩, _,
      collect_of_shift hkind hnode hdeclarator hname,
      collect_of_shift hkind hnode' hdeclarator hname⟩⟩
  · exact resolve?_of_shift hhas hkind hnode hdeclarator hname hnameKind
  · exact resolve?_of_shift hhas' hkind hnode' hdeclarator hname hnameKind

/-- A type that stands alone, and within another one with a field of the same
    name. -/
def aloneSource : Text := "class C \x7b int x; C(int y) \x7b x = y; \x7d \x7d".toList

@[inherit_doc aloneSource]
def nestedSource : Text :=
  "class D \x7b int x; int M() => x; class C \x7b int x; C(int y) \x7b x = y; \x7d \x7d \x7d".toList

set_option maxRecDepth 100000 in
/-- The field is reported in the type that stands alone as in the nested one,
    though the outer type reads its own field. -/
theorem findings_are_local_nested :
    ∃ type type' : Place, type.span = ⟨0, 38⟩ ∧ type'.span = ⟨31, 69⟩
      ∧ (Document.parse aloneSource).reported type ≠ []
      ∧ ∃ declarators : List Place,
        (Document.parse aloneSource).reported type = declarators.map (·.under type 0)
        ∧ (Document.parse nestedSource).reported type' = declarators.map (·.under type' 31) := by
  have hfound : (((Document.parse aloneSource).root.at? ⟨0, 38⟩ .classDeclaration).bind fun type =>
      ((Document.parse nestedSource).root.at? ⟨31, 69⟩ .classDeclaration).map fun type' =>
        (type.node == type.node.shift 0, type'.node == type.node.shift 31,
          ((Document.parse aloneSource).reported type).isEmpty)) = some (true, true, false) := by
    decide +kernel
  obtain ⟨type, htype, hfound⟩ := Option.bind_eq_some_iff.1 hfound
  obtain ⟨type', htype', hfound⟩ := Option.map_eq_some_iff.1 hfound
  rw [Prod.mk.injEq, Prod.mk.injEq, beq_iff_eq, beq_iff_eq] at hfound
  obtain ⟨hnode, hnode', hreported⟩ := hfound
  obtain ⟨hhas, hkind, hspan⟩ := below_of_at? htype
  obtain ⟨hhas', -, hspan'⟩ := below_of_at? htype'
  refine ⟨type, type', hspan, hspan', fun hempty => ?_, (findings_are_local (mem_descendants.2 hhas)
    (mem_descendants.2 hhas') (by rw [show type.node.kind = .classDeclaration from hkind]; rfl)
    hnode hnode').1⟩
  rw [hempty] at hreported
  exact absurd hreported (by decide)

end SharpLint

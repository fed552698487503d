import SharpLint.Proofs.Lint.References

/-!
# Writes, Seen from Both Sides

An assignment is told from two sides. A dead statement is found from its
constructor down: the statement, the assignment that is all it holds, the left
side, and the name at its end, which has to stand for the field. A mention of the
field is followed up: from the name to the member access it may end, and on to an
assignment that has it on the left. Both come to the same pairs of a name and an
assignment, for a name that ends the left side of a plain assignment is where the
way down ends and the way up starts.

So a name that stands for the field is the target of a dead statement exactly if
the way up from it leads to an assignment that stands alone in a constructor. And
the mentions are sorted without gaps: one that starts no way up is a read, and of
the others those in a dead statement are set apart. Whether a name is in a
statement is decided on spans, which for a name comes to the same as standing
below it in the tree.

## Main definitions

* `DeadStatement.target?`: the name that a dead statement assigns.
* `Place.DoesAlone`: an assignment that stands alone in a constructor.
* `FieldUsage.Kills`: a name that a dead statement assigns.
* `FieldUsage.InDead`: a place in a dead statement.

## Theorems

* `Document.Has.writeTarget?_eq_some_iff`: The way up is the way down.
* `Place.exists_dead_iff`: Which assignments make dead statements.
* `Document.Has.within_iff_inDead`: Names in dead statements are below them.
* `mentions_are_sorted`: What becomes of each name that stands for a field.
-/

namespace SharpLint

open Text Place

/-- The name that the statement assigns. -/
def DeadStatement.target? (dead : DeadStatement) : Option Place :=
  (dead.assignment.labelled? .left).bind targetName?

namespace Place

/-- The assignment is all that stands behind the arrow of the constructor, or all
    that a statement directly in its block holds, comments aside. -/
def DoesAlone (constructor assignment : Place) : Prop :=
  ∃ body, constructor.body? = some body
    ∧ (body.kind = .arrowExpressionClause ∧ body.content? = some assignment
      ∨ body.kind = .block ∧ ∃ statement ∈ body.childrenOf .expressionStatement,
        statement.content? = some assignment)

variable {constructor assignment name : Place} {field : Symbol}

/-- The assignments of dead statements are those that stand alone in a constructor
    and assign the field. -/
theorem exists_dead_iff :
    (∃ dead ∈ deadStatements constructor field, dead.assignment = assignment)
      ↔ constructor.DoesAlone assignment ∧ assignment.assignsField field = true := by
  constructor
  · rintro ⟨dead, hdead, rfl⟩
    obtain ⟨-, body, -, hcases, -, hassigns, hbody, hcontent⟩ := Document.mem_deadStatements hdead
    refine ⟨⟨body, hbody, ?_⟩, hassigns⟩
    rcases hcases with ⟨-, harrow, rfl⟩ | ⟨-, hblock, hkind, hchild⟩
    · exact .inl ⟨harrow, hcontent⟩
    · exact .inr ⟨hblock, dead.statement,
        mem_childrenOf.2 ⟨⟨hchild, by rw [hkind]; rfl⟩, hkind⟩, hcontent⟩
  · -- The other way the statement is built: the arrow clause itself, or one of the block.
    rintro ⟨⟨body, hbody, hcases⟩, hassigns⟩
    unfold deadStatements
    rw [hbody]
    rcases hcases with ⟨harrow, hcontent⟩ | ⟨hblock, statement, hstatement, hcontent⟩
    · refine ⟨⟨body, assignment, true⟩, ?_, rfl⟩
      simp only [isA_iff.2 harrow, if_true, hcontent, hassigns, List.mem_singleton]
    · refine ⟨⟨statement, assignment, false⟩, ?_, rfl⟩
      have hnot : ¬body.isA .arrowExpressionClause = true := by
        rw [isA_iff, hblock]
        decide
      simp only [if_neg hnot]
      exact List.mem_filterMap.2 ⟨statement, hstatement, by simp only [hcontent, hassigns, if_true]⟩

/-- A dead statement stands in its constructor. -/
theorem below_of_dead {dead : DeadStatement} (hdead : dead ∈ deadStatements constructor field) :
    Below constructor dead.statement := by
  obtain ⟨n, body, hn, hcases, -⟩ := Document.mem_deadStatements hdead
  rcases hcases with ⟨-, -, hstatement⟩ | ⟨-, -, -, m, hm⟩
  · exact hstatement ▸ .step .refl hn
  · exact .step (.step .refl hn) hm

/-- The name that a dead statement assigns stands in it. -/
theorem below_of_target {dead : DeadStatement} (hdead : dead ∈ deadStatements constructor field)
    (htarget : dead.target? = some name) : Below dead.statement name := by
  obtain ⟨-, -, -, -, ⟨k, hk⟩, -⟩ := Document.mem_deadStatements hdead
  obtain ⟨left, hleft, hname⟩ := Option.bind_eq_some_iff.1 htarget
  exact Below.trans (.step .refl hk) (below_of_targetName? hleft hname)

end Place

namespace FieldUsage

/-- A dead statement assigns the name. -/
def Kills (usage : FieldUsage) (name : Place) : Prop :=
  ∃ write ∈ usage.constructorWrites, ∃ dead ∈ write.statements, dead.target? = some name

/-- The place is one of those in a dead statement. -/
def InDead (usage : FieldUsage) (place : Place) : Prop :=
  ∃ write ∈ usage.constructorWrites, ∃ dead ∈ write.statements,
    place ∈ dead.statement.descendants

/-- The name is written to in a dead statement. -/
def WritesInDead (usage : FieldUsage) (name : Place) : Prop :=
  name.writeTarget? ≠ none ∧ usage.InDead name

variable {type name : Place} {field : Symbol}

/-- The dead statements of a type are those of its constructors. -/
theorem exists_write_iff {p : DeadStatement → Prop} :
    (∃ write ∈ writesOf type field, ∃ dead ∈ write.statements, p dead)
      ↔ ∃ constructor ∈ type.constructors, ∃ dead ∈ deadStatements constructor field, p dead := by
  constructor
  · rintro ⟨write, hwrite, dead, hdead, hp⟩
    obtain ⟨hconstructor, hstatements, -⟩ := mem_writesOf.1 hwrite
    exact ⟨write.constructor, hconstructor, dead, hstatements ▸ hdead, hp⟩
  · rintro ⟨constructor, hconstructor, dead, hdead, hp⟩
    refine ⟨⟨constructor, deadStatements constructor field⟩,
      mem_writesOf.2 ⟨hconstructor, rfl, ?_⟩, dead, hdead, hp⟩
    exact List.ne_nil_of_mem hdead

/-- The target of a dead statement is in it. -/
theorem inDead_of_kills (h : (collect type field).Kills name) :
    (collect type field).InDead name := by
  obtain ⟨constructor, hconstructor, dead, hdead, htarget⟩ := exists_write_iff.1 h
  exact exists_write_iff.2 ⟨constructor, hconstructor, dead, hdead,
    mem_descendants.2 (below_of_target hdead htarget)⟩

end FieldUsage

namespace Document.Has

variable {document : Document} {type constructor assignment name : Place} {field : Symbol}

/-- The way up from a name leads to the plain assignments whose left side ends with
    that name. -/
theorem writeTarget?_eq_some_iff (h : document.Has name) (hkind : name.kind = .identifier) :
    name.writeTarget? = some assignment ↔ document.Has assignment
      ∧ assignment.isPlainAssignment = true
      ∧ (assignment.labelled? .left).bind targetName? = some name := by
  constructor
  · intro htarget
    unfold writeTarget? at htarget
    split at htarget
    · exact absurd htarget (by simp only [reduceCtorEq, not_false_eq_true])
    next parent hparent =>
    have hhas := (h.parent hparent).1
    split at htarget
    · next hmember =>
      -- The name ends a member access, which is on the left.
      rw [Bool.and_eq_true, isA_iff, plays_iff h hhas] at hmember
      split at htarget
      · exact absurd htarget (by simp only [reduceCtorEq, not_false_eq_true])
      next above habove =>
      have hassignment := (hhas.parent habove).1
      split at htarget
      · next hassigns =>
        rw [Option.some.injEq] at htarget
        subst htarget
        rw [assignsTo, Bool.and_eq_true, plays_iff hhas hassignment] at hassigns
        refine ⟨hassignment, hassigns.1, ?_⟩
        rw [hassigns.2, Option.bind_some]
        exact targetName?_eq_some_iff.2 (.inr hmember)
      · exact absurd htarget (by simp only [reduceCtorEq, not_false_eq_true])
    · split at htarget
      · next hassigns =>
        rw [Option.some.injEq] at htarget
        subst htarget
        rw [assignsTo, Bool.and_eq_true, plays_iff h hhas] at hassigns
        refine ⟨hhas, hassigns.1, ?_⟩
        rw [hassigns.2, Option.bind_some]
        exact targetName?_eq_some_iff.2 (.inl ⟨hkind, rfl⟩)
      · exact absurd htarget (by simp only [reduceCtorEq, not_false_eq_true])
  · rintro ⟨hassignment, hplain, htarget⟩
    obtain ⟨left, hleft, hname⟩ := Option.bind_eq_some_iff.1 htarget
    obtain ⟨⟨n, hn⟩, -⟩ := child?_of_labelled? hleft
    have hplays : assignment.assignsTo left = true := by
      rw [assignsTo, hplain, Bool.true_and, plays_iff (hassignment.child hn) hassignment]
      exact hleft
    unfold writeTarget?
    rcases targetName?_eq_some_iff.1 hname with ⟨-, rfl⟩ | ⟨hmember, hlabelled⟩
    · -- An assignment is no member access.
      have hnot : assignment.isA .memberAccessExpression = false := by
        rw [isPlainAssignment, Bool.and_eq_true, isA_iff] at hplain
        rw [isA, Place.kind] at *
        rw [hplain.1]
        rfl
      simp only [parent?_of_child? hn, hnot, Bool.false_and, Bool.false_eq_true, if_false, hplays,
        if_true]
    · obtain ⟨⟨m, hm⟩, -⟩ := child?_of_labelled? hlabelled
      have hends : (left.isA .memberAccessExpression && name.plays left .name) = true := by
        rw [Bool.and_eq_true, isA_iff, plays_iff h (hassignment.child hn)]
        exact ⟨hmember, hlabelled⟩
      simp only [parent?_of_child? hm, parent?_of_child? hn, hends, hplays, if_true]

/-- What stands alone in a constructor is a node of the document. -/
theorem doesAlone (h : document.Has type) (hconstructor : constructor ∈ type.constructors)
    (halone : constructor.DoesAlone assignment) : document.Has assignment := by
  have hcontent {place content : Place} (hplace : document.Has place)
      (h : place.content? = some content) : document.Has content := by
    obtain ⟨⟨n, hn⟩, -⟩ := mem_namedChildren.1 (List.mem_of_find?_eq_some h)
    exact hplace.child hn
  obtain ⟨body, hbody, hcases⟩ := halone
  obtain ⟨⟨n, hn⟩, -⟩ := mem_namedChildren.1 (List.mem_of_find?_eq_some hbody)
  have hhas := (h.constructor hconstructor).1.child hn
  rcases hcases with ⟨-, hassignment⟩ | ⟨-, statement, hstatement, hassignment⟩
  · exact hcontent hhas hassignment
  · obtain ⟨⟨⟨m, hm⟩, -⟩, -⟩ := mem_childrenOf.1 hstatement
    exact hcontent (hhas.child hm) hassignment

/-- A name that stands for the field is assigned by a dead statement exactly if the
    way up from it leads to an assignment that stands alone in a constructor. -/
theorem kills_iff (h : document.Has type) (hname : document.Has name)
    (hresolve : name.resolve? = some field) :
    (FieldUsage.collect type field).Kills name ↔ ∃ assignment,
      name.writeTarget? = some assignment
        ∧ ∃ constructor ∈ type.constructors, constructor.DoesAlone assignment := by
  refine FieldUsage.exists_write_iff.trans ?_
  simp only [hname.writeTarget?_eq_some_iff (kind_of_resolve? hresolve)]
  constructor
  · rintro ⟨constructor, hconstructor, dead, hdead, htarget⟩
    obtain ⟨halone, hassigns⟩ := exists_dead_iff.1 ⟨dead, hdead, rfl⟩
    exact ⟨dead.assignment, ⟨h.doesAlone hconstructor halone, (assignsField_iff.1 hassigns).1,
      htarget⟩, constructor, hconstructor, halone⟩
  · rintro ⟨assignment, ⟨-, hplain, htarget⟩, constructor, hconstructor, halone⟩
    obtain ⟨dead, hdead, rfl⟩ := exists_dead_iff.2
      ⟨halone, assignsField_iff.2 ⟨hplain, name, htarget, hresolve⟩⟩
    exact ⟨constructor, hconstructor, dead, hdead, htarget⟩

/-- The span of a name is within that of a node exactly if the name stands below
    it. -/
theorem within_iff_below {node : Place} (h : document.Has node) (hsound : document.Sound)
    (hname : document.Has name) (hkind : name.kind = .identifier) :
    name.span.within node.span = true ↔ Below node name := by
  rw [Span.within_iff]
  constructor
  · rintro ⟨hstart, hstop⟩
    change node.start ≤ name.start at hstart
    change name.stop ≤ node.stop at hstop
    have hproper := (piece_of_identifier hsound hname hkind).start_lt_stop
    rcases h.nested hname hsound with hbelow | hbelow | hapart | hapart
    · exact hbelow
    · -- Nothing but the name itself stands below a name.
      rw [eq_of_below_leaf (hname.leaf_of_identifier hsound hkind) hbelow]
      exact .refl
    · omega
    · omega
  · exact h.inside hsound

theorem within_iff_inDead (h : document.Has type) (hsound : document.Sound)
    (hname : document.Has name) (hkind : name.kind = .identifier) :
    FieldUsage.within (FieldUsage.writesOf type field) name = true
      ↔ (FieldUsage.collect type field).InDead name := by
  rw [FieldUsage.within, List.any_eq_true]
  simp only [List.any_eq_true]
  refine FieldUsage.exists_write_iff.trans (Iff.trans ?_ FieldUsage.exists_write_iff.symm)
  refine exists_congr fun constructor => and_congr_right fun hconstructor =>
    exists_congr fun dead => and_congr_right fun hdead => ?_
  rw [mem_descendants]
  have hstatement := (h.constructor hconstructor).1.below (below_of_dead hdead)
  exact hstatement.within_iff_below hsound hname hkind

end Document.Has

/-- What becomes of a name in a type that stands for a field and does not declare
    it. It is the target of a dead statement exactly if the assignment that it is
    the target of stands alone in a constructor of the type. It is a read exactly
    if it is the target of no plain assignment. And it is exactly one of the three:
    a read, a write in a dead statement, as the targets of those are, or one of
    the other writes. -/
theorem mentions_are_sorted (source : Text) {type name : Place} {field : Symbol}
    (htype : type ∈ (Document.parse source).root.descendants) (hname : name ∈ type.descendants)
    (hrole : name.role ≠ .declaration) (hresolve : name.resolve? = some field) :
    ((FieldUsage.collect type field).Kills name ↔ ∃ assignment,
        name.writeTarget? = some assignment
          ∧ ∃ constructor ∈ type.constructors, constructor.DoesAlone assignment)
      ∧ (name ∈ (FieldUsage.collect type field).reads ↔ name.writeTarget? = none)
      ∧ (name ∈ (FieldUsage.collect type field).reads
          ∧ name ∉ (FieldUsage.collect type field).otherWrites
          ∧ ¬(FieldUsage.collect type field).WritesInDead name
        ∨ name ∉ (FieldUsage.collect type field).reads
          ∧ name ∈ (FieldUsage.collect type field).otherWrites
          ∧ ¬(FieldUsage.collect type field).WritesInDead name
        ∨ name ∉ (FieldUsage.collect type field).reads
          ∧ name ∉ (FieldUsage.collect type field).otherWrites
          ∧ (FieldUsage.collect type field).WritesInDead name)
      ∧ ((FieldUsage.collect type field).Kills name →
        (FieldUsage.collect type field).WritesInDead name) := by
  have hsound := Document.parse_sound source
  have hhas : (Document.parse source).Has type := mem_descendants.1 htype
  have hbelow : Below type name := mem_descendants.1 hname
  have hhasName := hhas.below hbelow
  obtain ⟨-, -, -, -, hmentions⟩ := exists_scope hhasName hrole hresolve
  -- A name that resolves is simple or behind `this`, and both are looked at.
  have hmention : name ∈ type.mentions field := RemovalPlan.Leads.mem_mentions hbelow hresolve
    (name_of_resolve? hrole hresolve) hmentions
  have hkills := hhas.kills_iff hhasName hresolve
  have hreads := FieldUsage.mem_reads hmention
  have hothers := FieldUsage.mem_otherWrites hmention
  rw [hhas.within_iff_inDead hsound hhasName (kind_of_resolve? hresolve)] at hothers
  refine ⟨hkills, hreads, ?_, fun h => ⟨?_, FieldUsage.inDead_of_kills h⟩⟩
  · rw [hreads, hothers, FieldUsage.WritesInDead]
    -- No target makes a read; with one it depends on whether a dead statement is around the name.
    by_cases htarget : name.writeTarget? = none
    · exact .inl ⟨htarget, fun h => h.1 htarget, fun h => h.1 htarget⟩
    · by_cases hin : (FieldUsage.collect type field).InDead name
      · exact .inr (.inr ⟨htarget, fun h => h.2 hin, htarget, hin⟩)
      · exact .inr (.inl ⟨htarget, ⟨htarget, hin⟩, fun h => hin h.2⟩)
  · obtain ⟨assignment, htarget, -⟩ := hkills.1 h
    rw [htarget]
    exact Option.some_ne_none assignment

/-- A type with a write to its field in a dead statement, and one elsewhere. -/
def twoWritesSource : Text :=
  "class C \x7b int _x; C(int x) \x7b this._x = x; \x7d void M() \x7b _x = 3; \x7d \x7d".toList

set_option maxRecDepth 100000 in
/-- The target of the dead statement is followed up to an assignment that stands
    alone in the constructor, and is among neither the reads nor the other writes. -/
theorem mentions_are_sorted_of_killed :
    ∃ type ∈ (Document.parse twoWritesSource).root.descendants, ∃ field, ∃ name ∈ type.descendants,
      name.role ≠ .declaration ∧ name.resolve? = some field
        ∧ (∃ assignment, name.writeTarget? = some assignment
          ∧ ∃ constructor ∈ type.constructors, constructor.DoesAlone assignment)
        ∧ name ∉ (FieldUsage.collect type field).reads
        ∧ name ∉ (FieldUsage.collect type field).otherWrites := by
  -- From the name of the field to its type, and to the first dead statement of the type.
  have hnodes : (((Document.parse twoWritesSource).root.at? ⟨14, 16⟩ .identifier).bind fun first =>
      first.enclosingType?.bind fun type => first.resolve?.bind fun field =>
        (FieldUsage.writesOf type field).head?.bind fun write => write.statements.head?.bind fun dead =>
          dead.target?.map fun name => (name.role, name.resolve? == some field))
      = some (.thisMember, true) := by
    decide +kernel
  obtain ⟨first, hfirst, hnodes⟩ := Option.bind_eq_some_iff.1 hnodes
  obtain ⟨type, htype, hnodes⟩ := Option.bind_eq_some_iff.1 hnodes
  obtain ⟨field, -, hnodes⟩ := Option.bind_eq_some_iff.1 hnodes
  obtain ⟨write, hwrite, hnodes⟩ := Option.bind_eq_some_iff.1 hnodes
  obtain ⟨dead, hdead, hnodes⟩ := Option.bind_eq_some_iff.1 hnodes
  obtain ⟨name, hname, hnodes⟩ := Option.map_eq_some_iff.1 hnodes
  rw [Prod.mk.injEq, beq_iff_eq] at hnodes
  obtain ⟨hrole, hresolve⟩ := hnodes
  obtain ⟨hhas, -, -⟩ := below_of_ancestor? (below_of_at? hfirst).1 htype
  have hkills : (FieldUsage.collect type field).Kills name :=
    ⟨write, List.mem_of_mem_head? hwrite, dead, List.mem_of_mem_head? hdead, hname⟩
  obtain ⟨constructor, hconstructor, dead, hdead, htarget⟩ := FieldUsage.exists_write_iff.1 hkills
  have hbelow : Below type name :=
    ((Document.Has.constructor hhas hconstructor).2.2.1.trans (below_of_dead hdead)).trans
      (below_of_target hdead htarget)
  have hnot : name.role ≠ .declaration := by
    rw [hrole]
    decide
  obtain ⟨hiff, -, hsorted, hin⟩ := mentions_are_sorted twoWritesSource (mem_descendants.2 hhas)
    (mem_descendants.2 hbelow) hnot hresolve
  refine ⟨type, mem_descendants.2 hhas, field, name, mem_descendants.2 hbelow, hnot, hresolve,
    hiff.1 hkills, ?_⟩
  rcases hsorted with ⟨-, -, hout⟩ | ⟨-, -, hout⟩ | ⟨hread, hother, -⟩
  · exact absurd (hin hkills) hout
  · exact absurd (hin hkills) hout
  · exact ⟨hread, hother⟩

end SharpLint

import SharpLint.Proofs.Lint.Fields

/-!
# Reads of Members Keep a Field

A field counts as read when its name stands behind a dot anywhere in its type,
whatever the object before the dot is: the object may be one of the type. Only
`this` is known, and tells the type by itself. The name behind the `?.` of a
conditional access is no mention, and neither is the name behind a `this` of
another type.

## Main definitions

* `Document.ReadsMember`: a member access reads a member of some name.

## Theorems

* `Document.ReadsMember.mem_reads`: The name that is read is among the reads.
* `readMember_keeps_field`: A field that is read so is not reported, and not
  removed.
-/

namespace SharpLint

open Place

/-- A member access below a type reads a member called `text`. It is not the
    left side of a plain assignment, and a `this` before the dot means the
    type. -/
structure Document.ReadsMember (document : Document) (type access name : Place) (text : String) :
    Prop where
  below : Below type access
  isAccess : access.kind = .memberAccessExpression
  member : access.labelled? .name = some name
  isName : name.kind = .identifier
  lexeme : name.lexeme = text
  receiver : ∀ receiver, access.labelled? .expression = some receiver → receiver.lexeme = "this" →
    name.enclosingType? = some type
  unassigned : ∀ parent, access.parent? = some parent → parent.assignsTo access = false

namespace Document.ReadsMember

variable {document : Document} {type access name : Place} {text : String}

theorem hasAccess (h : document.ReadsMember type access name text) (htype : document.Has type) :
    document.Has access :=
  htype.below h.below

theorem plays (h : document.ReadsMember type access name text) (htype : document.Has type) :
    name.plays access .name = true := by
  obtain ⟨⟨n, hn⟩, -⟩ := child?_of_labelled? h.member
  exact (plays_iff ((h.hasAccess htype).child hn) (h.hasAccess htype)).2 h.member

/-- The name is that of a member of this type, or of some other object. -/
theorem role (h : document.ReadsMember type access name text) (htype : document.Has type) :
    name.role = .thisMember ∧ name.enclosingType? = some type ∨ name.role = .foreignMember := by
  obtain ⟨⟨n, hn⟩, -⟩ := child?_of_labelled? h.member
  rw [Place.role, parent?_of_child? hn]
  simp only [roleIn, isA_iff.2 h.isAccess, h.plays htype, Bool.and_self, if_true]
  cases hreceiver : access.labelled? .expression with
  | none => exact .inr rfl
  | some receiver =>
      by_cases hthis : receiver.lexeme = "this"
      · exact .inl ⟨if_pos hthis, h.receiver receiver hreceiver hthis⟩
      · exact .inr (if_neg hthis)

/-- Nothing is assigned to the name. -/
theorem writeTarget?_eq_none (h : document.ReadsMember type access name text)
    (htype : document.Has type) : name.writeTarget? = none := by
  obtain ⟨⟨n, hn⟩, -⟩ := child?_of_labelled? h.member
  rw [writeTarget?, parent?_of_child? hn]
  simp only [isA_iff.2 h.isAccess, h.plays htype, Bool.and_self, if_true]
  cases hparent : access.parent? with
  | none => rfl
  | some parent =>
      simp only [h.unassigned parent hparent, Bool.false_eq_true, if_false]

/-- The name is among the reads of the field that is called so. -/
theorem mem_reads (h : document.ReadsMember type access name text) (htype : document.Has type)
    (hfield : type.fieldDeclarators.any (·.isNamed text) = true) :
    name ∈ (FieldUsage.collect type (.field type.span text)).reads := by
  obtain ⟨⟨n, hn⟩, -⟩ := child?_of_labelled? h.member
  have hmention : name ∈ type.mentions (.field type.span text) := by
    refine List.mem_filter.2 ⟨mem_descendants.2 (.step h.below hn), ?_⟩
    rw [isA_iff.2 h.isName, Symbol.name, h.lexeme, beq_self_eq_true]
    -- Through `this` the name is resolved; a member of another object counts as a read as it is.
    rcases h.role htype with ⟨hrole, henclosing⟩ | hrole
    · have hresolve : name.resolve? = some (.field type.span text) := by
        rw [resolve?, if_pos (isA_iff.2 h.isName), hrole]
        simp only [henclosing, h.lexeme, lookupField?, if_pos hfield]
      rw [hrole]
      simp only [hresolve, beq_self_eq_true, Bool.and_self]
    · rw [hrole]
      rfl
  exact (FieldUsage.mem_reads hmention).2 (h.writeTarget?_eq_none htype)

end Document.ReadsMember

/-- A field whose name stands behind a dot in its type, where no plain
    assignment writes to it, is not reported as unread, and not removed. -/
theorem readMember_keeps_field (source : Text) {type declarator name access use : Place}
    (htype : type ∈ (Document.parse source).root.descendants)
    (htypeKind : type.kind.isTypeDeclaration = true) (hdeclarator : declarator ∈ type.fieldDeclarators)
    (hname : declarator.name? = some name) (hkind : name.kind = .identifier)
    (hread : (Document.parse source).ReadsMember type access use name.lexeme) :
    (∀ issue ∈ unreadFieldIssues (.parse source), issue.span ≠ name.span)
      ∧ ∀ fix, removeField (.parse source) name.span ≠ .ok fix := by
  have hsound := Document.parse_sound source
  have hhas : (Document.parse source).Has type := mem_descendants.1 htype
  obtain ⟨field, declaration, h⟩ := exists_declaresField hhas htypeKind hdeclarator hname
  -- The member is among the reads of the field, which an unread field has none of.
  have hmem := hread.mem_reads hhas h.isNamed
  constructor
  · intro issue hissue hspan
    obtain ⟨type', htype', hissue⟩ := List.mem_flatMap.1 hissue
    rw [List.mem_filter] at htype'
    obtain ⟨declarator', hdeclarator', hissue⟩ := List.mem_filterMap.1 hissue
    obtain ⟨name', symbol, hname', hresolve, hspan', -, hunread, -⟩ := unreadFieldIssue?_eq_some hissue
    obtain ⟨field', declaration', h'⟩ :=
      exists_declaresField (mem_descendants.1 htype'.1) htype'.2 hdeclarator' hname'
    obtain ⟨rfl, rfl⟩ := h.unique hsound h' hkind (kind_of_resolve? hresolve)
      (hspan'.symm.trans hspan)
    rw [FieldUsage.isUnread, Bool.and_eq_true, List.isEmpty_iff, h'.symbol_eq hresolve] at hunread
    rw [hunread.2] at hmem
    exact List.not_mem_nil hmem
  · intro fix hfix
    obtain ⟨plan, hplan⟩ := exists_plan hfix
    obtain ⟨-, htypeEq, hsymbol⟩ := h.eq_plan hsound hkind hplan.toStands
    have hreads := hplan.reads
    rw [hsymbol, htypeEq] at hreads
    rw [hreads] at hmem
    exact List.not_mem_nil hmem

/-- A type in which a field is read as a member of another object. -/
def memberReadSource : Text :=
  "class C \x7b int _x; C(int x) \x7b _x = x; \x7d bool Same(C o) => o._x == 1; \x7d".toList

set_option maxRecDepth 100000 in
theorem readMember_keeps_field_of_other :
    (∃ type ∈ (Document.parse memberReadSource).root.descendants,
        ∃ access use, (Document.parse memberReadSource).ReadsMember type access use "_x")
      ∧ (∀ issue ∈ unreadFieldIssues (.parse memberReadSource), issue.span ≠ ⟨14, 16⟩)
      ∧ ∀ fix, removeField (.parse memberReadSource) ⟨14, 16⟩ ≠ .ok fix := by
  -- From the access to its type, and to the first field of the type.
  have hnodes : (((Document.parse memberReadSource).root.at? ⟨57, 61⟩
      .memberAccessExpression).bind fun access => access.enclosingType?.bind fun type =>
        type.fieldDeclarators.head?.bind fun declarator => declarator.name?.bind fun name =>
          (access.labelled? .name).map fun use =>
            (name.kind, name.lexeme, name.span, use.kind, use.lexeme))
      = some (.identifier, "_x", ⟨14, 16⟩, .identifier, "_x") := by
    decide +kernel
  have haround : (((Document.parse memberReadSource).root.at? ⟨57, 61⟩
      .memberAccessExpression).map fun access =>
        ((access.labelled? .expression).map lexeme,
          access.parent?.map fun parent => parent.assignsTo access))
      = some (some "o", some false) := by
    decide +kernel
  obtain ⟨access, haccess, hnodes⟩ := Option.bind_eq_some_iff.1 hnodes
  obtain ⟨type, htype, hnodes⟩ := Option.bind_eq_some_iff.1 hnodes
  obtain ⟨declarator, hdeclarator, hnodes⟩ := Option.bind_eq_some_iff.1 hnodes
  obtain ⟨name, hname, hnodes⟩ := Option.bind_eq_some_iff.1 hnodes
  obtain ⟨use, huse, hnodes⟩ := Option.map_eq_some_iff.1 hnodes
  simp only [Prod.mk.injEq] at hnodes
  obtain ⟨hkind, hlexeme, hspan, huseKind, huseLexeme⟩ := hnodes
  rw [haccess, Option.map_some, Option.some.injEq, Prod.mk.injEq] at haround
  obtain ⟨hreceiver, hparent⟩ := haround
  obtain ⟨hroot, haccessKind, -⟩ := below_of_at? haccess
  obtain ⟨hhas, hbelow, htypeKind⟩ := below_of_ancestor? hroot htype
  have hread : (Document.parse memberReadSource).ReadsMember type access use "_x" :=
    { below := hbelow
      isAccess := haccessKind
      member := huse
      isName := huseKind
      lexeme := huseLexeme
      receiver := fun receiver hsome hthis => by
        rw [hsome, Option.map_some, hthis] at hreceiver
        exact absurd hreceiver (by decide)
      unassigned := fun parent hsome => by
        rwa [hsome, Option.map_some, Option.some.injEq] at hparent }
  refine ⟨⟨type, mem_descendants.2 hhas, access, use, hread⟩, ?_⟩
  rw [← hspan]
  exact readMember_keeps_field memberReadSource (mem_descendants.2 hhas) htypeKind
    (List.mem_of_mem_head? hdeclarator) hname hkind (hlexeme ▸ hread)

/-- A type in which a field is read as a member of another object, if there is
    one. -/
def conditionalReadSource : Text :=
  "class C \x7b private int _x; C(int x) \x7b _x = x; \x7d bool Same(C o) => o?._x == 1; \x7d".toList

set_option maxRecDepth 100000 in
/-- The name behind the dot of a conditional access does not keep a field: it is
    reported and removed. -/
theorem conditional_read_keeps_nothing :
    (∃ access ∈ (Document.parse conditionalReadSource).root.descendants,
        access.kind = .memberBindingExpression
          ∧ ∃ use ∈ access.labelled? .name, use.lexeme = "_x" ∧ use.role = .declaration)
      ∧ (∃ issue ∈ unreadFieldIssues (.parse conditionalReadSource), issue.span = ⟨22, 24⟩)
      ∧ (removeField (.parse conditionalReadSource) ⟨22, 24⟩).isOk = true := by
  decide +kernel

end SharpLint

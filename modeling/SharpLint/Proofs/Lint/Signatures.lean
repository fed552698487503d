import SharpLint.Proofs.Lint.Applicable
import SharpLint.Proofs.Lint.References

/-!
# Signatures of Constructors

What the fix for an unread field leaves of the heads of constructors. A
constructor loses parameters if a dead statement of it is fed by one to which
nothing else refers; of all other constructors, in the type of the field and
elsewhere, the signature stays as it is, and so do the arguments that one
constructor passes on to another. So two constructors that differ, or a call
and the constructor that it is for, come apart only at a constructor that loses
a parameter. There they do: whether a parameter goes is told from its own
constructor, and no other is looked at.

## Main definitions

* `Place.signature`: the types of the parameters of a constructor.
* `Place.passedOn?`: the arguments for another constructor of the type.
* `Document.TellsApart`: the constructors of each type differ.
* `Document.AnswersCalls`: each call of another constructor fits one.
* `Fix.signatureLeft`: what a fix leaves of a signature.
* `RemovalPlan.Strips`: the constructor loses a parameter.

## Theorems

* `RemovalPlan.Leads.edit_of_constructor`: A constructor is met by its own edits.
* `RemovalPlan.Leads.spares_initializer`: No edit meets the call of another
  constructor.
* `removeField_strips_only_fed`: Signatures change only where a parameter is lost.
* `stripped_constructor_collides`: A constructor that loses its parameter may be
  one that is there already.
-/

namespace SharpLint

open Text Place

/-! ### Signatures -/

namespace Place

/-- What a constructor declares in its list: the parameters, and the type of an
    array of further ones, which is no parameter of its own to the list. -/
def declaredParts (constructor : Place) : List Place :=
  match constructor.ownParameterList? with
  | some list => list.children.filter fun part =>
      part.isA .parameter || part.node.label == some .type
  | none => []

/-- The tokens of the type of what a constructor declares. -/
def typeTokens (part : Place) : List String :=
  match if part.isA .parameter then part.labelled? .type else some part with
  | some type =>
    (type.descendants.filter fun token => token.lexeme != "" && !token.kind.isExtra).map lexeme
  | none => []

/-- The types of the parameters of a constructor. -/
def signature (constructor : Place) : List (List String) :=
  constructor.declaredParts.map typeTokens

/-- The arguments that a constructor passes on to another one of its type. -/
def passedOn? (constructor : Place) : Option (List Place) :=
  match constructor.firstOf? .constructorInitializer with
  | some initializer =>
    if initializer.children.any (·.lexeme == "this") then
      (initializer.firstOf? .argumentList).map fun list => list.childrenOf .argument
    else none
  | none => none

end Place

namespace Document

/-- The declarations of types. -/
def types (document : Document) : List Place :=
  document.root.descendants.filter fun node => node.kind.isTypeDeclaration

/-- The constructors of each type differ in their signatures. -/
def TellsApart (document : Document) (signature : Place → List (List String)) : Prop :=
  ∀ type ∈ document.types, type.constructors.Pairwise fun a b => signature a ≠ signature b

/-- A constructor that passes arguments on passes as many as another one of its
    type declares parameters. -/
def AnswersCalls (document : Document) (signature : Place → List (List String)) : Prop :=
  ∀ type ∈ document.types, ∀ constructor ∈ type.constructors,
    ∀ arguments ∈ constructor.passedOn?, ∃ other ∈ type.constructors,
      other.same constructor = false ∧ (signature other).length = arguments.length

instance (document : Document) (signature : Place → List (List String)) :
    Decidable (document.TellsApart signature) :=
  inferInstanceAs (Decidable (∀ type ∈ document.types,
    type.constructors.Pairwise fun a b => signature a ≠ signature b))

instance (document : Document) (signature : Place → List (List String)) :
    Decidable (document.AnswersCalls signature) :=
  inferInstanceAs (Decidable (∀ type ∈ document.types, ∀ constructor ∈ type.constructors,
    ∀ arguments ∈ constructor.passedOn?, ∃ other ∈ type.constructors,
      other.same constructor = false ∧ (signature other).length = arguments.length))

end Document

namespace Fix

/-- No edit of the fix has a byte in common with the place. -/
def spares (fix : Fix) (place : Place) : Bool :=
  fix.edits.all fun edit =>
    decide (edit.span.stop ≤ place.start) || decide (place.stop ≤ edit.span.start)

/-- The types of the parameters that a fix leaves to a constructor. -/
def signatureLeft (fix : Fix) (constructor : Place) : List (List String) :=
  (constructor.declaredParts.filter fix.spares).map typeTokens

variable {fix : Fix} {place : Place}

theorem spares_iff : fix.spares place = true ↔
    ∀ edit ∈ fix.edits, edit.span.stop ≤ place.start ∨ place.stop ≤ edit.span.start := by
  simp only [spares, List.all_eq_true, Bool.or_eq_true, decide_eq_true_eq]

/-- What is inside a place that is spared is spared. -/
theorem spares_of_inside (h : fix.spares place = true) {inner : Place}
    (hstart : place.start ≤ inner.start) (hstop : inner.stop ≤ place.stop) :
    fix.spares inner = true := by
  refine spares_iff.2 fun edit hedit => ?_
  have hapart := spares_iff.1 h edit hedit
  omega

/-- What is covered is not spared. -/
theorem Covers.not_spares (h : fix.Covers place) (hproper : place.start < place.stop) :
    ¬fix.spares place = true := by
  intro hspares
  obtain ⟨edit, hedit, hwithin⟩ := h
  have hapart := spares_iff.1 hspares edit hedit
  rw [Span.within_iff] at hwithin
  change edit.span.start ≤ place.start ∧ place.stop ≤ edit.span.stop at hwithin
  omega

end Fix

theorem mem_declaredParts {constructor part : Place} : part ∈ constructor.declaredParts ↔
    ∃ list, constructor.ownParameterList? = some list ∧ (∃ n, list.child? n = some part)
      ∧ (part.kind = .parameter ∨ part.node.label = some .type) := by
  unfold declaredParts
  split
  · next list hlist =>
    rw [List.mem_filter, mem_children, Bool.or_eq_true, isA_iff, beq_iff_eq]
    constructor
    · intro h
      exact ⟨list, hlist, h⟩
    · rintro ⟨list', hlist', h⟩
      rw [hlist, Option.some.injEq] at hlist'
      exact hlist' ▸ h
  · next hnone =>
    constructor
    · intro h
      exact absurd h List.not_mem_nil
    · rintro ⟨list, hlist, -⟩
      rw [hnone] at hlist
      exact absurd hlist (by simp only [reduceCtorEq, not_false_eq_true])

/-- An argument that is passed on stands in the call of another constructor. -/
theorem initializer_of_passedOn? {constructor argument : Place} {arguments : List Place}
    (h : arguments ∈ constructor.passedOn?) (hargument : argument ∈ arguments) :
    ∃ initializer, (∃ n, constructor.child? n = some initializer)
      ∧ initializer.kind = .constructorInitializer ∧ Below initializer argument := by
  rw [Option.mem_def, passedOn?] at h
  split at h
  · next initializer hinitializer =>
    split at h
    · obtain ⟨list, hlist, rfl⟩ := Option.map_eq_some_iff.1 h
      obtain ⟨hchild, hkind⟩ := child?_of_firstOf? hinitializer
      obtain ⟨⟨m, hm⟩, -⟩ := child?_of_firstOf? hlist
      obtain ⟨⟨⟨k, hk⟩, -⟩, -⟩ := mem_childrenOf.1 hargument
      exact ⟨initializer, hchild, hkind, .step (.step .refl hm) hk⟩
    · exact absurd h (by simp only [reduceCtorEq, not_false_eq_true])
  · exact absurd h (by simp only [reduceCtorEq, not_false_eq_true])

namespace RemovalPlan

/-- The constructor loses a parameter: a dead statement assigns it, and nothing
    else refers to it. -/
def Strips (plan : RemovalPlan) (constructor : Place) : Prop :=
  constructor ∈ plan.type.constructors ∧ (∃ list, constructor.ownParameterList? = some list)
    ∧ ∃ dead ∈ deadStatements constructor plan.symbol, ∃ right index text,
      dead.assignment.labelled? .right = some right ∧ right.kind = .identifier
        ∧ right.resolve? = some (.parameter constructor.span index text)
        ∧ feedsOnlyDead ⟨constructor, deadStatements constructor plan.symbol⟩
          (.parameter constructor.span index text) = true

/-- What a fix leaves of the head of a constructor. -/
structure Leaves (plan : RemovalPlan) (fix : Fix) (constructor : Place) : Prop where
  /-- What is declared is left or goes as a whole. -/
  whole : ∀ part ∈ constructor.declaredParts, fix.spares part = true ∨ fix.Covers part
  /-- The signature stays, unless a parameter is lost. -/
  kept : ¬plan.Strips constructor → fix.signatureLeft constructor = constructor.signature
  /-- Some of the signature stays in order, but not all of it. -/
  stripped : plan.Strips constructor →
    (fix.signatureLeft constructor).Sublist constructor.signature
      ∧ (fix.signatureLeft constructor).length < constructor.signature.length
  /-- The arguments that are passed on stay. -/
  passedOn : ∀ arguments ∈ constructor.passedOn?, ∀ argument ∈ arguments,
    fix.spares argument = true

namespace Leads

variable {plan : RemovalPlan} {document : Document} {anchor : Span} {fix : Fix}
  {type constructor : Place} {edit : Edit}

/-- An edit that meets a constructor is one of those made for it. -/
theorem edit_of_constructor (h : plan.Leads document anchor fix) (hsound : document.Sound)
    (hwalled : document.Walled) (htype : document.Has type)
    (hconstructor : constructor ∈ type.constructors) (hedit : edit ∈ fix.edits) :
    (edit.span.stop ≤ constructor.start ∨ constructor.stop ≤ edit.span.start)
      ∨ ∃ write ∈ plan.writes, write.constructor = constructor
        ∧ edit ∈ constructorEdits document write := by
  obtain ⟨hhas, hkind, -⟩ := htype.constructor hconstructor
  rcases List.mem_append.1 (h.mem_fix.1 hedit) with hedit | hedit
  · obtain ⟨write, hwrite, hedit⟩ := List.mem_flatMap.1 hedit
    obtain ⟨hown, hownKind⟩ := h.hasConstructor hwrite
    by_cases heq : write.constructor = constructor
    · exact .inr ⟨write, hwrite, heq, hedit⟩
    · -- Two constructors are not nested, so they lie apart.
      have hwithin := h.within_constructor hsound hwalled hwrite hedit
      have hstart := hwithin.start
      have hstop := hwithin.stop
      have hnot {p : Place} (habove : Below write.constructor p) : ¬Below constructor p :=
        fun hbelow => heq (hown.eq_of_sealed hhas hsound (by rw [hownKind]; rfl)
          (by rw [hkind]; rfl) (by rw [hownKind]; rfl) (by rw [hkind]; rfl) habove hbelow)
      rcases hown.nested hhas hsound with hbelow | hbelow | hapart | hapart
      · exact (hnot hbelow .refl).elim
      · exact (hnot .refl hbelow).elim
      · exact .inl (.inl (by omega))
      · exact .inl (.inr (by omega))
  · exact .inl (h.declaratorEdit_apart hsound hwalled hedit htype hconstructor)

/-- No edit meets the call of another constructor. -/
theorem spares_initializer (h : plan.Leads document anchor fix) (hsound : document.Sound)
    (hwalled : document.Walled) (htype : document.Has type)
    (hconstructor : constructor ∈ type.constructors) {n : Nat} {initializer : Place}
    (hn : constructor.child? n = some initializer)
    (hkind : initializer.kind = .constructorInitializer) : fix.spares initializer = true := by
  obtain ⟨hhas, -⟩ := htype.constructor hconstructor
  have hinside := hhas.child_span hsound hn
  refine Fix.spares_iff.2 fun edit hedit => ?_
  rcases h.edit_of_constructor hsound hwalled htype hconstructor hedit with
    hapart | ⟨write, hwrite, rfl, hedit⟩
  · omega
  rcases List.mem_append.1 hedit with hedit | hedit
  · obtain ⟨dead, hdead, rfl⟩ := List.mem_map.1 hedit
    exact h.deadStatementEdit_apart hsound hwalled hwrite hdead hn (by rw [hkind]; decide)
      (by rw [hkind]; decide) (by rw [hkind]; decide)
  · split at hedit
    · next list hlist =>
      -- The list is another child than the call.
      obtain ⟨-, hlistKind, m, hm⟩ := h.hasList hsound hwrite hlist
      have hwithin := h.parameterEdit_within hsound hwrite hlist hedit
      have hstart := hwithin.start
      have hstop := hwithin.stop
      rcases Nat.lt_trichotomy m n with hlt | rfl | hlt
      · have horder := hhas.child_order hsound hm hn hlt
        omega
      · rw [hm, Option.some.injEq] at hn
        rw [hn, hkind] at hlistKind
        exact absurd hlistKind (by decide)
      · have horder := hhas.child_order hsound hn hm hlt
        omega
    · exact absurd hedit List.not_mem_nil

/-- An edit that meets what a constructor declares is one of its list. -/
theorem edit_of_part (h : plan.Leads document anchor fix) (hsound : document.Sound)
    (hwalled : document.Walled) (htype : document.Has type)
    (hconstructor : constructor ∈ type.constructors) {list part : Place}
    (hlist : constructor.ownParameterList? = some list) {n : Nat} (hn : list.child? n = some part)
    (hedit : edit ∈ fix.edits) :
    (edit.span.stop ≤ part.start ∨ part.stop ≤ edit.span.start)
      ∨ part.span.within edit.span = true ∧ ∃ write ∈ plan.writes, write.constructor = constructor
        ∧ edit ∈ parameterEdits list (removedParameters write list.parameters.length) := by
  obtain ⟨hhas, hkind, -⟩ := htype.constructor hconstructor
  obtain ⟨⟨m, hm⟩, hlistKind⟩ := hhas.ownParameterList hsound hkind hlist
  have hinside := hhas.child_span hsound hm
  have hpart := (hhas.child hm).child_span hsound hn
  rcases h.edit_of_constructor hsound hwalled htype hconstructor hedit with
    hapart | ⟨write, hwrite, rfl, hedit⟩
  · exact .inl (by omega)
  rcases List.mem_append.1 hedit with hedit | hedit
  · obtain ⟨dead, hdead, rfl⟩ := List.mem_map.1 hedit
    have hapart := h.deadStatementEdit_apart hsound hwalled hwrite hdead hm
      (by rw [hlistKind]; decide) (by rw [hlistKind]; decide) (by rw [hlistKind]; decide)
    exact .inl (by omega)
  · rw [hlist] at hedit
    obtain ⟨hstart, hstop, -⟩ := h.parameterEdit_spec hsound hwrite hlist hedit
    -- The edit begins and ends between the children of the list.
    rcases hstart n part hn with hle | hle
    · exact .inl (.inr hle)
    · rcases hstop n part hn with hle' | hle'
      · exact .inr ⟨Span.within_iff.2 ⟨hle, hle'⟩, write, hwrite, rfl, hedit⟩
      · exact .inl (.inl hle')

/-- All that a constructor declares is left, unless a parameter is lost. -/
theorem spares_of_not_strips (h : plan.Leads document anchor fix) (hsound : document.Sound)
    (hwalled : document.Walled) (htype : document.Has type)
    (hconstructor : constructor ∈ type.constructors) (hnot : ¬plan.Strips constructor)
    {part : Place} (hpart : part ∈ constructor.declaredParts) : fix.spares part = true := by
  obtain ⟨list, hlist, ⟨n, hn⟩, -⟩ := mem_declaredParts.1 hpart
  refine Fix.spares_iff.2 fun edit hedit => ?_
  rcases h.edit_of_part hsound hwalled htype hconstructor hlist hn hedit with
    hapart | ⟨-, write, hwrite, rfl, hedit⟩
  · exact hapart
  -- An edit of the list is made for a parameter that goes.
  refine (hnot ?_).elim
  obtain ⟨hmem, hstatements, -⟩ := mem_writes hwrite
  by_cases hflags : ∀ n : Nat, (removedParameters write list.parameters.length)[n]? ≠ some true
  · rw [Document.parameterEdits_eq_nil hflags] at hedit
    exact absurd hedit List.not_mem_nil
  · obtain ⟨index, hflag⟩ := Classical.not_forall.1 hflags
    obtain ⟨dead, hdead, right, text, hright, hkind, hresolve, hfeeds⟩ :=
      Document.removedParameters_spec (Classical.not_not.1 hflag)
    have hwriteEq : write
        = ⟨write.constructor, deadStatements write.constructor plan.symbol⟩ := by
      rw [← hstatements]
    exact ⟨hmem, ⟨list, hlist⟩, dead, hstatements ▸ hdead, right, index, text, hright, hkind,
      hresolve, hwriteEq ▸ hfeeds⟩

/-- A constructor that loses a parameter loses all of its declaration. -/
theorem exists_covered_of_strips (h : plan.Leads document anchor fix) (hsound : document.Sound)
    (hstrips : plan.Strips constructor) : ∃ part ∈ constructor.declaredParts, fix.Covers part := by
  obtain ⟨hmem, ⟨list, hlist⟩, dead, hdead, right, index, text, hright, hkind, hresolve, hfeeds⟩ :=
    hstrips
  have hwrite := mem_writes_of_dead hmem hdead
  obtain ⟨hlistHas, hlistKind, -⟩ := h.hasList hsound hwrite hlist
  -- The parameter that the statement reads is one of the list, and has a name.
  have hlists := h.lexeme_of_fed hsound hwrite hlist hdead hright hresolve
  obtain ⟨hindex, hnamed, -⟩ := List.findIdx?_eq_some_iff_getElem.1 hlists
  obtain ⟨⟨⟨n, hn⟩, -⟩, hparameter⟩ := mem_childrenOf.1 (List.getElem_mem hindex)
  have hlexeme : list.parameters[index].node.lexeme = "" := by
    refine Classical.byContradiction fun hne => ?_
    rcases ((hlistHas.child hn).shaped hsound).leaf hne with hpragma | hleaf
    · exact absurd (hparameter.symm.trans hpragma) (by decide)
    · rw [isNamed] at hnamed
      split at hnamed
      · next name hname =>
        obtain ⟨k, hk⟩ := child?_of_name? hname
        exact absurd (mem_of_child? hk) (by rw [hleaf]; exact List.not_mem_nil)
      · exact absurd hnamed Bool.false_ne_true
  obtain ⟨edit, hedit, hwithin⟩ := hlistHas.exists_parameterEdit hsound hlistKind
    (Document.length_removedParameters _ _) (List.getElem?_eq_getElem hindex) hlexeme
    (Document.removed_of_feeds hdead hright hkind hresolve hfeeds hindex)
  exact ⟨list.parameters[index], mem_declaredParts.2 ⟨list, hlist, ⟨n, hn⟩, .inl hparameter⟩, edit,
    h.mem_fix.2 (mem_edits.2 (.inr (.inl ⟨_, hwrite, list, hlist, hedit⟩))), hwithin⟩

/-- What the fix leaves of the head of a constructor. -/
theorem leaves (h : plan.Leads document anchor fix) (hsound : document.Sound)
    (hwalled : document.Walled) (htype : document.Has type)
    (hconstructor : constructor ∈ type.constructors) : plan.Leaves fix constructor where
  whole part hpart := by
    obtain ⟨list, hlist, ⟨n, hn⟩, -⟩ := mem_declaredParts.1 hpart
    by_cases hspares : fix.spares part = true
    · exact .inl hspares
    · rw [Fix.spares_iff] at hspares
      simp only [Classical.not_forall] at hspares
      obtain ⟨edit, hedit, hnot⟩ := hspares
      rcases h.edit_of_part hsound hwalled htype hconstructor hlist hn hedit with
        hapart | ⟨hwithin, -⟩
      · exact absurd hapart hnot
      · exact .inr ⟨edit, hedit, hwithin⟩
  kept hnot := by
    rw [Fix.signatureLeft, signature, List.filter_eq_self.2 fun part hpart =>
      h.spares_of_not_strips hsound hwalled htype hconstructor hnot hpart]
  stripped hstrips := by
    refine ⟨List.filter_sublist.map _, ?_⟩
    -- A part that goes is covered by an edit, so the parts that stay are fewer.
    obtain ⟨part, hpart, hcovers⟩ := h.exists_covered_of_strips hsound hstrips
    rw [Fix.signatureLeft, signature, List.length_map, List.length_map]
    refine List.length_filter_lt_length_iff_exists.2 ⟨part, hpart, hcovers.not_spares ?_⟩
    obtain ⟨list, hlist, ⟨n, hn⟩, -⟩ := mem_declaredParts.1 hpart
    obtain ⟨hhas, hkind, -⟩ := htype.constructor hconstructor
    obtain ⟨⟨m, hm⟩, -⟩ := hhas.ownParameterList hsound hkind hlist
    exact ((hhas.child hm).child_span hsound hn).2.1
  passedOn arguments harguments argument hargument := by
    obtain ⟨initializer, ⟨n, hn⟩, hkind, hbelow⟩ := initializer_of_passedOn? harguments hargument
    have hspares := h.spares_initializer hsound hwalled htype hconstructor hn hkind
    have hinside := ((htype.constructor hconstructor).1.child hn).inside hsound hbelow
    exact Fix.spares_of_inside hspares hinside.1 hinside.2

end Leads

end RemovalPlan

/-! ### Constructors after a removal -/

/-- The fix for an unread field applies. It leaves every constructor of the
    document its signature, apart from those that lose a parameter, and every
    argument for another constructor. Constructors that differ come to agree
    only if one of them loses a parameter, and a constructor that a call is for
    still declares as many parameters unless it loses one. -/
theorem removeField_strips_only_fed {source : Text} {anchor : Span} {fix : Fix}
    (h : removeField (.parse source) anchor = .ok fix) :
    ∃ (plan : RemovalPlan) (after : Text), plan.Leads (.parse source) anchor fix
      ∧ fix.apply source = .ok after
      ∧ (∀ type ∈ (Document.parse source).types, ∀ constructor ∈ type.constructors,
          plan.Leaves fix constructor)
      ∧ ((Document.parse source).TellsApart signature →
          ∀ type ∈ (Document.parse source).types, type.constructors.Pairwise fun a b =>
            fix.signatureLeft a = fix.signatureLeft b → plan.Strips a ∨ plan.Strips b)
      ∧ ((Document.parse source).AnswersCalls signature →
          ∀ type ∈ (Document.parse source).types, ∀ constructor ∈ type.constructors,
            ∀ arguments ∈ constructor.passedOn?, ∃ other ∈ type.constructors,
              other.same constructor = false ∧ (plan.Strips other
                ∨ (fix.signatureLeft other).length = arguments.length)) := by
  have hsound := Document.parse_sound source
  have hwalled := Document.parse_walled source
  obtain ⟨plan, hplan⟩ := exists_plan h
  obtain ⟨after, hafter⟩ := (hplan.fits hsound hwalled).applies
  have hleaves {type constructor : Place} (htype : type ∈ (Document.parse source).types)
      (hconstructor : constructor ∈ type.constructors) : plan.Leaves fix constructor :=
    hplan.leaves hsound hwalled (mem_descendants.1 (List.mem_filter.1 htype).1) hconstructor
  refine ⟨plan, after, hplan, hafter,
    fun type htype constructor hconstructor => hleaves htype hconstructor, ?_, ?_⟩
  · intro hdiffer type htype
    refine (hdiffer type htype).imp_of_mem fun {a b} ha hb hne heq => ?_
    -- If neither loses a parameter, both signatures are as they were.
    refine Classical.byContradiction fun hnot => hne ?_
    rw [not_or] at hnot
    rw [← (hleaves htype ha).kept hnot.1, ← (hleaves htype hb).kept hnot.2]
    exact heq
  · intro hanswers type htype constructor hconstructor arguments harguments
    obtain ⟨other, hother, hsame, hlength⟩ :=
      hanswers type htype constructor hconstructor arguments harguments
    refine ⟨other, hother, hsame, ?_⟩
    by_cases hstrips : plan.Strips other
    · exact .inl hstrips
    · rw [(hleaves htype hother).kept hstrips]
      exact .inr hlength

/-- A constructor with a parameter that only feeds an unread field, and another
    one that calls it. -/
def callingSource : Text :=
  "class C \x7b private int _x; C(int x) \x7b _x = x; \x7d C() : this(0) \x7b \x7d \x7d".toList

set_option maxRecDepth 100000 in
theorem apply_removeField_of_calling :
    ((removeField (.parse callingSource) ⟨22, 24⟩).toOption.bind fun fix =>
      (fix.apply callingSource).toOption)
        = some "class C \x7b C() \x7b \x7d C() : this(0) \x7b \x7d \x7d".toList := by
  decide +kernel

/-- What the fix leaves of two constructors of which one calls the other. -/
theorem removeField_strips_only_fed_of_calling :
    ∃ fix, removeField (.parse callingSource) ⟨22, 24⟩ = .ok fix
      ∧ ∃ (plan : RemovalPlan) (after : Text), plan.Leads (.parse callingSource) ⟨22, 24⟩ fix
        ∧ fix.apply callingSource = .ok after
        ∧ (∀ type ∈ (Document.parse callingSource).types, ∀ constructor ∈ type.constructors,
            plan.Leaves fix constructor)
        ∧ ((Document.parse callingSource).TellsApart signature →
            ∀ type ∈ (Document.parse callingSource).types, type.constructors.Pairwise fun a b =>
              fix.signatureLeft a = fix.signatureLeft b → plan.Strips a ∨ plan.Strips b)
        ∧ ((Document.parse callingSource).AnswersCalls signature →
            ∀ type ∈ (Document.parse callingSource).types, ∀ constructor ∈ type.constructors,
              ∀ arguments ∈ constructor.passedOn?, ∃ other ∈ type.constructors,
                other.same constructor = false ∧ (plan.Strips other
                  ∨ (fix.signatureLeft other).length = arguments.length)) := by
  obtain ⟨fix, hfix, -⟩ := Option.bind_eq_some_iff.1 apply_removeField_of_calling
  exact ⟨fix, eq_ok_of_toOption hfix, removeField_strips_only_fed (eq_ok_of_toOption hfix)⟩

set_option maxRecDepth 100000 in
/-- A constructor that loses its parameter may become one that is there already,
    and leave a call without the constructor that it was for. -/
theorem stripped_constructor_collides :
    ¬∀ (source : Text) (anchor : Span) (fix : Fix) (after : Text),
      (Document.parse source).hasErrors = false →
      (Document.parse source).TellsApart signature →
      (Document.parse source).AnswersCalls signature →
      removeField (.parse source) anchor = .ok fix → fix.apply source = .ok after →
      (Document.parse after).TellsApart signature
        ∧ (Document.parse after).AnswersCalls signature := by
  intro hsafe
  obtain ⟨fix, hfix, happly⟩ := Option.bind_eq_some_iff.1 apply_removeField_of_calling
  have hbefore : (Document.parse callingSource).hasErrors = false
      ∧ (Document.parse callingSource).TellsApart signature
      ∧ (Document.parse callingSource).AnswersCalls signature := by
    decide +kernel
  have hfacts := hsafe callingSource ⟨22, 24⟩ fix _ hbefore.1 hbefore.2.1 hbefore.2.2
    (eq_ok_of_toOption hfix) (eq_ok_of_toOption happly)
  exact absurd hfacts.1 (by decide +kernel)

end SharpLint

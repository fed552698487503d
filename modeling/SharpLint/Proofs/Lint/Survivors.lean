import SharpLint.Proofs.Lint.Applicable

/-!
# What Survives a Removal

A removal drops the dead statements, the parameters that fed nothing else with
what stands between the parameters of their list, and the field. All other code
lies apart from its edits, and stands in the new text in the same order. What
stands between parameters is a comma, as a rule; but an array of parameters is
no parameter of its own to the list, and is dropped with its neighbours.

## Main definitions

* `RemovalPlan.Drops`: code that a removal takes out of the source.
* `Text.HoldsInOrder`: a text holds others, one after the other.

## Theorems

* `RemovalPlan.Leads.drops_of_meets`: What an edit meets is dropped.
* `Edit.Splices.holdsInOrder`: What lies apart from all edits is kept in order.
* `removeField_spares_the_rest`: Code that is not dropped survives.
-/

namespace SharpLint

open Text Place

/-! ### Texts in order -/

/-- The text holds the parts, one after the other. -/
inductive Text.HoldsInOrder : Text → List Text → Prop
  | nil {text : Text} : HoldsInOrder text []
  | cons {before part rest : Text} {parts : List Text} (tail : HoldsInOrder rest parts) :
      HoldsInOrder (before ++ part ++ rest) (part :: parts)

/-- The ink of a text holds the ink of the parts. -/
theorem Text.HoldsInOrder.ink {text : Text} {parts : List Text} (h : text.HoldsInOrder parts) :
    HoldsInOrder (text.filter isInk) (parts.map (·.filter isInk)) := by
  induction h with
  | nil => exact .nil
  | cons tail ih =>
      rw [List.filter_append, List.filter_append]
      exact .cons ih

/-- Parts of a text that lie apart from all edits stand in the new text in the
    same order. -/
theorem Edit.Splices.holdsInOrder {source rest new : Text} {edits : List Edit} (before : Text)
    (h : Splices (size before) rest edits new) (hsource : source = before ++ rest)
    (parts : List (Nat × Text)) (hholds : ∀ part ∈ parts, source.HoldsAt part.1 part.2)
    (hfrom : ∀ part ∈ parts, size before ≤ part.1)
    (hapart : ∀ part ∈ parts, ∀ edit ∈ edits,
      edit.span.stop ≤ part.1 ∨ part.1 + size part.2 ≤ edit.span.start)
    (hpairs : parts.Pairwise fun a b => a.1 + size a.2 ≤ b.1) :
    new.HoldsInOrder (parts.map Prod.snd) := by
  induction parts generalizing before rest new edits with
  | nil => exact .nil
  | cons part parts ih =>
      obtain ⟨offset, text⟩ := part
      obtain ⟨a, y, htext, hoffset⟩ := hholds _ List.mem_cons_self
      have hle : size before ≤ offset := hfrom _ List.mem_cons_self
      change size a = offset at hoffset
      subst hoffset
      rw [hsource, List.append_assoc] at htext
      obtain ⟨x, rfl, rfl⟩ := exists_append_of_size_le htext hle
      rw [← List.append_assoc] at h
      -- No edit meets the first part, so it is kept, and the others are behind it.
      obtain ⟨first, last, X, Y, rfl, rfl, -, hlast⟩ := h.around fun edit hedit => by
        have hpart := hapart _ List.mem_cons_self edit hedit
        simp only [size_append] at hpart ⊢
        omega
      have hlast : Splices (size (before ++ (x ++ text))) y last Y := by rwa [size_append before]
      have htail : Y.HoldsInOrder (parts.map Prod.snd) := by
        refine ih (before ++ (x ++ text)) hlast ?_
          (fun other hother => hholds other (List.mem_cons_of_mem _ hother)) (fun other hother => ?_)
          (fun other hother edit hedit => hapart other (List.mem_cons_of_mem _ hother) edit
            (List.mem_append_right _ hedit)) hpairs.tail
        · rw [hsource]
          simp only [List.append_assoc]
        · have hpair := List.rel_of_pairwise_cons hpairs hother
          simp only [size_append] at hpair ⊢
          omega
      exact .cons htail

/-! ### What is dropped -/

namespace RemovalPlan

/-- The removal takes the code out of the source. -/
inductive Drops (plan : RemovalPlan) (document : Document) (code : Place) : Prop
  /-- It is part of a dead statement. -/
  | statement {write : ConstructorWrites} {dead : DeadStatement} (hwrite : write ∈ plan.writes)
      (hdead : dead ∈ write.statements) (hbelow : Below dead.statement code)
  /-- It stands in a constructor that is one dead expression, from the arrow on. -/
  | body {write : ConstructorWrites} {dead : DeadStatement} {n : Nat} {node : Place}
      (hwrite : write ∈ plan.writes) (hdead : dead ∈ write.statements) (hbody : dead.isBody = true)
      (hchild : write.constructor.child? n = some node) (hle : dead.statement.start ≤ node.start)
      (hbelow : Below node code)
  /-- It is part of a parameter that goes. -/
  | parameter {write : ConstructorWrites} {list parameter : Place} {n : Nat}
      (hwrite : write ∈ plan.writes) (hlist : write.constructor.ownParameterList? = some list)
      (hparameter : list.parameters[n]? = some parameter)
      (hremoved : (removedParameters write list.parameters.length)[n]? = some true)
      (hbelow : Below parameter code)
  /-- It stands in an edit of a parameter list and is part of no parameter: it is
      a comma, or an array of parameters. -/
  | listed {write : ConstructorWrites} {list node : Place} {edit : Edit} {n : Nat}
      (hwrite : write ∈ plan.writes) (hlist : write.constructor.ownParameterList? = some list)
      (hedit : edit ∈ parameterEdits list (removedParameters write list.parameters.length))
      (hchild : list.child? n = some node) (hkind : node.kind ≠ .parameter)
      (hwithin : node.span.within edit.span = true) (hbelow : Below node code)
  /-- It is part of the declarator of the field. -/
  | declarator (hbelow : Below plan.declarator code)
  /-- It stands between the declarators of a declaration of several fields. -/
  | declared {edit : Edit} {n : Nat} {node : Place}
      (hedit : edit ∈ declaratorEdits document plan.field plan.declaration plan.declarator)
      (hchild : plan.declaration.child? n = some node) (hkind : node.kind ≠ .variableDeclarator)
      (hwithin : node.span.within edit.span = true) (hbelow : Below node code)
  /-- It is part of the declaration, which declares no other field. -/
  | field (hsole : ¬1 < (plan.declaration.childrenOf .variableDeclarator).length)
      (hbelow : Below plan.field code)

variable {plan : RemovalPlan} {document : Document} {anchor : Span} {fix : Fix}

/-- What an edit takes is dropped with all that is below it. -/
theorem Leads.drops_of_takes (h : plan.Leads document anchor fix) (hsound : document.Sound)
    {edit : Edit} {node code : Place} (htakes : plan.Takes document edit node)
    (hbelow : Below node code) : plan.Drops document code := by
  cases htakes with
  | statement hwrite hdead _ => exact .statement hwrite hdead hbelow
  | body hwrite hdead hbody hchild hle => exact .body hwrite hdead hbody hchild hle hbelow
  | @item write list _ n _ hwrite hlist hedit hchild hwithin =>
      -- Of a list the edits take flagged parameters and what stands between them.
      by_cases hkind : node.kind = .parameter
      · have hmem : node ∈ list.parameters :=
          mem_childrenOf.2 ⟨⟨⟨n, hchild⟩, by rw [hkind]; rfl⟩, hkind⟩
        obtain ⟨k, hk⟩ := List.getElem?_of_mem hmem
        have hlistHas := (h.hasList hsound hwrite hlist).1
        exact .parameter hwrite hlist hk (hlistHas.removed_of_parameterEdits hsound
          (Document.length_removedParameters _ _) hedit hk hwithin) hbelow
      · exact .listed hwrite hlist hedit hchild hkind hwithin hbelow
  | declarator hmany hedit hchild hwithin =>
      by_cases hkind : node.kind = .variableDeclarator
      · exact .declarator (h.eq_declarator hsound hmany hedit hchild hkind hwithin ▸ hbelow)
      · exact .declared hedit hchild hkind hwithin hbelow
  | field hsole => exact .field hsole hbelow

/-- Code that an edit meets is dropped. -/
theorem Leads.drops_of_meets (h : plan.Leads document anchor fix) (hsound : document.Sound)
    {code : Place} (hcode : document.Piece code) {edit : Edit} (hedit : edit ∈ fix.edits)
    (hmeets : code.span.Meets edit.span) : plan.Drops document code := by
  obtain ⟨node, htakes, hbelow⟩ := h.exists_takes hsound hcode hedit hmeets
  exact h.drops_of_takes hsound htakes hbelow

end RemovalPlan

/-! ### What survives -/

/-- The fix for an unread field applies, and all code that it does not drop
    stands in the new text in the same order, but for blanks in it. -/
theorem removeField_spares_the_rest {source : Text} {anchor : Span} {fix : Fix}
    (h : removeField (.parse source) anchor = .ok fix) :
    ∃ (plan : RemovalPlan) (after : Text), plan.Leads (.parse source) anchor fix ∧ fix.apply source = .ok after
      ∧ ∀ pieces : List Place, (∀ piece ∈ pieces, (Document.parse source).Piece piece
          ∧ ¬plan.Drops (.parse source) piece) →
        pieces.Pairwise (fun a b => a.stop ≤ b.start) →
        HoldsInOrder (after.filter isInk)
          (pieces.map fun piece => (source.slice piece.span).filter isInk) := by
  have hsound := Document.parse_sound source
  obtain ⟨plan, hplan⟩ := exists_plan h
  obtain ⟨fix', hfix', hfits⟩ := hplan.toStands.fits hsound (Document.parse_walled source)
  rw [h, Except.ok.injEq] at hfix'
  subst hfix'
  obtain ⟨spliced, hspliced⟩ : ∃ new, Edit.Splices 0 source fix.edits new :=
    Edit.exists_splices [] source hfits.inChain hfits.fitsIn fun _ _ => Nat.zero_le _
  refine ⟨plan, tidy spliced (Edit.landed 0 0 fix.edits), hplan, ?_, fun pieces hpieces hpairs => ?_⟩
  · rw [Fix.apply, Fix.applyEdits, hspliced.splice?_eq]
  -- Each piece with the place and the text that it has in the source.
  have hholds : ∀ piece ∈ pieces, source.HoldsAt piece.start (source.slice piece.span)
      ∧ piece.start + size (source.slice piece.span) = piece.stop := by
    intro piece hpiece
    obtain ⟨text, hholds, hsize, -⟩ := (hpieces piece hpiece).1.solid
    have hslice : source.slice piece.span = text :=
      slice_eq_of_slice? (slice?_eq_some_iff_holdsAt.2 ⟨hholds, hsize⟩)
    rw [hslice]
    exact ⟨hholds, hsize⟩
  have hkept := hspliced.holdsInOrder [] rfl
    (pieces.map fun piece => (piece.start, source.slice piece.span))
    (fun part hpart => by
      obtain ⟨piece, hpiece, rfl⟩ := List.mem_map.1 hpart
      exact (hholds piece hpiece).1)
    (fun part _ => Nat.zero_le part.1)
    (fun part hpart edit hedit => by
      obtain ⟨piece, hpiece, rfl⟩ := List.mem_map.1 hpart
      obtain ⟨hcode, hnot⟩ := hpieces piece hpiece
      have hmeets : ¬piece.span.Meets edit.span := fun hmeets =>
        hnot (hplan.drops_of_meets hsound hcode hedit hmeets)
      have hstop := (hholds piece hpiece).2
      simp only [Span.Meets] at hmeets
      change ¬(piece.start < edit.span.stop ∧ edit.span.start < piece.stop) at hmeets
      simp only
      omega)
    (List.pairwise_map.2 (List.Pairwise.imp_of_mem (fun {a b} ha _ hab => by
      have hstop := (hholds a ha).2
      simp only
      omega) hpairs))
  have hink := hkept.ink
  rw [List.map_map, List.map_map] at hink
  rw [(tidied_tidy spliced _).ink]
  exact hink

/-- The rest of the type survives the removal of its unread field. -/
theorem removeField_spares_the_rest_of_type :
    ∃ fix, removeField (.parse unreadSource) ⟨22, 24⟩ = .ok fix
      ∧ ∃ (plan : RemovalPlan) (after : Text), plan.Leads (.parse unreadSource) ⟨22, 24⟩ fix
        ∧ fix.apply unreadSource = .ok after
        ∧ ∀ pieces : List Place, (∀ piece ∈ pieces, (Document.parse unreadSource).Piece piece
            ∧ ¬plan.Drops (.parse unreadSource) piece) →
          pieces.Pairwise (fun a b => a.stop ≤ b.start) →
          HoldsInOrder (after.filter isInk)
            (pieces.map fun piece => (unreadSource.slice piece.span).filter isInk) := by
  obtain ⟨fix, hfix⟩ := Option.isSome_iff_exists.1
    (show (removeField (.parse unreadSource) ⟨22, 24⟩).toOption.isSome = true by decide +kernel)
  exact ⟨fix, eq_ok_of_toOption hfix, removeField_spares_the_rest (eq_ok_of_toOption hfix)⟩

/-- A constructor with a parameter that only feeds an unread field, and an array
    of further ones. -/
def arraySource : Text :=
  "class C \x7b private int _x; C(int x, params int[] rest) \x7b _x = x; \x7d \x7d".toList

set_option maxRecDepth 100000 in
/-- An array of parameters goes with the last of the parameters beside it. -/
theorem array_is_dropped :
    ((removeField (.parse arraySource) ⟨22, 24⟩).toOption.bind fun fix =>
        (fix.apply arraySource).toOption) = some "class C \x7b C() \x7b \x7d \x7d".toList
      ∧ ∃ name ∈ (Document.parse arraySource).root.descendants, name.kind = .identifier
        ∧ name.lexeme = "rest" ∧ name.role = .declaration := by
  decide +kernel

end SharpLint

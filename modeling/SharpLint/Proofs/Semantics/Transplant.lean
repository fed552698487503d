import SharpLint.Proofs.Semantics.Scope

/-!
# Subtrees in Other Surroundings

A subtree can be looked at as a tree of its own. In a document it stands a
number of bytes further on, and its root has ancestors. What is asked about a
node below the root, and is answered within the subtree, has the same answer in
both, carried over: each definition commutes with `Place.under`. Questions that
go up, for parents, ancestors and scopes, commute as long as the answer is found
in the subtree.

## Main definitions

* `Tree.shift`, `Symbol.shift`: the tree, and a symbol of it, some bytes on.
* `Place.under`: a node of the subtree, in the surroundings of another node.

## Theorems

* `Place.descendants_under`, `Place.ancestors_under`: The nodes below and above.
* `Place.lookup?_under`: What a scope of the subtree declares.
* `Place.resolve?_under`: What a name stands for, if the root declares it.
-/

namespace SharpLint

/-- The span `k` bytes further on. -/
def Span.shift (k : Nat) (span : Span) : Span :=
  ⟨span.start + k, span.stop + k⟩

theorem Span.shift_inj {k : Nat} {a b : Span} : a.shift k = b.shift k ↔ a = b := by
  constructor
  · intro h
    rw [shift, shift, Span.mk.injEq] at h
    have hstart : a.start = b.start := by omega
    have hstop : a.stop = b.stop := by omega
    cases a
    cases b
    simp only at hstart hstop
    rw [hstart, hstop]
  · rintro rfl
    rfl

theorem Span.within_shift (k : Nat) (inner outer : Span) :
    (inner.shift k).within (outer.shift k) = inner.within outer := by
  rw [Bool.eq_iff_iff, within_iff, within_iff]
  simp only [shift]
  omega

namespace Tree

mutual

/-- The tree `k` bytes further on. -/
def shift (k : Nat) : Tree → Tree
  | ⟨kind, label, span, lexeme, children⟩ =>
    ⟨kind, label, span.shift k, lexeme, shiftAll k children⟩

/-- The trees `k` bytes further on. -/
def shiftAll (k : Nat) : List Tree → List Tree
  | [] => []
  | tree :: trees => shift k tree :: shiftAll k trees

end

mutual

/-- Whether two trees are the same. -/
def decEq : (a b : Tree) → Decidable (a = b)
  | ⟨kind, label, span, lexeme, children⟩, ⟨kind', label', span', lexeme', children'⟩ =>
    if htop : kind = kind' ∧ label = label' ∧ span = span' ∧ lexeme = lexeme' then
      match decEqAll children children' with
      | .isTrue hchildren => .isTrue (by
          obtain ⟨rfl, rfl, rfl, rfl⟩ := htop
          rw [hchildren])
      | .isFalse hchildren => .isFalse fun heq => hchildren (Tree.mk.inj heq).2.2.2.2
    else .isFalse fun heq =>
      have ⟨hkind, hlabel, hspan, hlexeme, _⟩ := Tree.mk.inj heq
      htop ⟨hkind, hlabel, hspan, hlexeme⟩

/-- Whether two lists of trees are the same. -/
def decEqAll : (a b : List Tree) → Decidable (a = b)
  | [], [] => .isTrue rfl
  | [], _ :: _ => .isFalse (List.cons_ne_nil _ _).symm
  | _ :: _, [] => .isFalse (List.cons_ne_nil _ _)
  | a :: as, b :: bs =>
    match decEq a b, decEqAll as bs with
    | .isTrue hhead, .isTrue htail => .isTrue (by rw [hhead, htail])
    | .isFalse hhead, _ => .isFalse fun heq => hhead (List.cons.inj heq).1
    | _, .isFalse htail => .isFalse fun heq => htail (List.cons.inj heq).2

end

instance : DecidableEq Tree := decEq

variable (k : Nat) (tree : Tree)

theorem shiftAll_eq (trees : List Tree) : shiftAll k trees = trees.map (shift k) := by
  induction trees with
  | nil => rfl
  | cons tree trees ih => rw [shiftAll, ih, List.map_cons]

@[simp] theorem shift_kind : (tree.shift k).kind = tree.kind := by
  cases tree
  rfl

@[simp] theorem shift_label : (tree.shift k).label = tree.label := by
  cases tree
  rfl

@[simp] theorem shift_span : (tree.shift k).span = tree.span.shift k := by
  cases tree
  rfl

@[simp] theorem shift_lexeme : (tree.shift k).lexeme = tree.lexeme := by
  cases tree
  rfl

@[simp] theorem shift_children : (tree.shift k).children = tree.children.map (shift k) := by
  cases tree
  exact shiftAll_eq k _

end Tree

namespace Symbol

/-- The symbol of a tree `k` bytes further on. -/
def shift (k : Nat) : Symbol → Symbol
  | .field owner name => .field (owner.shift k) name
  | .parameter owner index name => .parameter (owner.shift k) index name
  | .variable declarator name => .variable (declarator.shift k) name

theorem shift_inj {k : Nat} {a b : Symbol} : a.shift k = b.shift k ↔ a = b := by
  cases a <;> cases b <;>
    simp only [shift, field.injEq, parameter.injEq, variable.injEq, Span.shift_inj, reduceCtorEq]

end Symbol

namespace Place

/-- The node of a tree that stands alone, where the tree stands in place of
    `top`, with its root `k` bytes further on. -/
def under (p top : Place) (k : Nat) : Place :=
  ⟨p.node.shift k, p.above.map (fun step => (step.1.shift k, step.2)) ++ top.above⟩

variable {p q scope name : Place} {top : Place} {k : Nat}

/-! ### The node, its children and what is below it -/

@[simp] theorem under_kind : (p.under top k).kind = p.kind := Tree.shift_kind k p.node

@[simp] theorem under_lexeme : (p.under top k).lexeme = p.lexeme := Tree.shift_lexeme k p.node

@[simp] theorem under_span : (p.under top k).span = p.span.shift k := Tree.shift_span k p.node

@[simp] theorem under_label : (p.under top k).node.label = p.node.label :=
  Tree.shift_label k p.node

@[simp] theorem isA_under (kind : Kind) : (p.under top k).isA kind = p.isA kind := by
  rw [isA, isA, under, Tree.shift_kind]

/-- The root of the tree is `top` itself. -/
theorem root_under {tree : Tree} (h : top.node = tree.shift k) : (root tree).under top k = top := by
  cases top with
  | mk node above => exact congrArg (Place.mk · above) (Eq.symm h)

@[simp] theorem same_under : (p.under top k).same (q.under top k) = p.same q := by
  have hpath (place : Place) : (place.under top k).path = place.path ++ top.path := by
    rw [path, under, List.map_append, List.map_map]
    rfl
  rw [same, same, hpath, hpath, Bool.eq_iff_iff, beq_iff_eq, beq_iff_eq, List.append_left_inj]

@[simp] theorem children_under :
    (p.under top k).children = p.children.map (·.under top k) := by
  refine List.ext_getElem? fun n => ?_
  simp only [children, under, Tree.shift_children, List.getElem?_mapIdx, List.getElem?_map,
    Option.map_map, Function.comp_def, List.map_cons, List.cons_append]

@[simp] theorem namedChildren_under :
    (p.under top k).namedChildren = p.namedChildren.map (·.under top k) := by
  simp only [namedChildren, children_under, List.filter_map, Function.comp_def, under_kind]

@[simp] theorem childrenOf_under (kind : Kind) :
    (p.under top k).childrenOf kind = (p.childrenOf kind).map (·.under top k) := by
  simp only [childrenOf, namedChildren_under, List.filter_map, Function.comp_def, isA_under]

@[simp] theorem firstOf?_under (kind : Kind) :
    (p.under top k).firstOf? kind = (p.firstOf? kind).map (·.under top k) := by
  simp only [firstOf?, namedChildren_under, List.find?_map, Function.comp_def, isA_under]

@[simp] theorem labelled?_under (label : Label) :
    (p.under top k).labelled? label = (p.labelled? label).map (·.under top k) := by
  simp only [labelled?, children_under, List.find?_map, Function.comp_def, under_label]

@[simp] theorem plays_under (label : Label) :
    (p.under top k).plays (q.under top k) label = p.plays q label := by
  rw [plays, plays, labelled?_under]
  cases q.labelled? label with
  | none => rfl
  | some child => exact same_under

@[simp] theorem name?_under : (p.under top k).name? = p.name?.map (·.under top k) := by
  rw [name?, name?, labelled?_under, firstOf?_under]
  cases p.labelled? .name with
  | none => rfl
  | some child => rfl

@[simp] theorem isNamed_under (text : String) :
    (p.under top k).isNamed text = p.isNamed text := by
  rw [isNamed, isNamed, name?_under]
  cases p.name? with
  | none => rfl
  | some found => exact congrArg (· == text) under_lexeme

mutual

theorem nodesFrom_shift (above : List (Tree × Nat)) : (tree : Tree) →
    nodesFrom (above.map (fun step => (step.1.shift k, step.2)) ++ top.above) (tree.shift k)
      = (nodesFrom above tree).map (·.under top k)
  | ⟨kind, label, span, lexeme, children⟩ => by
    rw [Tree.shift, nodesFrom, nodesFrom, List.map_cons]
    exact congrArg _ (nodesFromAll_shift ⟨kind, label, span, lexeme, children⟩ above 0 children)

theorem nodesFromAll_shift (parent : Tree) (above : List (Tree × Nat)) (n : Nat) :
    (trees : List Tree) →
    nodesFromAll (parent.shift k)
        (above.map (fun step => (step.1.shift k, step.2)) ++ top.above) n (Tree.shiftAll k trees)
      = (nodesFromAll parent above n trees).map (·.under top k)
  | [] => by rw [Tree.shiftAll, nodesFromAll, nodesFromAll, List.map_nil]
  | tree :: trees => by
    rw [Tree.shiftAll, nodesFromAll, nodesFromAll, List.map_append,
      nodesFromAll_shift parent above (n + 1) trees]
    exact congrArg (· ++ _) (nodesFrom_shift ((parent, n) :: above) tree)

end

theorem descendants_under : (p.under top k).descendants = p.descendants.map (·.under top k) :=
  nodesFrom_shift p.above p.node

/-! ### What is above a node -/

/-- What has ancestors in the tree has a parent in it. -/
theorem parent?_under (h : p.above ≠ []) :
    (p.under top k).parent? = p.parent?.map (·.under top k) := by
  unfold parent? under
  cases habove : p.above with
  | nil => exact absurd habove h
  | cons step above => rfl

theorem next?_under (h : p.above ≠ []) : (p.under top k).next? = p.next?.map (·.under top k) := by
  unfold next? sibling? under
  cases habove : p.above with
  | nil => exact absurd habove h
  | cons step above =>
      simp only [List.map_cons, List.cons_append, Tree.shift_children, List.getElem?_map,
        Option.map_map]
      rfl

/-- Above a node stand its ancestors in the tree and those of the root. -/
theorem ancestors_under :
    (p.under top k).ancestors = p.ancestors.map (·.under top k) ++ top.ancestors := by
  have hfrom (above : List (Tree × Nat)) :
      ancestorsFrom (above.map (fun step => (step.1.shift k, step.2)) ++ top.above)
        = (ancestorsFrom above).map (·.under top k) ++ ancestorsFrom top.above := by
    induction above with
    | nil => rfl
    | cons step above ih =>
        rw [List.map_cons, List.cons_append, ancestorsFrom, ancestorsFrom, ih]
        rfl
  exact hfrom p.above

theorem ancestor?_under {ok : Kind → Bool} {found : Place} (h : p.ancestor? ok = some found) :
    (p.under top k).ancestor? ok = some (found.under top k) := by
  rw [ancestor?] at h
  simp only [ancestor?, ancestors_under, List.find?_append, List.find?_map, Function.comp_def,
    under_kind, h, Option.map_some, Option.some_or]

/-! ### What types and members hold -/

theorem members_under : (p.under top k).members = p.members.map (·.under top k) := by
  rw [members, members, firstOf?_under]
  cases p.firstOf? .declarationList with
  | none => rfl
  | some body => exact namedChildren_under

theorem fieldDeclarators_under :
    (p.under top k).fieldDeclarators = p.fieldDeclarators.map (·.under top k) := by
  simp only [fieldDeclarators, members_under, List.filter_map, Function.comp_def, isA_under,
    List.flatMap_map, List.map_flatMap]
  refine congrArg (List.flatMap · _) (funext fun field => ?_)
  rw [firstOf?_under]
  cases field.firstOf? .variableDeclaration with
  | none => rfl
  | some declaration => exact childrenOf_under _

theorem constructors_under :
    (p.under top k).constructors = p.constructors.map (·.under top k) := by
  simp only [constructors, members_under, List.filter_map, Function.comp_def, isA_under]

theorem body?_under : (p.under top k).body? = p.body?.map (·.under top k) := by
  simp only [body?, namedChildren_under, List.find?_map, Function.comp_def, isA_under]

theorem modifiers_under : (p.under top k).modifiers = p.modifiers := by
  simp only [modifiers, childrenOf_under, List.map_map, Function.comp_def, under_lexeme]

/-! ### Scopes -/

theorem lookupField?_under (text : String) :
    (p.under top k).lookupField? text = (p.lookupField? text).map (Symbol.shift k) := by
  simp only [lookupField?, fieldDeclarators_under, List.any_map, Function.comp_def, isNamed_under,
    under_span]
  split
  · rfl
  · rfl

theorem lookupDeclarators?_under (text : String) :
    (p.under top k).lookupDeclarators? text = (p.lookupDeclarators? text).map (Symbol.shift k) := by
  rw [lookupDeclarators?, lookupDeclarators?, firstOf?_under]
  cases p.firstOf? .variableDeclaration with
  | none => rfl
  | some declaration =>
      simp only [Option.map_some, childrenOf_under, List.find?_map, Function.comp_def,
        isNamed_under, Option.map_map, under_span, Symbol.shift]

theorem lookupParameters?_under (text : String) :
    (p.under top k).lookupParameters? (q.under top k) text
      = (p.lookupParameters? q text).map (Symbol.shift k) := by
  simp only [lookupParameters?, parameters, childrenOf_under, List.findIdx?_map, Function.comp_def,
    isNamed_under, Option.map_map, under_span, Symbol.shift]

theorem lookupOwnParameters?_under (text : String) :
    (p.under top k).lookupOwnParameters? text
      = (p.lookupOwnParameters? text).map (Symbol.shift k) := by
  rw [lookupOwnParameters?, lookupOwnParameters?, firstOf?_under]
  cases p.firstOf? .parameterList with
  | none => rfl
  | some list => exact lookupParameters?_under text

theorem lookupLambda?_under (text : String) :
    (p.under top k).lookupLambda? text = (p.lookupLambda? text).map (Symbol.shift k) := by
  rw [lookupLambda?, lookupLambda?, labelled?_under]
  cases p.labelled? .parameters with
  | none => rfl
  | some parameters =>
      simp only [Option.map_some, isA_under, under_lexeme, under_span, lookupParameters?_under]
      split
      · split
        · rfl
        · rfl
      · rfl

/-- The block around a node below it is found in the tree. -/
theorem declaresIn_under {tree : Tree} {block : Place} (hblock : Below (root tree) block)
    (hkind : block.kind = .block) (h : Below block p) :
    (p.under top k).declaresIn (block.under top k) = p.declaresIn block := by
  rw [declaresIn, declaresIn, isA_under, isA_under]
  cases hdeclares : p.isA .declarationExpression || p.isA .declarationPattern with
  | false => rfl
  | true =>
      -- So the node is not the block, which is then among its ancestors.
      have hmem : block ∈ p.ancestors := by
        rcases h.last with rfl | ⟨n, parent, hn, hbelow⟩
        · rw [Bool.or_eq_true, isA_iff, isA_iff, hkind] at hdeclares
          rcases hdeclares with heq | heq
          · exact absurd heq (by decide)
          · exact absurd heq (by decide)
        · exact (mem_ancestors (hblock.trans h)).2
            ⟨parent, parent?_of_child? hn, hblock, hbelow⟩
      have hsome : (p.ancestor? (· == .block)).isSome = true := by
        rw [ancestor?, List.find?_isSome]
        exact ⟨block, hmem, beq_iff_eq.2 hkind⟩
      obtain ⟨nearest, hnearest⟩ := Option.isSome_iff_exists.1 hsome
      simp only [hnearest, ancestor?_under hnearest, same_under]

theorem lookupBlock?_under {tree : Tree} (hscope : Below (root tree) scope)
    (hkind : scope.kind = .block) (text : String) :
    (scope.under top k).lookupBlock? text = (scope.lookupBlock? text).map (Symbol.shift k) := by
  have hdeclares : (scope.under top k).descendants.filter (·.declaresIn (scope.under top k))
      = (scope.descendants.filter (·.declaresIn scope)).map (·.under top k) := by
    rw [descendants_under, List.filter_map]
    refine congrArg _ (List.filter_congr fun place hplace => ?_)
    exact declaresIn_under hscope hkind (mem_descendants.1 hplace)
  have hstatements : ((scope.under top k).childrenOf .localDeclarationStatement).findSome?
        (·.lookupDeclarators? text)
      = ((scope.childrenOf .localDeclarationStatement).findSome?
        (·.lookupDeclarators? text)).map (Symbol.shift k) := by
    simp only [childrenOf_under, List.findSome?_map, Function.comp_def, lookupDeclarators?_under,
      List.map_findSome?]
  rw [lookupBlock?, lookupBlock?, hstatements, hdeclares]
  cases (scope.childrenOf .localDeclarationStatement).findSome? (·.lookupDeclarators? text) with
  | some symbol => rfl
  | none =>
      simp only [Option.map_none, List.find?_map, Function.comp_def, isNamed_under, Option.map_map,
        under_span, Symbol.shift]

/-- A scope of the tree declares the same. -/
theorem lookup?_under {tree : Tree} (hscope : Below (root tree) scope) (text : String) :
    (scope.under top k).lookup? text = (scope.lookup? text).map (Symbol.shift k) := by
  unfold lookup?
  rw [under_kind]
  -- The cases are those of the lookup; each reads labels, kinds and names, which do not move.
  split
  · next hkind => exact lookupBlock?_under hscope hkind text
  · exact lookupDeclarators?_under text
  · exact lookupDeclarators?_under text
  · rw [labelled?_under]
    cases scope.labelled? .left with
    | none => rfl
    | some left =>
        simp only [Option.map_some, isA_under, under_lexeme, under_span]
        split
        · rfl
        · rfl
  · rw [firstOf?_under]
    cases scope.firstOf? .catchDeclaration with
    | none => rfl
    | some declaration =>
        simp only [Option.map_some, isNamed_under, under_span]
        split
        · rfl
        · rfl
  · exact lookupLambda?_under text
  · rw [lookupField?_under, lookupOwnParameters?_under]
    split
    · cases scope.lookupField? text with
      | none => rfl
      | some symbol => rfl
    · rfl

/-! ### Names -/

theorem isNameOf_under : (p.under top k).isNameOf (q.under top k) = p.isNameOf q := by
  rw [isNameOf, isNameOf, plays_under, name?_under]
  cases q.name? with
  | none => rfl
  | some found => exact congrArg _ same_under

theorem roleIn_under : (p.under top k).roleIn (q.under top k) = p.roleIn q := by
  simp only [roleIn, isA_under, plays_under, isNameOf_under, under_kind, labelled?_under]
  cases q.labelled? .expression with
  | none => rfl
  | some receiver => simp only [Option.map_some, under_lexeme]

theorem role_under (h : p.above ≠ []) : (p.under top k).role = p.role := by
  rw [role, role, parent?_under h]
  cases p.parent? with
  | none => rfl
  | some parent => exact roleIn_under

/-- A node of another kind than the root stands below it. -/
theorem above_ne_nil {tree : Tree} (h : Below (root tree) p) (hkind : p.kind ≠ tree.kind) :
    p.above ≠ [] := by
  rcases h.last with rfl | ⟨n, parent, hn, -⟩
  · exact absurd rfl hkind
  · rw [(child?_eq_some.1 hn).2]
    exact List.cons_ne_nil _ _

theorem kind_ne_of_isTypeDeclaration {tree : Tree} (hkind : tree.kind.isTypeDeclaration = true)
    {kind : Kind} (h : kind.isTypeDeclaration = false) : kind ≠ tree.kind := by
  rintro rfl
  exact absurd (h.symm.trans hkind) Bool.false_ne_true

/-- A name stands for the same in the tree and under `top`, if the root of the
    tree declares a field of the name: no scope above the root is asked. -/
theorem resolve?_under {tree : Tree} (hkind : tree.kind.isTypeDeclaration = true)
    (hname : Below (root tree) name) (hrole : name.role ≠ .declaration) {field : Symbol}
    (hfield : (root tree).lookupField? name.lexeme = some field) :
    (name.under top k).resolve? = name.resolve?.map (Symbol.shift k) := by
  rw [resolve?, resolve?, isA_under]
  by_cases hidentifier : name.isA .identifier = true
  · have habove : name.above ≠ [] :=
      above_ne_nil hname (isA_iff.1 hidentifier ▸ kind_ne_of_isTypeDeclaration hkind rfl)
    have hroot : root tree ∈ name.ancestors := by
      rcases hname.last with rfl | ⟨n, parent, hn, hbelow⟩
      · exact absurd rfl habove
      · exact (mem_ancestors hname).2 ⟨parent, parent?_of_child? hn, .refl, hbelow⟩
    rw [if_pos hidentifier, if_pos hidentifier, role_under habove, under_lexeme]
    cases hcase : name.role with
    | declaration => exact absurd hcase hrole
    | foreignMember => rfl
    | nonExpression => rfl
    | thisMember =>
        -- The type around the name is the root or below it.
        have hsome : (name.ancestor? Kind.isTypeDeclaration).isSome = true := by
          rw [ancestor?, List.find?_isSome]
          exact ⟨root tree, hroot, hkind⟩
        obtain ⟨type, htype⟩ := Option.isSome_iff_exists.1 hsome
        simp only [enclosingType?, htype, ancestor?_under htype, lookupField?_under]
    | simple =>
        -- The first scope to declare the name is the root or below it.
        have hlookup : (root tree).lookup? name.lexeme = some field :=
          lookup?_of_lookupField? hkind hfield
        have hsome : (name.ancestors.findSome? (·.lookup? name.lexeme)).isSome = true := by
          rw [List.findSome?_isSome_iff]
          exact ⟨root tree, hroot, by rw [hlookup]; rfl⟩
        obtain ⟨symbol, hsymbol⟩ := Option.isSome_iff_exists.1 hsome
        obtain ⟨inner, scope, outer, hancestors, hscope, hinner⟩ :=
          List.findSome?_eq_some_iff.1 hsymbol
        have hbelow (scope : Place) (hmem : scope ∈ name.ancestors) : Below (root tree) scope :=
          (below_of_mem_ancestors hname hmem).1
        have hunder : (name.under top k).ancestors.findSome? (·.lookup? name.lexeme)
            = some (symbol.shift k) := by
          rw [List.findSome?_eq_some_iff]
          refine ⟨inner.map (·.under top k), scope.under top k,
            outer.map (·.under top k) ++ top.ancestors, ?_, ?_, ?_⟩
          · rw [ancestors_under, hancestors, List.map_append, List.map_cons, List.append_assoc,
              List.cons_append]
          · rw [lookup?_under (hbelow scope (by
              rw [hancestors]
              exact List.mem_append_right _ List.mem_cons_self)), hscope]
            rfl
          · intro place hplace
            obtain ⟨place, hmem, rfl⟩ := List.mem_map.1 hplace
            rw [lookup?_under (hbelow place (by
              rw [hancestors]
              exact List.mem_append_left _ hmem)), hinner place hmem]
            rfl
        simp only [resolveSimple?, hsymbol, hunder, Option.map_some]
  · rw [if_neg hidentifier, if_neg hidentifier]
    rfl

/-- A name refers to a field of the root under `top` as it does in the tree,
    whatever else it may refer to there. -/
theorem resolve?_under_eq_field {tree : Tree} (hkind : tree.kind.isTypeDeclaration = true)
    (hname : Below (root tree) name) (hrole : name.role ≠ .declaration) {text : String}
    {field : Symbol} (hfield : (root tree).lookupField? text = some field) :
    (name.under top k).resolve? = some (field.shift k) ↔ name.resolve? = some field := by
  have hfieldName : field.name = text := by
    rw [(lookupField?_eq_some hfield).1]
    rfl
  have hshiftName : (field.shift k).name = text := by
    rw [(lookupField?_eq_some hfield).1]
    rfl
  by_cases hlexeme : name.lexeme = text
  · rw [resolve?_under hkind hname hrole (hlexeme ▸ hfield)]
    cases hresolve : name.resolve? with
    | none => simp only [Option.map_none, reduceCtorEq]
    | some symbol => rw [Option.map_some, Option.some.injEq, Option.some.injEq, Symbol.shift_inj]
  · constructor
    · intro h
      by_cases hidentifier : name.kind = .identifier
      · have habove := above_ne_nil hname (hidentifier ▸ kind_ne_of_isTypeDeclaration hkind rfl)
        have hsame := name_of_resolve? (by rwa [role_under habove]) h
        rw [hshiftName, under_lexeme] at hsame
        exact absurd hsame.symm hlexeme
      · exact absurd (kind_of_resolve? h) (by rwa [under_kind])
    · intro h
      have hsame := name_of_resolve? hrole h
      rw [hfieldName] at hsame
      exact absurd hsame.symm hlexeme

end Place

end SharpLint

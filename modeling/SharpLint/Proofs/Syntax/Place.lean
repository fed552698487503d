import SharpLint.Proofs.Syntax.Sound

/-!
# Places and Spans

How the nodes of one tree stand to each other. Two nodes above a third are
above one another; two nodes of a tree that is laid out on a source are nested
or apart; and a node that spans no more than one of the nodes below it has a
single child, so lists in brackets are told apart from what they hold.

## Main definitions

* `Place.Below`: the node at or below another.
* `Place.Precedes`: the order in which a tree lists its nodes.
* `Document.Has`: the nodes of a document.

## Theorems

* `Place.Below.comparable`: Two nodes above a third are above one another.
* `Place.mem_descendants`: The descendants are the nodes below.
* `Place.pairwise_descendants`: The descendants come in order.
* `Place.eq_of_path`: A node is told by the way to it.
* `Document.Has.nested`: Two nodes are nested or apart.
* `Document.Has.only_child`: A node of the span of one below has one child.
* `Document.Has.at?_eq`: A node is found at its span.
* `Document.Has.exists_brackets`: A list in brackets begins and ends with them.
-/

namespace SharpLint

namespace Place

theorem isA_iff {p : Place} {kind : Kind} : p.isA kind = true ↔ p.kind = kind := by
  rw [isA, beq_iff_eq]
  exact Iff.rfl

/-- The second node is the first one or stands below it. -/
inductive Below (top : Place) : Place → Prop
  | refl : Below top top
  | step {parent child : Place} {n : Nat} (above : Below top parent)
      (child? : parent.child? n = some child) : Below top child

theorem child?_eq_some {parent child : Place} {n : Nat} :
    parent.child? n = some child ↔
      parent.node.children[n]? = some child.node ∧ child.above = (parent.node, n) :: parent.above := by
  unfold Place.child?
  constructor
  · intro h
    obtain ⟨tree, htree, rfl⟩ := Option.map_eq_some_iff.1 h
    exact ⟨htree, rfl⟩
  · rintro ⟨hnode, habove⟩
    rw [hnode, Option.map_some, ← habove]

theorem mem_of_child? {parent child : Place} {n : Nat} (h : parent.child? n = some child) :
    child.node ∈ parent.node.children :=
  List.mem_of_getElem? (child?_eq_some.1 h).1

/-- A child is a smaller tree than its parent, so a descent along children ends. -/
theorem sizeOf_lt_of_child? {parent child : Place} {n : Nat} (h : parent.child? n = some child) :
    sizeOf child.node < sizeOf parent.node := by
  have hchildren : sizeOf parent.node.children < sizeOf parent.node := by
    cases parent.node
    simp only [Tree.mk.sizeOf_spec]
    omega
  exact Nat.lt_trans (List.sizeOf_lt_of_mem (mem_of_child? h)) hchildren

theorem parent?_of_child? {parent child : Place} {n : Nat} (h : parent.child? n = some child) :
    child.parent? = some parent := by
  rw [Place.parent?, (child?_eq_some.1 h).2]

theorem child?_unique {parent parent' child : Place} {n n' : Nat}
    (h : parent.child? n = some child) (h' : parent'.child? n' = some child) :
    parent = parent' ∧ n = n' := by
  have habove := (child?_eq_some.1 h).2
  rw [(child?_eq_some.1 h').2, List.cons.injEq, Prod.mk.injEq] at habove
  refine ⟨?_, habove.1.2.symm⟩
  cases parent with
  | mk node above =>
      cases parent' with
      | mk node' above' =>
          obtain ⟨⟨hnode, -⟩, hrest⟩ := habove
          simp only at hnode hrest
          rw [hnode, hrest]

theorem path_of_child? {parent child : Place} {n : Nat} (h : parent.child? n = some child) :
    child.path = n :: parent.path := by
  rw [path, (child?_eq_some.1 h).2, List.map_cons, path]

namespace Below

variable {a b p q : Place}

theorem trans (hab : Below a b) (hbp : Below b p) : Below a p := by
  induction hbp with
  | refl => exact hab
  | step above child ih => exact .step ih child

/-- A node below another is that node, or stands at or below a child of it. -/
theorem head (h : Below p q) :
    q = p ∨ ∃ n child, p.child? n = some child ∧ Below child q := by
  induction h with
  | refl => exact .inl rfl
  | @step parent child n above hchild ih =>
      rcases ih with rfl | ⟨m, first, hfirst, hbelow⟩
      · exact .inr ⟨n, child, hchild, .refl⟩
      · exact .inr ⟨m, first, hfirst, .step hbelow hchild⟩

/-- A node below another is that node, or its parent stands below it. -/
theorem last (h : Below p q) :
    q = p ∨ ∃ n parent, parent.child? n = some q ∧ Below p parent := by
  cases h with
  | refl => exact .inl rfl
  | step above child => exact .inr ⟨_, _, child, above⟩

/-- Two nodes above a third are above one another. -/
theorem comparable (ha : Below a p) (hb : Below b p) : Below a b ∨ Below b a := by
  induction ha with
  | refl => exact .inr hb
  | step above child ih =>
      rcases hb.last with rfl | ⟨n, parent, hparent, hbelow⟩
      · exact .inl (.step above child)
      · obtain ⟨rfl, -⟩ := child?_unique child hparent
        exact ih hbelow

theorem length_path_le (h : Below a p) : a.path.length ≤ p.path.length := by
  induction h with
  | refl => exact Nat.le_refl _
  | step above child ih =>
      rw [path_of_child? child, List.length_cons]
      omega

/-- Nodes below one another are the same. -/
theorem antisymm (hab : Below a b) (hba : Below b a) : a = b := by
  rcases hab.last with rfl | ⟨n, parent, hparent, hbelow⟩
  · rfl
  · have hlength := (hba.trans hbelow).length_path_le
    rw [path_of_child? hparent, List.length_cons] at hlength
    omega

end Below

/-- A child is not its parent, nor above it. -/
theorem not_below_of_child? {parent child : Place} {n : Nat} (h : parent.child? n = some child) :
    ¬Below child parent := by
  intro hbelow
  have hlength := hbelow.length_path_le
  rw [path_of_child? h, List.length_cons] at hlength
  omega

/-- Siblings are not below one another. -/
theorem eq_of_below_sibling {parent a b : Place} {m n : Nat} (ha : parent.child? m = some a)
    (hb : parent.child? n = some b) (hbelow : Below a b) : b = a := by
  rcases hbelow.last with rfl | ⟨k, parent', hparent', hbelow⟩
  · rfl
  · obtain ⟨rfl, -⟩ := child?_unique hb hparent'
    exact absurd hbelow (not_below_of_child? ha)

/-- One child of a node at most is above another node. -/
theorem eq_of_children_above {parent a b p : Place} {m n : Nat} (ha : parent.child? m = some a)
    (hb : parent.child? n = some b) (hap : Below a p) (hbp : Below b p) : a = b := by
  rcases hap.comparable hbp with hbelow | hbelow
  · exact (eq_of_below_sibling ha hb hbelow).symm
  · exact eq_of_below_sibling hb ha hbelow

/-- Nothing stands below a leaf. -/
theorem eq_of_below_leaf {p q : Place} (hleaf : p.node.children = []) (h : Below p q) : q = p := by
  rcases h.head with rfl | ⟨n, child, hchild, -⟩
  · rfl
  · have hmem := mem_of_child? hchild
    rw [hleaf] at hmem
    exact absurd hmem List.not_mem_nil

/-- What holds of every node of a tree holds of the nodes below its root. -/
theorem Below.every {P : Tree → Prop} {a p : Place} (h : Below a p) (ha : a.node.Every P) :
    p.node.Every P := by
  induction h with
  | refl => exact ha
  | step above child ih => exact ih.child (mem_of_child? child)

/-! ### Children -/

theorem mem_children {parent child : Place} :
    child ∈ parent.children ↔ ∃ n, parent.child? n = some child := by
  rw [Place.children, List.mem_mapIdx]
  constructor
  · rintro ⟨n, hn, rfl⟩
    exact ⟨n, child?_eq_some.2 ⟨List.getElem?_eq_getElem hn, rfl⟩⟩
  · rintro ⟨n, hchild⟩
    obtain ⟨hnode, habove⟩ := child?_eq_some.1 hchild
    obtain ⟨hn, hget⟩ := List.getElem?_eq_some_iff.1 hnode
    refine ⟨n, hn, ?_⟩
    rw [hget, ← habove]

theorem mem_namedChildren {parent child : Place} :
    child ∈ parent.namedChildren ↔
      (∃ n, parent.child? n = some child) ∧ child.kind.isNamed = true := by
  rw [namedChildren, List.mem_filter, mem_children]

theorem mem_childrenOf {parent child : Place} {kind : Kind} :
    child ∈ parent.childrenOf kind ↔
      ((∃ n, parent.child? n = some child) ∧ child.kind.isNamed = true) ∧ child.kind = kind := by
  rw [childrenOf, List.mem_filter, mem_namedChildren, isA, beq_iff_eq]
  exact Iff.rfl

theorem childrenOf_sublist (parent : Place) (kind : Kind) :
    (parent.childrenOf kind).Sublist parent.children :=
  List.filter_sublist.trans List.filter_sublist

theorem child?_of_firstOf? {parent child : Place} {kind : Kind}
    (h : parent.firstOf? kind = some child) :
    (∃ n, parent.child? n = some child) ∧ child.kind = kind := by
  refine ⟨(mem_namedChildren.1 (List.mem_of_find?_eq_some h)).1, ?_⟩
  have hkind := List.find?_some h
  rwa [isA, beq_iff_eq] at hkind

theorem child?_of_labelled? {parent child : Place} {label : Label}
    (h : parent.labelled? label = some child) :
    (∃ n, parent.child? n = some child) ∧ child.node.label = some label := by
  refine ⟨mem_children.1 (List.mem_of_find?_eq_some h), ?_⟩
  have hlabel := List.find?_some h
  rwa [beq_iff_eq] at hlabel

theorem child?_of_name? {parent child : Place} (h : parent.name? = some child) :
    ∃ n, parent.child? n = some child := by
  rw [name?, Option.or_eq_some_iff] at h
  rcases h with h | ⟨-, h⟩
  · exact (child?_of_labelled? h).1
  · exact (child?_of_firstOf? h).1

/-! ### Siblings -/

theorem preceding_of_child? {parent child : Place} {n : Nat} (h : parent.child? n = some child) :
    child.preceding = ((parent.node.children.take n).mapIdx fun i sibling =>
      (⟨sibling, (parent.node, i) :: parent.above⟩ : Place)).reverse := by
  rw [preceding, (child?_eq_some.1 h).2]

/-- Nothing stands before the first child. -/
theorem preceding_zero {parent child : Place} (h : parent.child? 0 = some child) :
    child.preceding = [] := by
  rw [preceding_of_child? h]
  rfl

/-- Before a child stand the one before it and what stands before that. -/
theorem preceding_succ {parent child : Place} {n : Nat} (h : parent.child? (n + 1) = some child) :
    ∃ previous, parent.child? n = some previous
      ∧ child.preceding = previous :: previous.preceding := by
  have hlt : n < parent.node.children.length :=
    Nat.lt_of_succ_lt (List.getElem?_eq_some_iff.1 (child?_eq_some.1 h).1).1
  have hprevious : parent.child? n
      = some ⟨parent.node.children[n], (parent.node, n) :: parent.above⟩ :=
    child?_eq_some.2 ⟨List.getElem?_eq_getElem hlt, rfl⟩
  refine ⟨_, hprevious, ?_⟩
  rw [preceding_of_child? h, preceding_of_child? hprevious, List.take_add_one,
    List.getElem?_eq_getElem hlt, Option.toList_some, List.mapIdx_append, List.reverse_append]
  simp only [List.mapIdx_cons, List.mapIdx_nil, List.reverse_cons, List.reverse_nil,
    List.nil_append, List.cons_append, List.length_take, Nat.zero_add, List.cons.injEq,
    Place.mk.injEq, Prod.mk.injEq, true_and, and_true]
  exact Nat.min_eq_left (Nat.le_of_lt hlt)

/-! ### Descendants and ancestors -/

mutual

theorem mem_nodesFrom {place : Place} (above : List (Tree × Nat)) : (tree : Tree) →
    (place ∈ nodesFrom above tree ↔ Below ⟨tree, above⟩ place)
  | ⟨kind, label, span, lexeme, children⟩ => by
      rw [nodesFrom, List.mem_cons, mem_nodesFromAll ⟨kind, label, span, lexeme, children⟩ above 0
        children fun i => by rw [Nat.zero_add]]
      constructor
      · rintro (rfl | ⟨i, child, hchild, -, hbelow⟩)
        · exact .refl
        · exact Below.trans (.step .refl hchild) hbelow
      · intro h
        rcases h.head with rfl | ⟨n, child, hchild, hbelow⟩
        · exact .inl rfl
        · exact .inr ⟨n, child, hchild, Nat.zero_le n, hbelow⟩

theorem mem_nodesFromAll {place : Place} (parent : Tree) (above : List (Tree × Nat)) (n : Nat) :
    (trees : List Tree) → (∀ i, trees[i]? = parent.children[n + i]?) →
    (place ∈ nodesFromAll parent above n trees ↔
      ∃ i child, (⟨parent, above⟩ : Place).child? i = some child ∧ n ≤ i ∧ Below child place)
  | [], htrees => by
      simp only [nodesFromAll, List.not_mem_nil, false_iff]
      rintro ⟨i, child, hchild, hle, -⟩
      have hnone := htrees (i - n)
      rw [Nat.add_sub_cancel' hle, (child?_eq_some.1 hchild).1] at hnone
      exact absurd hnone (by simp only [List.getElem?_nil, reduceCtorEq, not_false_eq_true])
  | tree :: trees, htrees => by
      have hhead : parent.children[n]? = some tree := (htrees 0).symm
      -- The children from `n` on are the first of them and those from `n + 1` on.
      have htail : ∀ i, trees[i]? = parent.children[n + 1 + i]? := fun i => by
        rw [← List.getElem?_cons_succ (a := tree), htrees (i + 1), Nat.add_assoc, Nat.add_comm i]
      rw [nodesFromAll, List.mem_append, mem_nodesFrom ((parent, n) :: above) tree,
        mem_nodesFromAll parent above (n + 1) trees htail]
      constructor
      · rintro (hbelow | ⟨i, child, hchild, hle, hbelow⟩)
        · exact ⟨n, ⟨tree, (parent, n) :: above⟩, child?_eq_some.2 ⟨hhead, rfl⟩, Nat.le_refl n, hbelow⟩
        · exact ⟨i, child, hchild, Nat.le_of_succ_le hle, hbelow⟩
      · rintro ⟨i, child, hchild, hle, hbelow⟩
        rcases Nat.eq_or_lt_of_le hle with rfl | hlt
        · obtain ⟨hnode, habove⟩ := child?_eq_some.1 hchild
          rw [hhead, Option.some.injEq] at hnode
          have heq : child = ⟨tree, (parent, n) :: above⟩ := by
            cases child
            simp only at hnode habove
            rw [hnode, habove]
          exact .inl (heq ▸ hbelow)
        · exact .inr ⟨i, child, hchild, hlt, hbelow⟩

end

/-- The descendants of a node are the nodes below it. -/
theorem mem_descendants {p q : Place} : q ∈ p.descendants ↔ Below p q :=
  mem_nodesFrom p.above p.node

/-- The first node is above the second, or stands in an earlier child of a node
    above both. -/
def Precedes (a b : Place) : Prop :=
  (∃ n child, a.child? n = some child ∧ Below child b)
    ∨ ∃ (parent : Place) (m n : Nat) (first second : Place), parent.child? m = some first
      ∧ parent.child? n = some second ∧ m < n ∧ Below first a ∧ Below second b

mutual

/-- The nodes of a tree come in order. -/
theorem pairwise_nodesFrom (above : List (Tree × Nat)) : (tree : Tree) →
    (nodesFrom above tree).Pairwise Precedes
  | ⟨kind, label, span, lexeme, children⟩ => by
      have htrees : ∀ i, children[i]?
          = (⟨kind, label, span, lexeme, children⟩ : Tree).children[0 + i]? := fun i => by
        rw [Nat.zero_add]
      rw [nodesFrom]
      refine List.Pairwise.cons (fun node hnode => ?_) (pairwise_nodesFromAll _ above 0 children htrees)
      obtain ⟨n, child, hchild, -, hbelow⟩ :=
        (mem_nodesFromAll ⟨kind, label, span, lexeme, children⟩ above 0 children htrees).1 hnode
      exact .inl ⟨n, child, hchild, hbelow⟩

/-- The nodes of the later children of a node come in order. -/
theorem pairwise_nodesFromAll (parent : Tree) (above : List (Tree × Nat)) (n : Nat) :
    (trees : List Tree) → (∀ i, trees[i]? = parent.children[n + i]?) →
    (nodesFromAll parent above n trees).Pairwise Precedes
  | [], _ => List.Pairwise.nil
  | tree :: trees, htrees => by
      have hhead : parent.children[n]? = some tree := (htrees 0).symm
      have htail : ∀ i, trees[i]? = parent.children[n + 1 + i]? := fun i => by
        rw [← List.getElem?_cons_succ (a := tree), htrees (i + 1), Nat.add_assoc, Nat.add_comm i]
      rw [nodesFromAll, List.pairwise_append]
      refine ⟨pairwise_nodesFrom ((parent, n) :: above) tree,
        pairwise_nodesFromAll parent above (n + 1) trees htail, fun a ha b hb => ?_⟩
      obtain ⟨m, second, hsecond, hle, hbelow⟩ :=
        (mem_nodesFromAll parent above (n + 1) trees htail).1 hb
      exact .inr ⟨⟨parent, above⟩, n, m, ⟨tree, (parent, n) :: above⟩, second,
        child?_eq_some.2 ⟨hhead, rfl⟩, hsecond, hle, (mem_nodesFrom ((parent, n) :: above) tree).1 ha,
        hbelow⟩

end

/-- The descendants of a node come in order. -/
theorem pairwise_descendants (p : Place) : p.descendants.Pairwise Precedes :=
  pairwise_nodesFrom p.above p.node

/-- The ancestors of a child are its parent and the ancestors of that. -/
theorem ancestors_of_child? {parent child : Place} {n : Nat} (h : parent.child? n = some child) :
    child.ancestors = parent :: parent.ancestors := by
  rw [Place.ancestors, (child?_eq_some.1 h).2, ancestorsFrom, ancestors]

/-- The ancestors of a node of a tree are the nodes above its parent. -/
theorem mem_ancestors {tree : Tree} {a p : Place} (h : Below (root tree) p) :
    a ∈ p.ancestors ↔ ∃ parent, p.parent? = some parent ∧ Below (root tree) a ∧ Below a parent := by
  induction h with
  | refl =>
      constructor
      · intro ha
        exact absurd ha List.not_mem_nil
      · rintro ⟨parent, hparent, -⟩
        exact absurd hparent (by simp only [root, parent?, reduceCtorEq, not_false_eq_true])
  | @step parent child n above hchild ih =>
      -- The ancestors of a child are its parent and those of its parent.
      rw [ancestors_of_child? hchild, List.mem_cons, ih, parent?_of_child? hchild]
      constructor
      · rintro (rfl | ⟨parent', hparent', hroot, hbelow⟩)
        · exact ⟨a, rfl, above, .refl⟩
        · refine ⟨parent, rfl, hroot, ?_⟩
          rcases above.last with rfl | ⟨m, parent'', hparent'', -⟩
          · exact absurd hparent' (by simp only [root, parent?, reduceCtorEq, not_false_eq_true])
          · rw [parent?_of_child? hparent'', Option.some.injEq] at hparent'
            exact .step (hparent' ▸ hbelow) hparent''
      · rintro ⟨parent', hparent', hroot, hbelow⟩
        rw [Option.some.injEq] at hparent'
        subst hparent'
        rcases hbelow.last with rfl | ⟨m, parent', hparent', hbelow'⟩
        · exact .inl rfl
        · exact .inr ⟨parent', parent?_of_child? hparent', hroot, hbelow'⟩

theorem below_of_mem_ancestors {tree : Tree} {a p : Place} (h : Below (root tree) p)
    (ha : a ∈ p.ancestors) : Below (root tree) a ∧ Below a p := by
  obtain ⟨parent, hparent, hroot, hbelow⟩ := (mem_ancestors h).1 ha
  refine ⟨hroot, ?_⟩
  rcases h.last with rfl | ⟨n, parent', hparent', -⟩
  · exact absurd hparent (by simp only [root, parent?, reduceCtorEq, not_false_eq_true])
  · rw [parent?_of_child? hparent', Option.some.injEq] at hparent
    exact .step (hparent ▸ hbelow) hparent'

/-- An ancestor found by its kind. -/
theorem below_of_ancestor? {tree : Tree} {a p : Place} {ok : Kind → Bool}
    (h : Below (root tree) p) (ha : p.ancestor? ok = some a) :
    Below (root tree) a ∧ Below a p ∧ ok a.kind = true :=
  have hbelow := below_of_mem_ancestors h (List.mem_of_find?_eq_some ha)
  have hkind := List.find?_some (p := fun ancestor : Place => ok ancestor.kind) ha
  ⟨hbelow.1, hbelow.2, hkind⟩

/-- A node of a tree is told by the way to it. -/
theorem eq_of_path {tree : Tree} {p q : Place} (hp : Below (root tree) p)
    (hq : Below (root tree) q) (hpath : p.path = q.path) : p = q := by
  induction hp generalizing q with
  | refl =>
      rcases hq.last with rfl | ⟨n, parent, hparent, -⟩
      · rfl
      · rw [path_of_child? hparent] at hpath
        exact absurd hpath (by simp only [path, root, List.map_nil, List.nil_eq, reduceCtorEq,
          not_false_eq_true])
  | @step parent child n above hchild ih =>
      rcases hq.last with rfl | ⟨m, parent', hparent', hbelow⟩
      · rw [path_of_child? hchild] at hpath
        exact absurd hpath (by simp only [path, root, List.map_nil, reduceCtorEq,
          not_false_eq_true])
      · rw [path_of_child? hchild, path_of_child? hparent', List.cons.injEq] at hpath
        obtain ⟨rfl, hpath⟩ := hpath
        obtain rfl := ih hbelow hpath
        rw [hchild, Option.some.injEq] at hparent'
        exact hparent'

theorem eq_of_same {tree : Tree} {p q : Place} (hp : Below (root tree) p)
    (hq : Below (root tree) q) (hsame : p.same q = true) : p = q :=
  eq_of_path hp hq (beq_iff_eq.1 hsame)

theorem same_self (p : Place) : p.same p = true :=
  beq_iff_eq.2 rfl

/-- What plays a part in its parent is the first child labelled so. -/
theorem plays_iff {tree : Tree} {p parent : Place} {label : Label} (hp : Below (root tree) p)
    (hparent : Below (root tree) parent) :
    p.plays parent label = true ↔ parent.labelled? label = some p := by
  unfold plays
  constructor
  · intro h
    split at h
    · next child hchild =>
      obtain ⟨n, hn⟩ := (child?_of_labelled? hchild).1
      rw [hchild, eq_of_same (.step hparent hn) hp h]
    · exact absurd h Bool.false_ne_true
  · intro h
    rw [h]
    exact same_self p

/-! ### Nodes found by their spans -/

mutual

theorem below_coveringFrom (span : Span) (above : List (Tree × Nat)) : (tree : Tree) →
    Below ⟨tree, above⟩ (coveringFrom span above tree)
  | ⟨kind, label, at', lexeme, children⟩ => by
      rw [coveringFrom]
      cases h : coveringAmong span ⟨kind, label, at', lexeme, children⟩ above 0 children with
      | none => exact .refl
      | some place =>
          obtain ⟨i, child, hchild, hbelow⟩ := below_coveringAmong span
            ⟨kind, label, at', lexeme, children⟩ above 0 children
            (fun i => by rw [Nat.zero_add]) h
          exact (Below.step .refl hchild).trans hbelow

theorem below_coveringAmong {place : Place} (span : Span) (parent : Tree)
    (above : List (Tree × Nat)) (n : Nat) : (trees : List Tree) →
    (∀ i, trees[i]? = parent.children[n + i]?) →
    coveringAmong span parent above n trees = some place →
    ∃ i child, (⟨parent, above⟩ : Place).child? i = some child ∧ Below child place
  | [], _, h => absurd h (by simp only [coveringAmong, reduceCtorEq, not_false_eq_true])
  | tree :: trees, htrees, h => by
      have hhead : parent.children[n]? = some tree := (htrees 0).symm
      have htail : ∀ i, trees[i]? = parent.children[n + 1 + i]? := fun i => by
        rw [← List.getElem?_cons_succ (a := tree), htrees (i + 1), Nat.add_assoc, Nat.add_comm i]
      rw [coveringAmong] at h
      split at h
      · exact below_coveringAmong span parent above (n + 1) trees htail h
      · split at h
        · exact absurd h (by simp only [reduceCtorEq, not_false_eq_true])
        · rw [Option.some.injEq] at h
          subst h
          exact ⟨n, ⟨tree, (parent, n) :: above⟩, child?_eq_some.2 ⟨hhead, rfl⟩,
            below_coveringFrom span ((parent, n) :: above) tree⟩

end

/-- The node found at a span is a node of the tree, of that span and kind. -/
theorem below_of_at? {tree : Tree} {span : Span} {kind : Kind} {p : Place}
    (h : (root tree).at? span kind = some p) :
    Below (root tree) p ∧ p.kind = kind ∧ p.span = span := by
  have hcovering : Below (root tree) ((root tree).covering span) :=
    below_coveringFrom span [] tree
  have hfound := List.find?_some h
  rw [Bool.and_eq_true, isA, beq_iff_eq, beq_iff_eq] at hfound
  refine ⟨?_, hfound⟩
  rcases List.mem_cons.1 ((List.takeWhile_sublist _).subset (List.mem_of_find?_eq_some h)) with
    rfl | hmem
  · exact hcovering
  · exact (below_of_mem_ancestors hcovering hmem).1

/-- Of the children, the first that reaches over the span is looked into. -/
theorem coveringAmong_eq {span : Span} (parent : Tree) (above : List (Tree × Nat))
    (hspan : span.start < span.stop) (n : Nat) {trees : List Tree} {i : Nat} {tree : Tree}
    (htree : trees[i]? = some tree)
    (hbefore : ∀ j other, j < i → trees[j]? = some other → other.span.stop ≤ span.start)
    (hstart : tree.span.start ≤ span.start) (hstop : span.stop ≤ tree.span.stop) :
    coveringAmong span parent above n trees
      = some (coveringFrom span ((parent, n + i) :: above) tree) := by
  induction trees generalizing n i with
  | nil => exact absurd htree (by simp only [List.getElem?_nil, reduceCtorEq, not_false_eq_true])
  | cons first trees ih =>
      rw [coveringAmong]
      cases i with
      | zero =>
          rw [List.getElem?_cons_zero, Option.some.injEq] at htree
          subst htree
          rw [if_neg, if_neg (Nat.not_lt_of_le hstart), Nat.add_zero]
          rw [Bool.or_eq_true, decide_eq_true_eq, decide_eq_true_eq]
          omega
      | succ i =>
          rw [List.getElem?_cons_succ] at htree
          have hfirst := hbefore 0 first (Nat.succ_pos i) rfl
          -- A child that ends before the span is passed over.
          rw [if_pos (by rw [Bool.or_eq_true, decide_eq_true_eq, decide_eq_true_eq]; exact .inr hfirst),
            ih (n + 1) htree fun j other hlt hother => hbefore (j + 1) other (Nat.succ_lt_succ hlt) hother]
          rw [Nat.add_assoc, Nat.add_comm 1 i]

/-- Where no child reaches over the span, none is looked into. -/
theorem coveringAmong_eq_none {span : Span} (parent : Tree) (above : List (Tree × Nat)) (n : Nat)
    {trees : List Tree}
    (hnone : ∀ tree ∈ trees, ¬(tree.span.start ≤ span.start ∧ span.stop ≤ tree.span.stop)) :
    coveringAmong span parent above n trees = none := by
  induction trees generalizing n with
  | nil => rfl
  | cons first trees ih =>
      rw [coveringAmong]
      split
      · exact ih (n + 1) fun tree hmem => hnone tree (List.mem_cons_of_mem _ hmem)
      · next hreach =>
        rw [Bool.or_eq_true, decide_eq_true_eq, decide_eq_true_eq, not_or] at hreach
        have hfirst := hnone first List.mem_cons_self
        exact if_pos (by omega)

/-- What covers a span inside a child covers it in the parent. -/
theorem covering_child {p child : Place} {n : Nat} {span : Span} (hchild : p.child? n = some child)
    (hspan : span.start < span.stop)
    (hbefore : ∀ m other, m < n → p.child? m = some other → other.stop ≤ span.start)
    (hstart : child.start ≤ span.start) (hstop : span.stop ≤ child.stop) :
    p.covering span = child.covering span := by
  obtain ⟨hnode, habove⟩ := child?_eq_some.1 hchild
  have hamong := coveringAmong_eq p.node p.above hspan 0 hnode
    (fun j other hlt hother => hbefore j ⟨other, (p.node, j) :: p.above⟩ hlt
      (child?_eq_some.2 ⟨hother, rfl⟩)) hstart hstop
  rw [Nat.zero_add, ← habove] at hamong
  cases p with
  | mk node above =>
      cases node
      rw [covering, coveringFrom, hamong]
      rfl

/-- A node none of whose children reaches over a span covers the span. -/
theorem covering_self {p : Place} {span : Span}
    (hnone : ∀ n child, p.child? n = some child → ¬(child.start ≤ span.start ∧ span.stop ≤ child.stop)) :
    p.covering span = p := by
  have hamong : coveringAmong span p.node p.above 0 p.node.children = none :=
    coveringAmong_eq_none p.node p.above 0 fun tree hmem => by
      obtain ⟨n, hn⟩ := List.getElem?_of_mem hmem
      exact hnone n ⟨tree, (p.node, n) :: p.above⟩ (child?_eq_some.2 ⟨hn, rfl⟩)
  cases p with
  | mk node above =>
      cases node
      rw [covering, coveringFrom, hamong]
      rfl

end Place

namespace Tree

/-- Trees that tile come one after the other. -/
theorem Tiles.stop_le_start {start stop : Nat} {trees : List Tree} (h : Tiles start stop trees)
    {m n : Nat} {a b : Tree} (hmn : m < n) (ha : trees[m]? = some a) (hb : trees[n]? = some b) :
    a.span.stop ≤ b.span.start := by
  induction trees generalizing start m n with
  | nil => exact absurd ha (by simp only [List.getElem?_nil, reduceCtorEq, not_false_eq_true])
  | cons tree trees ih =>
      obtain ⟨k, rfl⟩ := Nat.exists_eq_succ_of_ne_zero (Nat.ne_zero_of_lt hmn)
      rw [List.getElem?_cons_succ] at hb
      cases m with
      | zero =>
          rw [List.getElem?_cons_zero, Option.some.injEq] at ha
          subst ha
          exact (h.2.2.mem (List.mem_of_getElem? hb)).1
      | succ m =>
          rw [List.getElem?_cons_succ] at ha
          exact ih h.2.2 (Nat.lt_of_succ_lt_succ hmn) ha hb

end Tree

namespace Document

open Place

variable {document : Document}

/-- The place is a node of the document. -/
def Has (document : Document) (p : Place) : Prop :=
  Below document.root p

namespace Has

variable {p q : Place}

theorem child {n : Nat} (h : document.Has p) (hchild : p.child? n = some q) : document.Has q :=
  .step h hchild

theorem below (h : document.Has p) (hq : Below p q) : document.Has q :=
  Below.trans h hq

theorem laidOut (h : document.Has p) (hsound : document.Sound) :
    p.node.LaidOut document.source :=
  (Below.every h hsound.laidOut).here

theorem shaped (h : document.Has p) (hsound : document.Sound) : p.node.Shaped :=
  (Below.every h hsound.shaped).here

/-- The parent of a node is a node, of which it is a child. -/
theorem parent {parent : Place} (h : document.Has p) (hparent : p.parent? = some parent) :
    document.Has parent ∧ ∃ n, parent.child? n = some p := by
  rcases Below.last h with rfl | ⟨n, parent', hchild, hbelow⟩
  · exact absurd hparent (by
      simp only [Document.root, Place.root, parent?, reduceCtorEq, not_false_eq_true])
  · rw [parent?_of_child? hchild, Option.some.injEq] at hparent
    subst hparent
    exact ⟨hbelow, n, hchild⟩

/-- Names, comments and directives are leaves, apart from a directive that
    names warnings. -/
theorem leaf_of_named (h : document.Has p) (hsound : document.Sound)
    (hkind : p.kind = .identifier ∨ p.kind.isExtra = true) (hpragma : p.kind ≠ .preprocPragma) :
    p.node.children = [] :=
  ((h.shaped hsound).leaf ((h.shaped hsound).named hkind)).resolve_left hpragma

/-- A name is a leaf. -/
theorem leaf_of_identifier (h : document.Has p) (hsound : document.Sound)
    (hkind : p.kind = .identifier) : p.node.children = [] :=
  h.leaf_of_named hsound (.inl hkind) (by rw [hkind]; decide)

/-- A child lies inside its parent and is not empty. -/
theorem child_span {n : Nat} (h : document.Has p) (hsound : document.Sound)
    (hchild : p.child? n = some q) :
    p.start ≤ q.start ∧ q.start < q.stop ∧ q.stop ≤ p.stop :=
  (h.laidOut hsound).tiles.mem (mem_of_child? hchild)

/-- A child stands behind the children before it. -/
theorem child_order {m n : Nat} {a b : Place} (h : document.Has p) (hsound : document.Sound)
    (ha : p.child? m = some a) (hb : p.child? n = some b) (hmn : m < n) : a.stop ≤ b.start :=
  (h.laidOut hsound).tiles.stop_le_start hmn (child?_eq_some.1 ha).1 (child?_eq_some.1 hb).1

/-- The children stand one behind the other. -/
theorem pairwise_children (h : document.Has p) (hsound : document.Sound) :
    p.children.Pairwise fun a b => a.stop ≤ b.start := by
  rw [List.pairwise_iff_getElem]
  intro m n hm hn hmn
  have hchild {k : Nat} (hk : k < p.children.length) : p.child? k = some p.children[k] := by
    have hlength : k < p.node.children.length := by
      rwa [Place.children, List.length_mapIdx] at hk
    refine child?_eq_some.2 ?_
    simp only [Place.children, List.getElem_mapIdx, and_true]
    exact List.getElem?_eq_getElem hlength
  exact h.child_order hsound (hchild hm) (hchild hn) hmn

theorem pairwise_childrenOf (h : document.Has p) (hsound : document.Sound) (kind : Kind) :
    (p.childrenOf kind).Pairwise fun a b => a.stop ≤ b.start :=
  (h.pairwise_children hsound).sublist (childrenOf_sublist p kind)

/-- The spans of the children of a kind are not empty, and come in order. -/
theorem spans_childrenOf (h : document.Has p) (hsound : document.Sound) (kind : Kind) :
    (∀ item ∈ (p.childrenOf kind).map Place.span, item.start < item.stop)
      ∧ ((p.childrenOf kind).map Place.span).Pairwise fun a b => a.stop ≤ b.start := by
  refine ⟨fun item hitem => ?_, List.pairwise_map.2 (h.pairwise_childrenOf hsound kind)⟩
  obtain ⟨child, hchild, rfl⟩ := List.mem_map.1 hitem
  obtain ⟨n, hn⟩ := (mem_childrenOf.1 hchild).1.1
  exact (h.child_span hsound hn).2.1

/-- A node below another lies inside it. -/
theorem inside (h : document.Has p) (hsound : document.Sound) (hq : Below p q) :
    p.start ≤ q.start ∧ q.stop ≤ p.stop := by
  induction hq with
  | refl => exact ⟨Nat.le_refl _, Nat.le_refl _⟩
  | step above hchild ih =>
      have hspan := (h.below above).child_span hsound hchild
      omega

/-- What is above a node of the document is a node of it. -/
theorem above (h : document.Has q) (hbelow : Below p q) : document.Has p := by
  rcases Below.comparable h hbelow with hp | hroot
  · exact hp
  · -- Nothing but the root itself is above the root.
    rcases hroot.last with heq | ⟨n, parent, hparent, -⟩
    · exact heq ▸ .refl
    · exact absurd (child?_eq_some.1 hparent).2 (List.cons_ne_nil _ _).symm

/-- What comes after a leaf starts behind it. -/
theorem stop_le_start {a b : Place} (h : document.Has a) (hsound : document.Sound)
    (hleaf : a.node.children = []) (hprecedes : a.Precedes b) : a.stop ≤ b.start := by
  rcases hprecedes with ⟨n, child, hchild, -⟩ | ⟨parent, m, n, first, second, hm, hn, hlt, ha, hb⟩
  · exact absurd (mem_of_child? hchild) (by rw [hleaf]; exact List.not_mem_nil)
  · have hparent := h.above ((Below.step .refl hm).trans ha)
    have hfirst := (hparent.child hm).inside hsound ha
    have hsecond := (hparent.child hn).inside hsound hb
    have horder := hparent.child_order hsound hm hn hlt
    omega

/-- Two nodes of a document are nested or apart. -/
theorem nested (hp : document.Has p) (hq : document.Has q) (hsound : document.Sound) :
    Below p q ∨ Below q p ∨ p.stop ≤ q.start ∨ q.stop ≤ p.start := by
  -- Along the way to `p`: its parent holds `q`, is held by it, or stands apart from it.
  induction hp with
  | refl => exact .inl hq
  | @step parent child n above hchild ih =>
      have hparent : document.Has parent := above
      have hspan := hparent.child_span hsound hchild
      rcases ih with hbelow | hbelow | hapart | hapart
      · rcases hbelow.head with rfl | ⟨m, other, hother, hbelow⟩
        · exact .inr (.inl (.step .refl hchild))
        · have hinside := (hparent.child hother).inside hsound hbelow
          -- Both are below the parent, so the children that they are below decide.
          rcases Nat.lt_trichotomy m n with hlt | rfl | hlt
          · have horder := hparent.child_order hsound hother hchild hlt
            exact .inr (.inr (.inr (by omega)))
          · rw [hchild, Option.some.injEq] at hother
            exact .inl (hother ▸ hbelow)
          · have horder := hparent.child_order hsound hchild hother hlt
            exact .inr (.inr (.inl (by omega)))
      · exact .inr (.inl (.step hbelow hchild))
      · exact .inr (.inr (.inl (by omega)))
      · exact .inr (.inr (.inr (by omega)))

/-- No member stands below a sealed node. -/
theorem not_member (h : document.Has p) (hsound : document.Sound) (hsealed : p.kind.isSealed = true)
    (hq : Below p q) (hne : q ≠ p) : q.kind.isMember = false := by
  rcases hq.head with rfl | ⟨n, child, hchild, hbelow⟩
  · exact absurd rfl hne
  · exact (hbelow.every ((h.shaped hsound).sealed hsealed child.node (mem_of_child? hchild))).here

/-- Of the members above a node one at most is sealed. -/
theorem eq_of_sealed {a b : Place} (ha : document.Has a) (hb : document.Has b)
    (hsound : document.Sound) (haSealed : a.kind.isSealed = true) (hbSealed : b.kind.isSealed = true)
    (haMember : a.kind.isMember = true) (hbMember : b.kind.isMember = true) (hap : Below a p)
    (hbp : Below b p) : a = b := by
  refine Classical.byContradiction fun hne => ?_
  rcases hap.comparable hbp with hbelow | hbelow
  · rw [ha.not_member hsound haSealed hbelow (Ne.symm hne)] at hbMember
    exact absurd hbMember Bool.false_ne_true
  · rw [hb.not_member hsound hbSealed hbelow hne] at haMember
    exact absurd haMember Bool.false_ne_true

/-- No node stands in both a constructor and a declaration of fields. -/
theorem not_in_both {constructor field : Place} (hconstructor : document.Has constructor)
    (hfield : document.Has field) (hsound : document.Sound)
    (hkind : constructor.kind = .constructorDeclaration) (hfieldKind : field.kind = .fieldDeclaration)
    (hbelow : Below constructor p) : ¬Below field p := by
  intro hfieldBelow
  have heq := hfield.eq_of_sealed hconstructor hsound (by rw [hfieldKind]; rfl) (by rw [hkind]; rfl)
    (by rw [hfieldKind]; rfl) (by rw [hkind]; rfl) hfieldBelow hbelow
  rw [heq, hkind] at hfieldKind
  exact absurd hfieldKind (by decide)

/-- Children do not come in an excluded order. -/
theorem not_before {a b : Place} {m n : Nat} (h : document.Has p) (hsound : document.Sound)
    (hexcluded : (a.kind, b.kind) ∈ p.kind.excluded) (ha : p.child? m = some a)
    (hb : p.child? n = some b) : ¬m < n := by
  intro hlt
  have hpairs := (h.shaped hsound).ordered _ hexcluded
  rw [Grammar.Apart, List.pairwise_map] at hpairs
  obtain ⟨hm, ha⟩ := List.getElem?_eq_some_iff.1 (child?_eq_some.1 ha).1
  obtain ⟨hn, hb⟩ := List.getElem?_eq_some_iff.1 (child?_eq_some.1 hb).1
  refine List.pairwise_iff_getElem.1 hpairs m n hm hn hlt ⟨?_, ?_⟩
  · rw [ha]
    rfl
  · rw [hb]
    rfl

/-- A node has one child at most of a kind that does not follow itself. -/
theorem eq_of_kind {a b : Place} {m n : Nat} (h : document.Has p) (hsound : document.Sound)
    (hexcluded : (a.kind, a.kind) ∈ p.kind.excluded) (ha : p.child? m = some a)
    (hb : p.child? n = some b) (hkind : b.kind = a.kind) : b = a := by
  rcases Nat.lt_trichotomy m n with hlt | rfl | hlt
  · exact absurd hlt (h.not_before hsound (by rwa [hkind]) ha hb)
  · rw [ha, Option.some.injEq] at hb
    exact hb.symm
  · exact absurd hlt (h.not_before hsound (by rwa [hkind]) hb ha)

/-- A node that spans no more than one strictly below it has one child, which
    is above that one. -/
theorem only_child (hp : document.Has p) (hsound : document.Sound) (hq : Below p q) (hne : q ≠ p)
    (hspan : q.span = p.span) :
    ∃ child, Below child q ∧ child.span = p.span ∧
      ∀ n other, p.child? n = some other → other = child := by
  rcases hq.head with rfl | ⟨n, child, hchild, hbelow⟩
  · exact absurd rfl hne
  · have hinside := (hp.child hchild).inside hsound hbelow
    have hchildSpan := hp.child_span hsound hchild
    have hstart : q.start = p.start := congrArg Span.start hspan
    have hstop : q.stop = p.stop := congrArg Span.stop hspan
    refine ⟨child, hbelow, ?_, fun m other hother => ?_⟩
    · have hchildStart : child.node.span.start = p.node.span.start := by
        change child.start = p.start
        omega
      have hchildStop : child.node.span.stop = p.node.span.stop := by
        change child.stop = p.stop
        omega
      change child.node.span = p.node.span
      cases hnode : child.node.span
      cases hnode' : p.node.span
      rw [hnode, hnode'] at hchildStart hchildStop
      simp only at hchildStart hchildStop
      rw [hchildStart, hchildStop]
    · have hother' := hp.child_span hsound hother
      -- A child before or behind would have to be empty.
      rcases Nat.lt_trichotomy m n with hlt | rfl | hlt
      · have horder := hp.child_order hsound hother hchild hlt
        omega
      · rw [hchild, Option.some.injEq] at hother
        exact hother.symm
      · have horder := hp.child_order hsound hchild hother hlt
        omega

/-- What covers a span inside a node covers it in the whole document. -/
theorem covering_eq (h : document.Has p) (hsound : document.Sound) {span : Span}
    (hspan : span.start < span.stop) (hstart : p.start ≤ span.start) (hstop : span.stop ≤ p.stop) :
    document.root.covering span = p.covering span := by
  induction h with
  | refl => rfl
  | @step parent child n above hchild ih =>
      have hparent : document.Has parent := above
      have hinside := hparent.child_span hsound hchild
      rw [ih (by omega) (by omega)]
      refine covering_child hchild hspan (fun m other hlt hother => ?_) hstart hstop
      have := hparent.child_order hsound hother hchild hlt
      omega

/-- A node is found at its span, if none of its children takes up all of it. -/
theorem at?_eq (h : document.Has p) (hsound : document.Sound) (hproper : p.start < p.stop)
    (hnone : ∀ n child, p.child? n = some child → ¬(child.start ≤ p.start ∧ p.stop ≤ child.stop)) :
    document.root.at? p.span p.kind = some p := by
  have hcovers : document.root.covering p.span = p.covering p.span :=
    h.covering_eq hsound hproper (Nat.le_refl _) (Nat.le_refl _)
  have hcovering : document.root.covering p.span = p := hcovers.trans (covering_self hnone)
  have hwithin : p.node.span.within p.span = true :=
    Span.within_iff.2 ⟨Nat.le_refl _, Nat.le_refl _⟩
  have hfound : (p.isA p.kind && p.node.span == p.span) = true := by
    rw [isA_iff.2 rfl, Bool.true_and, beq_iff_eq]
    rfl
  rw [at?, hcovering]
  change ((p :: p.ancestors).takeWhile fun node => node.node.span.within p.span).find? _ = _
  rw [List.takeWhile_cons_of_pos (p := fun node : Place => node.node.span.within p.span) hwithin]
  exact List.find?_cons_of_pos hfound

/-- A node with two children is found at its span. -/
theorem at?_of_two (h : document.Has p) (hsound : document.Sound) {m n : Nat} {a b : Place}
    (ha : p.child? m = some a) (hb : p.child? n = some b) (hmn : m < n) :
    document.root.at? p.span p.kind = some p := by
  have haSpan := h.child_span hsound ha
  have hbSpan := h.child_span hsound hb
  have horder := h.child_order hsound ha hb hmn
  refine h.at?_eq hsound (by omega) fun k child hchild hreach => ?_
  -- A child over both is neither behind the one nor before the other.
  have hchildSpan := h.child_span hsound hchild
  rcases Nat.lt_trichotomy k n with hlt | rfl | hlt
  · have := h.child_order hsound hchild hb hlt
    omega
  · rw [hb, Option.some.injEq] at hchild
    subst hchild
    omega
  · have := h.child_order hsound hb hchild hlt
    omega

/-- A leaf is found at its span. -/
theorem at?_of_leaf (h : document.Has p) (hsound : document.Sound) (hproper : p.start < p.stop)
    (hleaf : p.node.children = []) : document.root.at? p.span p.kind = some p := by
  refine h.at?_eq hsound hproper fun n child hchild => ?_
  have hmem := mem_of_child? hchild
  rw [hleaf] at hmem
  exact absurd hmem List.not_mem_nil

/-- A list in brackets begins and ends with them. -/
theorem exists_brackets (h : document.Has p) (hsound : document.Sound)
    (hkind : p.kind.isBracketed = true) :
    ∃ opening closing n, p.child? 0 = some opening ∧ p.child? (n + 1) = some closing
      ∧ opening.start = p.start ∧ closing.stop = p.stop
      ∧ p.kind.bracketsFit opening.node.lexeme.toList closing.node.lexeme.toList = true := by
  obtain ⟨opening, inner, closing, hchildren, hfit⟩ := (h.shaped hsound).bracketed hkind
  -- A leaf has no children, and only a pragma may have both.
  have hlexeme : p.node.lexeme = "" := by
    refine Classical.byContradiction fun hne => ?_
    rcases (h.shaped hsound).leaf hne with hpragma | hleaf
    · rw [Place.kind, hpragma] at hkind
      exact absurd hkind Bool.false_ne_true
    · rw [hchildren] at hleaf
      exact absurd hleaf (by simp only [List.cons_append, reduceCtorEq, not_false_eq_true])
  have hunit : p.node.kind ≠ .compilationUnit := by
    intro hunit
    rw [Place.kind, hunit] at hkind
    exact absurd hkind Bool.false_ne_true
  refine ⟨⟨opening, (p.node, 0) :: p.above⟩, ⟨closing, (p.node, inner.length + 1) :: p.above⟩,
    inner.length, child?_eq_some.2 ⟨by rw [hchildren]; rfl, rfl⟩, child?_eq_some.2 ⟨?_, rfl⟩, ?_, ?_,
    hfit⟩
  · rw [hchildren, List.getElem?_append_right (Nat.le_of_eq List.length_cons), List.length_cons,
      Nat.sub_self]
    rfl
  · exact (h.laidOut hsound).opens hlexeme opening (by rw [hchildren]; rfl)
  · refine (h.laidOut hsound).closes hlexeme hunit closing ?_
    rw [hchildren, List.getLast?_append, List.getLast?_singleton, Option.some_or]

end Has

end Document

end SharpLint
